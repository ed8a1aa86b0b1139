import Lookahead.Proofs.Tree.Derivation

/-! Trees of the same tokens at other places. -/
namespace Lookahead

def Token.relocate (f : Location → Location) (t : Token) : Token := { t with location := f t.location }

namespace Tree

mutual

def relocate (f : Location → Location) : Tree → Tree
  | node s p k cs => node s p (k.map (Token.relocate f)) (relocateAll f cs)

def relocateAll (f : Location → Location) : List Tree → List Tree
  | [] => []
  | c :: cs => c.relocate f :: relocateAll f cs

end

variable {f : Location → Location}

theorem relocateAll_eq (cs : List Tree) : relocateAll f cs = cs.map (relocate f) := by
  induction cs with
  | nil => rfl
  | cons c cs ih => rw [relocateAll, ih, List.map_cons]

theorem relocate_node (s : String) (p : Option Int) (k : Option Token) (cs : List Tree) :
    (node s p k cs).relocate f = node s p (k.map (Token.relocate f)) (cs.map (relocate f)) := by
  rw [relocate, relocateAll_eq]

theorem relocate_leaf (s : String) (k : Token) : (leaf s k).relocate f = leaf s (k.relocate f) := by
  rw [leaf, relocate_node]
  rfl

theorem symbol_relocate (t : Tree) : (t.relocate f).symbol = t.symbol := by
  cases t
  rw [relocate_node, symbol, symbol]

mutual

theorem relocate_id (t : Tree) : t.relocate id = t := by
  cases t with
  | node s p k cs => rw [relocate, relocateAll_id cs]; cases k <;> rfl

theorem relocateAll_id (cs : List Tree) : relocateAll id cs = cs := by
  cases cs with
  | nil => rfl
  | cons c cs => rw [relocateAll, relocate_id c, relocateAll_id cs]

end

theorem Grows.relocate {g : Grammar} {ok : String → Token → Prop} {σ : List String} {w : List Token} {F : List Tree}
    (hok : ∀ s k, ok s k → ok s (k.relocate f)) (h : Grows g ok σ w F) :
    Grows g ok σ (w.map (Token.relocate f)) (F.map (Tree.relocate f)) := by
  induction h with
  | nil => exact .nil
  | leaf hs hk _ ih =>
    rw [List.map_cons, List.map_cons, relocate_leaf]
    exact .leaf hs (hok _ _ hk) ih
  | node hp _ ih =>
    rw [List.map_cons, relocate_node, List.map_take, List.map_drop]
    exact .node hp ih

end Tree
end Lookahead
