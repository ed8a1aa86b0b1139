import Lookahead.Tree.Basic
import Mathlib.Data.List.Flatten

/-! The nodes of a tree without their depths, and what is read off them: the leaves with their tokens, the
symbols at the frontier, and the tree without its tokens. -/
namespace Lookahead
namespace Tree

mutual

def subtrees : Tree → List Tree
  | node s p k cs => node s p k cs :: subtreesAll cs

def subtreesAll : List Tree → List Tree
  | [] => []
  | c :: cs => c.subtrees ++ subtreesAll cs

end

mutual

/-- The tree without its tokens. -/
def strip : Tree → Tree
  | node s p _ cs => node s p none (stripAll cs)

def stripAll : List Tree → List Tree
  | [] => []
  | c :: cs => c.strip :: stripAll cs

end

/-- The symbols of the nodes that no production has expanded. -/
def frontier (t : Tree) : List String := (t.subtrees.filter fun u => u.production.isNone).map symbol

theorem subtreesAll_eq (cs : List Tree) : subtreesAll cs = cs.flatMap subtrees := by
  induction cs with
  | nil => rfl
  | cons c cs ih => rw [subtreesAll, ih, List.flatMap_cons]

theorem stripAll_eq (cs : List Tree) : stripAll cs = cs.map strip := by
  induction cs with
  | nil => rfl
  | cons c cs ih => rw [stripAll, ih, List.map_cons]

@[simp] theorem subtrees_node (s : String) (p : Option Int) (k : Option Token) (cs : List Tree) :
    (node s p k cs).subtrees = node s p k cs :: cs.flatMap subtrees := by
  rw [subtrees, subtreesAll_eq]

@[simp] theorem strip_node (s : String) (p : Option Int) (k : Option Token) (cs : List Tree) :
    (node s p k cs).strip = node s p none (cs.map strip) := by
  rw [strip, stripAll_eq]

/-! ## Leaves -/

mutual

theorem map_listOnto (depth : Nat) (t : Tree) (rest : List (Nat × Tree)) :
    (t.listOnto depth rest).map Prod.snd = t.subtrees ++ rest.map Prod.snd := by
  cases t with
  | node s p k cs => rw [listOnto, subtrees, List.map_cons, map_listAllOnto (depth + 1) cs rest, List.cons_append]

theorem map_listAllOnto (depth : Nat) (cs : List Tree) (rest : List (Nat × Tree)) :
    (listAllOnto depth cs rest).map Prod.snd = subtreesAll cs ++ rest.map Prod.snd := by
  cases cs with
  | nil => rw [listAllOnto, subtreesAll, List.nil_append]
  | cons c cs =>
    rw [listAllOnto, subtreesAll, map_listOnto depth c, map_listAllOnto depth cs rest, List.append_assoc]

end

theorem leaves_eq (t : Tree) : t.leaves = t.subtrees.filter isTerminal := by
  have h := map_listOnto 0 t []
  rw [List.map_nil, List.append_nil] at h
  rw [leaves, nodes, h]

@[simp] theorem leaves_leaf (s : String) (k : Token) : (leaf s k).leaves = [leaf s k] := by
  rw [leaves_eq, leaf, subtrees_node]
  rfl

@[simp] theorem leaves_node (s : String) (p : Option Int) (cs : List Tree) :
    (node s p none cs).leaves = cs.flatMap leaves := by
  have h : ∀ t : Tree, t.subtrees.filter isTerminal = t.leaves := fun t => (leaves_eq t).symm
  rw [leaves_eq, subtrees_node, List.filter_cons_of_neg (by simp [isTerminal, token]), List.filter_flatMap]
  simp only [h]

/-! ## Frontiers -/

@[simp] theorem frontier_leaf (s : String) (k : Option Token) : (node s none k []).frontier = [s] := by
  rw [frontier, subtrees_node]
  rfl

@[simp] theorem frontier_node (s : String) (i : Int) (k : Option Token) (cs : List Tree) :
    (node s (some i) k cs).frontier = cs.flatMap frontier := by
  rw [frontier, subtrees_node, List.filter_cons_of_neg (by simp [production]), List.filter_flatMap, List.map_flatMap]
  rfl

end Tree
end Lookahead
