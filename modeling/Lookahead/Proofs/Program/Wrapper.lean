import Lookahead.Proofs.Program.Depth

/-! The ladder of expressions. A tree at one rung stands under every looser rung, and in parentheses at every
place; none of the nodes around it changes what it converts to or counts as a conversion. -/
namespace Lookahead

open Script

/-! ## Shapes -/

namespace Tree
variable {s : Symbol} {l m : List Symbol} {i : ℕ} {p : Option Int} {k : Option Token} {F : List Tree} {c t : Tree}

theorem hasShape_node (hF : F.map symbol = l.map Symbol.name) (m : List Symbol) :
    (node s.name p k F).hasShape m = decide (l = m) := by
  simp only [hasShape, shape, children, hF, Symbol.names_inj]

theorem split?_node (hF : F.map symbol = l.map Symbol.name) : (node s.name p k F).split? l = some F := by
  rw [split?, hasShape_node hF, decide_eq_true rfl, if_pos rfl, children]

theorem split?_node_of_ne (hF : F.map symbol = l.map Symbol.name) (h : l ≠ m) :
    (node s.name p k F).split? m = none := by
  rw [split?, hasShape_node hF, decide_eq_false h, if_neg Bool.false_ne_true]

theorem wrapped?_node (hs : s ∈ Symbol.nonterminals) (hF : F.map symbol = l.map Symbol.name) :
    (node s.name p k F).wrapped? = (wrapperShape? s).bind fun w =>
      if l = w.1 ∧ (F.eraseIdx w.2).all isLeaf = true then F[w.2]? else none := by
  rw [wrapped?, symbol, Symbol.ofNonterminal?_name hs, Option.bind_some]
  cases wrapperShape? s with
  | none => rfl
  | some w => simp only [hasShape_node hF, Bool.and_eq_true, decide_eq_true_eq, Option.bind_some]; rfl

theorem core_of_some (h : t.wrapped? = some c) : t.core = c.core := by
  rw [core]
  split
  · rename_i c' hc
    rw [h, Option.some.injEq] at hc
    rw [hc]
  · rename_i hc
    rw [h] at hc
    cases hc

theorem core_of_none (h : t.wrapped? = none) : t.core = t := by
  rw [core]
  split
  · rename_i c hc
    rw [h] at hc
    cases hc
  · rfl

end Tree

/-! ## Rungs -/

namespace Rank

def symbol : Rank → Symbol
  | assignment => .assignExpr
  | comparison => .compExpr
  | additive => .addExpr
  | multiplicative => .mulExpr
  | unary => .unaryExpr
  | call => .callExpr
  | member => .memberExpr
  | primary => .primaryExpr

/-- What comes after the operand at a rung. -/
def rest : Rank → List Symbol
  | assignment => [.assignTail]
  | comparison => [.compTail]
  | additive => [.addTail]
  | multiplicative => [.mulTail]
  | unary => []
  | call => [.callTail]
  | member => [.memberTail]
  | primary => []

/-- From one rung to all looser ones. -/
theorem of_looser {motive : Rank → Prop} (next : ∀ r ≠ primary, motive r.next → motive r) {r r' : Rank}
    (hle : r.index ≤ r'.index) (h : motive r') : motive r := by
  induction hd : r'.index - r.index generalizing r with
  | zero =>
    have heq : r = r' := index_injective (by omega)
    exact heq ▸ h
  | succ d ih =>
    have hr : r ≠ primary := by
      rintro rfl
      have := r'.index_le_primary
      omega
    have hnext := index_next hr
    exact next r hr (ih (by omega) (by omega))

end Rank

namespace Expr

theorem ofTree_of_wrapped {c t : Tree} (h : t.wrapped? = some c) (n : ℕ) : ofTree n t = ofTree n c := by
  cases n with
  | zero => rfl
  | succ n => rw [ofTree, ofTree, Tree.core_of_some h]

def part (e : Expr) (s : Symbol) (m : List Mark) : Part := .giving s m ofTree e.depth e

@[simp] theorem marks_part (e : Expr) (s : Symbol) (m : List Mark) : (e.part s m).marks = m := rfl

variable {e : Expr} {m : List Mark} {r r' : Rank} {d : ℕ}

theorem gives_of_wrapped {c t : Tree} (hc : Gives ofTree d e c) (h : t.wrapped? = some c) : Gives ofTree d e t :=
  fun n => (ofTree_of_wrapped h n).trans (hc n)

theorem makes_rung (hr : r ≠ .primary) : Makes (r.symbol, r.next.symbol :: r.rest)
    (.giving r.next.symbol m ofTree d e :: r.rest.map .empty) (Gives ofTree d e) := by
  have hshape : wrapperShape? r.symbol = some (r.next.symbol :: r.rest, 0) := by
    cases r <;> first | rfl | exact absurd rfl hr
  rintro i F hF ⟨T, G, rfl, hT, hrest⟩
  refine gives_of_wrapped hT ?_
  rw [Tree.wrapped?_node (by cases r <;> decide) hF, hshape, Option.bind_some,
    if_pos ⟨rfl, Part.isLeaf_of_facts hrest⟩]
  rfl

theorem makes_group : Makes (.primaryExpr, [.leftParen, .expr, .rightParen])
    [.fixed .leftParen, .giving .expr m ofTree d e, .fixed .rightParen] (Gives ofTree d e) := by
  rintro i F hF ⟨a, _, rfl, ha, T, _, rfl, hT, b, _, rfl, hb, rfl⟩
  refine gives_of_wrapped hT ?_
  rw [Tree.wrapped?_node (by decide) hF]
  have hleaves : [a, b].all Tree.isLeaf = true := by simp [show a.isLeaf = true from ha, show b.isLeaf = true from hb]
  exact if_pos ⟨rfl, hleaves⟩

theorem makes_expr : Makes (.expr, [.assignExpr]) [.giving .assignExpr m ofTree d e] (Gives ofTree d e) := by
  rintro i F hF ⟨T, _, rfl, hT, rfl⟩
  refine gives_of_wrapped hT ?_
  rw [Tree.wrapped?_node (by decide) hF]
  rfl

theorem holds_rung (hr : r ≠ .primary) (h : (e.part r.next.symbol m).Holds) : (e.part r.symbol m).Holds := by
  have hrule : (r.symbol, r.next.symbol :: r.rest) ∈ rules := by cases r <;> first | decide | exact absurd rfl hr
  have hempty : ∀ s ∈ r.rest, (s, []) ∈ rules := by cases r <;> decide
  have hsymbols : (r.rest.map Part.empty).map Part.symbol = r.rest := by rw [List.map_map]; exact List.map_id _
  have hmarks : (r.rest.map Part.empty).flatMap Part.marks = [] := by
    rw [List.flatMap_map, List.flatMap_eq_nil_iff]
    exact fun _ _ => rfl
  refine yields_node (r.symbol, r.next.symbol :: r.rest) (e.part r.next.symbol m :: r.rest.map Part.empty) hrule
    ?_ ?_ ?_ (makes_rung hr)
  · rw [List.map_cons, hsymbols]
    rfl
  · refine List.forall_mem_cons.mpr ⟨h, fun p hp => ?_⟩
    obtain ⟨s, hs, rfl⟩ := List.mem_map.mp hp
    exact Part.holds_empty (hempty s hs)
  · rw [List.flatMap_cons, hmarks, List.append_nil]
    rfl

theorem holds_group (h : (e.part .expr m).Holds) : (e.part .primaryExpr (Mark.parens m)).Holds := by
  refine yields_node (.primaryExpr, [.leftParen, .expr, .rightParen])
    [.fixed .leftParen, e.part .expr m, .fixed .rightParen] (by decide) rfl ?_ rfl makes_group
  simp +decide [h]

theorem holds_expr (h : (e.part .assignExpr m).Holds) : (e.part .expr m).Holds := by
  refine yields_node (.expr, [.assignExpr]) [e.part .assignExpr m] (by decide) rfl ?_ ?_ makes_expr
  · simpa using h
  · simp

/-- A tree at some rung stands under all looser ones. -/
theorem holds_looser (hle : r.index ≤ r'.index) (h : (e.part r'.symbol m).Holds) : (e.part r.symbol m).Holds :=
  Rank.of_looser (fun _ hr h => holds_rung hr h) hle h

theorem holds_whole (h : (e.part e.rank.symbol e.marks).Holds) : (e.part .expr e.marks).Holds :=
  holds_expr (holds_looser (r := .assignment) (Nat.zero_le _) h)

/-- An expression can be read at every place, in parentheses where its rank is too low. -/
theorem holds_placed (h : (e.part e.rank.symbol e.marks).Holds) (place : Rank) :
    (e.part place.symbol (e.marksAt place)).Holds := by
  unfold marksAt placed
  split
  · exact holds_looser place.index_le_primary (holds_group (holds_whole h))
  · exact holds_looser (by omega) h

end Expr

end Lookahead
