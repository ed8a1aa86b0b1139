import Lookahead.Program.Fault

/-! Wrappers: nodes of the expression ladder that add nothing to the one child that matters. -/
namespace Lookahead

open Script

/-- The shape of a wrapper, and the place of the child it wraps. -/
def wrapperShape? : Symbol → Option (List Symbol × Nat)
  | .expr => some ([.assignExpr], 0)
  | .assignExpr => some ([.compExpr, .assignTail], 0)
  | .compExpr => some ([.addExpr, .compTail], 0)
  | .addExpr => some ([.mulExpr, .addTail], 0)
  | .mulExpr => some ([.unaryExpr, .mulTail], 0)
  | .unaryExpr => some ([.callExpr], 0)
  | .callExpr => some ([.memberExpr, .callTail], 0)
  | .memberExpr => some ([.primaryExpr, .memberTail], 0)
  | .primaryExpr => some ([.leftParen, .expr, .rightParen], 1)
  | _ => none

namespace Tree

/-- The wrapped child of a wrapper, whose other children are empty. -/
def wrapped? (t : Tree) : Option Tree :=
  match (Symbol.ofNonterminal? t.symbol).bind wrapperShape? with
  | some (shape, i) =>
    if t.hasShape shape && (t.children.eraseIdx i).all isLeaf then t.children[i]? else none
  | none => none

theorem sizeOf_child {c t : Tree} (h : c ∈ t.children) : sizeOf c < sizeOf t := by
  cases t with
  | node s p k cs =>
    have h' : sizeOf c < sizeOf cs := List.sizeOf_lt_of_mem h
    rw [Tree.node.sizeOf_spec]
    omega

theorem wrapped?_mem {c t : Tree} (h : t.wrapped? = some c) : c ∈ t.children := by
  unfold wrapped? at h
  split at h
  · split at h
    · exact List.mem_of_getElem? h
    · cases h
  · cases h

/-- The node under all wrappers. -/
def core (t : Tree) : Tree :=
  match _h : t.wrapped? with
  | some c => c.core
  | none => t
termination_by sizeOf t
decreasing_by exact sizeOf_child (wrapped?_mem _h)

end Tree
end Lookahead
