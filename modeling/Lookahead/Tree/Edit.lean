import Lookahead.Tree.Basic

/-! Changes to single nodes of a tree. -/
namespace Lookahead

inductive TreeEdit where
  | relabel (symbol : String)
  | retoken (token : Option Token)
  | clear
  | remove (i : Nat)
  /-- Past the last child a tree is inserted at the end. -/
  | insert (i : Nat) (t : Tree)
  | swap (i j : Nat)

namespace TreeEdit

/-- The edited node, if the children that the edit names are there. -/
def edited? : TreeEdit → Tree → Option Tree
  | relabel s, .node _ p t cs => some (.node s p t cs)
  | retoken t, .node s p _ cs => some (.node s p t cs)
  | clear, .node s p t _ => some (.node s p t [])
  | remove i, .node s p t cs => if i < cs.length then some (.node s p t (cs.eraseIdx i)) else none
  | insert i c, .node s p t cs => some (.node s p t (cs.take i ++ c :: cs.drop i))
  | swap i j, .node s p t cs => do
    let a ← cs[i]?
    let b ← cs[j]?
    return .node s p t ((cs.set i b).set j a)

end TreeEdit

/-- Changes the node at the end of a path of child numbers. -/
def Tree.modify? (f : Tree → Option Tree) : List Nat → Tree → Option Tree
  | [], t => f t
  | i :: path, .node s p k cs => do
    let c ← cs[i]?
    let c ← c.modify? f path
    return .node s p k (cs.set i c)

def Tree.edit? (path : List Nat) (e : TreeEdit) (t : Tree) : Option Tree := t.modify? e.edited? path

end Lookahead
