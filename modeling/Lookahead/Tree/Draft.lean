import Lookahead.Tree.Basic

/-! Trees under construction. Nodes are referred to by number and filled in place, in any order: a draft holds all
that were made so far, and the stack of those that are still to be filled. -/
namespace Lookahead

/-- A node, with the numbers of its children. -/
structure Cell where
  symbol : String
  production : Option Int
  token : Option Token
  children : List Nat

namespace Cell

def fresh (symbol : String) : Cell := ⟨symbol, none, none, []⟩

end Cell

/-- The nodes still to be filled stand top first. The end marker at the bottom has no node. -/
structure Draft where
  cells : Array Cell
  nodes : List (Option Nat)

namespace Draft

/-- A root that is still to be filled. -/
def start (symbol : String) : Draft := ⟨#[.fresh symbol], [some 0, none]⟩

/-- Takes the node on top off the stack. -/
def pop (d : Draft) : Option (Option Nat × Draft) :=
  match d.nodes with
  | [] => none
  | i :: nodes => some (i, { d with nodes := nodes })

/-- Changes a node that has to be there. -/
def fill (d : Draft) (i : Option Nat) (f : Cell → Cell) : Option Draft := do
  let i ← i
  if i < d.cells.size then some { d with cells := d.cells.modify i f } else none

/-- Makes new nodes and puts them on the stack, the first on top. -/
def push (d : Draft) (cells : List Cell) : Draft :=
  ⟨d.cells ++ cells.toArray, (List.range' d.cells.size cells.length).map some ++ d.nodes⟩

/-- Puts new nodes under the node on top, which the production with that number expands. -/
def expand (d : Draft) (production : Int) (children : List Cell) : Option Draft := do
  let (i, d) ← d.pop
  let below := List.range' d.cells.size children.length
  let d ← d.fill i fun c => { c with production := some production, children := below }
  return d.push children

def matched (d : Draft) (t : Token) : Option Draft := do
  let (i, d) ← d.pop
  d.fill i fun c => { c with token := some t }

/-- The tree under a node, if it is no deeper than the bound and all nodes in it are there. -/
def treeAt (cells : Array Cell) : Nat → Nat → Option Tree
  | 0, _ => none
  | n + 1, i => do
    let c ← cells[i]?
    let children ← c.children.mapM (treeAt cells n)
    return .node c.symbol c.production c.token children

/-- The tree under the node that was made first. -/
def root (cells : Array Cell) : Option Tree := treeAt cells cells.size 0

end Draft
end Lookahead
