import Lookahead.Grammar.First

/-! FOLLOW sets: the terminals that can come right after a nonterminal, and the end marker for one that
can end the input. -/
namespace Lookahead
namespace Grammar

/-- Every nonterminal starts without followers but the start symbol, which the end follows. -/
def followSeed (g : Grammar) : Except Undeclared Family :=
  if g.start ∈ g.nonterminals then
    .ok (.ofKeys g.nonterminals fun s => if s = g.start then NameSet.insert endMarker ∅ else ∅)
  else .error ⟨g.start⟩

/-- Adds what a right-hand side of `lhs` contributes to the nonterminals in it, from left to right: the
terminals that the symbols after a nonterminal start with, and the followers of `lhs` where those
symbols can vanish. -/
def followAlong (g : Grammar) (first : Family) (lhs : String) : List String → Family → Except Undeclared Family
  | [], f => .ok f
  | s :: rest, f =>
    if s ∈ g.nonterminals then do
      let target ← f.lookup s
      let trailer ← first.firstOf rest
      let inherited ← if epsilon ∈ trailer then f.lookup lhs else .ok ∅
      g.followAlong first lhs rest (f.set s (target ∪ trailer.erase epsilon ∪ inherited))
    else g.followAlong first lhs rest f

/-- One pass over the productions; each of them sees what those before it have added. -/
def followPass (g : Grammar) (first : Family) (f : Family) : Except Undeclared Family :=
  g.productions.foldlM (fun f p => g.followAlong first p.lhs p.rhs f) f

/-- Every pass but the last adds a terminal, or the end marker, to one of the sets. -/
def followBound (g : Grammar) : Nat := g.nonterminals.size * (g.terminals.size + 1) + 1

def follow (g : Grammar) (first : Family) : Except Undeclared (Settled Family) := do
  let seed ← g.followSeed
  settle (g.followPass first) g.followBound seed

def followEvent (passes : Nat) : Event :=
  ⟨.sets, .debug, "FOLLOW sets converged after " ++ toString passes ++ " pass(es)"⟩

end Grammar
end Lookahead
