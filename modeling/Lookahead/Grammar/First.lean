import Lookahead.Grammar.Basic
import Lookahead.Log
import Lookahead.Name.Map

/-! FIRST sets: the terminals that the words derived from a symbol can start with, and the empty word
for a symbol that derives it. -/
namespace Lookahead

/-! ## Passes -/

/-- A settled value and the number of passes it took, the last of which changed nothing. -/
structure Settled (α : Type) where
  value : α
  passes : Nat

/-- Repeats a pass until it changes nothing, but at most so many times. -/
def settle {α ε : Type} [DecidableEq α] (pass : α → Except ε α) : Nat → α → Except ε (Settled α)
  | 0, a => .ok ⟨a, 0⟩
  | n + 1, a =>
    match pass a with
    | .error e => .error e
    | .ok b =>
      if b = a then .ok ⟨b, 1⟩
      else (settle pass n b).map fun s => ⟨s.value, s.passes + 1⟩

/-! ## Families of sets -/

/-- A symbol without an entry where one is needed. -/
structure Undeclared where
  symbol : String
deriving DecidableEq

/-- A set of terminals for each of some symbols. -/
abbrev Family := NameMap NameSet

namespace Family

def lookup (f : Family) (s : String) : Except Undeclared NameSet :=
  match f.get? s with
  | some t => .ok t
  | none => .error ⟨s⟩

/-- FIRST of a sequence of symbols. Symbols after the first that cannot vanish are not looked at. -/
def firstOf (f : Family) : List String → Except Undeclared NameSet
  | [] => .ok (NameSet.insert epsilon ∅)
  | s :: rest => do
    let t ← f.lookup s
    if epsilon ∈ t then
      let u ← f.firstOf rest
      return t.erase epsilon ∪ u
    else return t

end Family

namespace Grammar

def firstSeed (g : Grammar) : Family :=
  .ofKeys ((g.terminals ∪ g.nonterminals).insert epsilon) fun s =>
    if s = epsilon then NameSet.insert epsilon ∅ else if s ∈ g.nonterminals then ∅ else NameSet.insert s ∅

/-- Adds what a production contributes to its left-hand side. -/
def firstStep (f : Family) (p : Production) : Except Undeclared Family := do
  let target ← f.lookup p.lhs
  if p.isEpsilon then return f.set p.lhs (target.insert epsilon)
  else
    let t ← f.firstOf p.rhs
    return f.set p.lhs (target ∪ t)

/-- One pass over the productions; each of them sees what those before it have added. -/
def firstPass (g : Grammar) (f : Family) : Except Undeclared Family := g.productions.foldlM firstStep f

/-- Every pass but the last adds a terminal, or the empty word, to one of the sets. -/
def firstBound (g : Grammar) : Nat := (g.terminals.size + g.nonterminals.size + 1) * (g.terminals.size + 1) + 1

def first (g : Grammar) : Except Undeclared (Settled Family) := settle g.firstPass g.firstBound g.firstSeed

def firstEvent (passes : Nat) : Event :=
  ⟨.sets, .debug, "FIRST sets converged after " ++ toString passes ++ " pass(es)"⟩

end Grammar
end Lookahead
