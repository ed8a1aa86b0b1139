import Lookahead.Grammar.Table

/-! Analysis of a grammar: its defects or, if it has none, its FIRST and FOLLOW sets and its table. -/
namespace Lookahead

structure Analysis where
  grammar : Grammar
  first : Settled Family
  follow : Settled Family
  table : Table

inductive AnalysisFailure where
  | defective (defects : List Defect)
  | undeclared (u : Undeclared)
deriving DecidableEq

/-- The sets and the table of a grammar that may have defects. -/
def Grammar.analysis (g : Grammar) : Except Undeclared Analysis := do
  let first ← g.first
  let follow ← g.follow first.value
  let table ← Table.build g first.value follow.value
  return ⟨g, first, follow, table⟩

def Grammar.analyze (g : Grammar) : Except AnalysisFailure Analysis :=
  if g.defects.isEmpty then g.analysis.mapError .undeclared else .error (.defective g.defects)

namespace Analysis

def isLL1 (a : Analysis) : Bool := a.table.isLL1

/-! ## Report -/

/-- A set in braces, the empty word last. -/
def braces (s : NameSet) : String :=
  let names := (s.erase epsilon).toList ++ if epsilon ∈ s then [epsilon] else []
  "\x7b" ++ ", ".intercalate names ++ "\x7d"

def setLines (label : String) (f : Family) (nonterminals : List String) : List String :=
  nonterminals.map fun n => label ++ "(" ++ n ++ ") = " ++ braces ((f.get? n).getD ∅)

def report (a : Analysis) : String :=
  let nonterminals := a.grammar.nonterminals.toList
  "\n".intercalate
    ("FIRST sets:" :: setLines "FIRST" a.first.value nonterminals ++
      "" :: "FOLLOW sets:" :: setLines "FOLLOW" a.follow.value nonterminals ++
      ["", "Parse table:", a.table.grid, "", "Is the grammar LL(1)? " ++ if a.isLL1 then "Yes" else "No"] ++
      a.table.conflicts.map fun c => "  conflict: " ++ c.text)

/-! ## Events -/

def truth (b : Bool) : String := if b then "True" else "False"

/-- The events of the sets and the table. -/
def stageEvents (a : Analysis) : List Event :=
  [Grammar.firstEvent a.first.passes, Grammar.followEvent a.follow.passes] ++ a.table.events

def events (a : Analysis) : List Event :=
  a.stageEvents ++
    [⟨.analysis, .debug, "analysed grammar: " ++ toString a.grammar.terminals.size ++ " terminal(s), " ++
      toString a.grammar.nonterminals.size ++ " nonterminal(s), " ++ toString a.grammar.productions.length ++
      " production(s), LL(1)=" ++ truth a.isLL1⟩]

end Analysis
end Lookahead
