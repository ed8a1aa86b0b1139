import Lookahead.Diagnostic
import Lookahead.Grammar.Defect
import Lookahead.Grammar.Follow

/-! Parse tables: for a nonterminal and a lookahead, the production to expand. A cell keeps the first
production assigned to it; every other one is recorded as a conflict. -/
namespace Lookahead

/-- Two productions for one cell. -/
structure Conflict where
  nonterminal : String
  terminal : String
  existing : Int
  candidate : Int
deriving DecidableEq

namespace Conflict

def cell (c : Conflict) : String × String := (c.nonterminal, c.terminal)

def text (c : Conflict) : String :=
  "table[" ++ c.nonterminal ++ ", " ++ c.terminal ++ "]: production " ++ toString c.existing ++
    " vs production " ++ toString c.candidate

def summary (c : Conflict) : String :=
  "[" ++ c.nonterminal ++ ", " ++ c.terminal ++ "] (productions " ++ toString c.existing ++ " and " ++
    toString c.candidate ++ ")"

def event (c : Conflict) : Event := ⟨.table, .warning, "Grammar is not LL(1): " ++ c.text⟩

def diagnostic (conflicts : List Conflict) : Diagnostic :=
  { message := "Grammar is not LL(1): " ++ toString conflicts.length ++ " conflict(s) at " ++
      ", ".intercalate (conflicts.map summary)
    location := none
    severity := "error"
    code := "G100"
    help := "Left-factor the productions so that their FIRST sets are disjoint."
    suggestions := conflicts.map text
    title := Issue.title? "G100" }

end Conflict

structure Table where
  grammar : Grammar
  cells : NameMap (NameMap Production)
  conflicts : List Conflict
deriving DecidableEq

namespace Table

/-! ## Queries -/

def row (t : Table) (nonterminal : String) : NameMap Production := (t.cells.get? nonterminal).getD ∅

def get? (t : Table) (nonterminal terminal : String) : Option Production := (t.row nonterminal).get? terminal

/-- The lookaheads that a nonterminal has a production for. -/
def expected (t : Table) (nonterminal : String) : List String := (t.row nonterminal).keys.toList

def items (t : Table) : List ((String × String) × Production) :=
  t.cells.entries.flatMap fun r => r.2.entries.map fun c => ((r.1, c.1), c.2)

def size (t : Table) : Nat := t.cells.entries.foldr (fun r n => r.2.size + n) 0

def isLL1 (t : Table) : Bool := t.conflicts.isEmpty

/-- The table itself if no cell got two productions, and all conflicts otherwise. -/
def requireLL1 (t : Table) : Except (List Conflict) Table :=
  if t.isLL1 then .ok t else .error t.conflicts

/-! ## Construction -/

def blank (g : Grammar) : Table := ⟨g, .ofKeys g.nonterminals fun _ => ∅, []⟩

def assign (p : Production) (t : Table) (terminal : String) : Table :=
  match t.get? p.lhs terminal with
  | none => { t with cells := t.cells.set p.lhs ((t.row p.lhs).set terminal p) }
  | some q =>
    if q.id = p.id then t
    else { t with conflicts := t.conflicts ++ [⟨p.lhs, terminal, q.id, p.id⟩] }

/-- The lookaheads of a production: what its right-hand side can start with, and what can follow its
left-hand side where the right-hand side can vanish. -/
def lookaheads (first follow : Family) (p : Production) : Except Undeclared (List String) := do
  let after ← follow.lookup p.lhs
  if p.isEpsilon then return after.toList
  else
    let front ← first.firstOf p.rhs
    return (front.erase epsilon).toList ++ if epsilon ∈ front then after.toList else []

def fill (first follow : Family) (t : Table) (p : Production) : Except Undeclared Table :=
  (lookaheads first follow p).map fun l => l.foldl (assign p) t

def build (g : Grammar) (first follow : Family) : Except Undeclared Table :=
  g.productions.foldlM (fill first follow) (blank g)

inductive BuildFailure where
  | undeclared (u : Undeclared)
  | conflicting (conflicts : List Conflict)
deriving DecidableEq

/-- The table, which a strict construction refuses with all its conflicts if it has any. -/
def construct (g : Grammar) (first follow : Family) (strict : Bool) : Except BuildFailure Table := do
  let t ← (build g first follow).mapError .undeclared
  if strict && !t.conflicts.isEmpty then throw (.conflicting t.conflicts)
  return t

/-! ## Text and events -/

def detail (t : Table) : String :=
  "ParseTable(cells=" ++ toString t.size ++ ", conflicts=" ++ toString t.conflicts.length ++ ")"

/-- The terminals that have a column: those of the grammar in order, and the end marker last unless it
is one of them. -/
def columns (g : Grammar) : List String :=
  let terminals := (g.terminals.erase epsilon).toList
  if endMarker ∈ terminals then terminals else terminals ++ [endMarker]

def gridRow (t : Table) (columns : List String) (nonterminal : String) : String :=
  nonterminal ++ "\t" ++ "\t".intercalate (columns.map fun c => ((t.get? nonterminal c).elim "-" fun p => toString p.id))

/-- The grid of production numbers, with tabs between the columns. -/
def grid (t : Table) : String :=
  let columns := columns t.grammar
  "\n".intercalate (("NT\\T\t" ++ "\t".intercalate columns) :: t.grammar.nonterminals.toList.map (t.gridRow columns))

def events (t : Table) : List Event :=
  t.conflicts.map Conflict.event ++
    [⟨.table, .debug, "built parse table with " ++ toString t.size ++ " cell(s) and " ++
      toString t.conflicts.length ++ " conflict(s)"⟩]

/-- The conflicts recorded before the first production that needs a set of an undeclared symbol. -/
def conflictsMet (first follow : Family) (t : Table) : List Production → List Conflict
  | [] => t.conflicts
  | p :: ps =>
    match fill first follow t p with
    | .ok u => u.conflictsMet first follow ps
    | .error _ => t.conflicts

/-- The events of a construction, which reports conflicts even if it fails later on. -/
def buildEvents (g : Grammar) (first follow : Family) : List Event :=
  match build g first follow with
  | .ok t => t.events
  | .error _ => ((blank g).conflictsMet first follow g.productions).map Conflict.event

end Table
end Lookahead
