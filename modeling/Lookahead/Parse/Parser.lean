import Lookahead.Grammar.Table
import Lookahead.Parse.Error
import Lookahead.Parse.Step

/-! Predictive parsers. A parser keeps a stack of symbols it still expects; it expands a nonterminal on
top by the production that the table has for the lookahead, matches a terminal on top against the
lookahead, and accepts where the end marker meets the end of the tokens. -/
namespace Lookahead

/-- `operator` is a symbol that stands for all operators of the grammar at once. -/
structure Parser where
  table : Table
  terminalOf : Token → String
  operator : String

/-- The generic operator, unless another name is chosen. -/
def defaultOperator : String := "op"

/-- What is still expected, top first, and the tokens still to come, the first of which is at
`position`. -/
structure Config where
  index : Nat
  position : Nat
  stack : List String
  rest : List Token

inductive Outcome where
  | accepted
  | rejected (e : ParseError)
  /-- The bound on the steps was reached. -/
  | unfinished
deriving DecidableEq

/-- The steps taken, and how they ended. -/
structure Run where
  steps : List Step
  outcome : Outcome

namespace Parser

def grammar (P : Parser) : Grammar := P.table.grammar

/-- The production for a nonterminal: by the lookahead itself, else by the generic operator if the
lookahead is an operator. -/
def predict (P : Parser) (nonterminal lookahead : String) : Option Production :=
  match P.table.get? nonterminal lookahead with
  | some p => some p
  | none => if lookahead ∈ P.grammar.operators then P.table.get? nonterminal P.operator else none

def admits (P : Parser) (expected lookahead : String) : Bool :=
  expected = lookahead || (expected = P.operator && lookahead ∈ P.grammar.operators)

inductive Move where
  | proceed (s : Step) (next : Config)
  | halt (s : Option Step) (outcome : Outcome)

/-- What follows from a configuration. A token list that ends too early is refused without a step, and
so are tokens after the end of the input. -/
def move (P : Parser) (c : Config) : Move :=
  match c.stack, c.rest with
  | [], _ => .halt none (.rejected ⟨.unexpectedEof endMarker, c.position, none⟩)
  | top :: _, [] => .halt none (.rejected ⟨.unexpectedEof top, c.position, none⟩)
  | top :: below, token :: rest =>
    let lookahead := P.terminalOf token
    let step (a : Action) : Step := ⟨c.index, a, c.stack, lookahead, c.position, token⟩
    if top = endMarker then
      if lookahead ≠ endMarker then .halt (step .reject) (.rejected ⟨.trailingInput, c.position, token⟩)
      else
        match rest with
        | extra :: _ => .halt none (.rejected ⟨.trailingInput, c.position + 1, extra⟩)
        | [] => .halt (step .accept) .accepted
    else if top ∈ P.grammar.nonterminals then
      match P.predict top lookahead with
      | none =>
        .halt (step .reject)
          (.rejected ⟨.noProduction top lookahead (P.table.expected top), c.position, token⟩)
      | some p => .proceed (step (.expand p)) ⟨c.index + 1, c.position, p.body ++ below, c.rest⟩
    else if P.admits top lookahead then
      .proceed (step .matched) ⟨c.index + 1, c.position + 1, below, rest⟩
    else
      .halt (step .reject) (.rejected ⟨.terminalMismatch top lookahead, c.position, token⟩)

/-! ## Runs -/

/-- Moves on, with the steps already taken latest first. -/
def runFrom (P : Parser) : Nat → List Step → Config → Run
  | 0, taken, _ => ⟨taken.reverse, .unfinished⟩
  | n + 1, taken, c =>
    match P.move c with
    | .proceed s next => P.runFrom n (s :: taken) next
    | .halt (some s) outcome => ⟨(s :: taken).reverse, outcome⟩
    | .halt none outcome => ⟨taken.reverse, outcome⟩

def initial (P : Parser) (tokens : List Token) : Config := ⟨0, 0, [P.grammar.start, endMarker], tokens⟩

/-- The length of the longest right-hand side. -/
def widest (P : Parser) : Nat := (P.grammar.productions.map fun p => p.rhs.length).foldl max 0

/-- The number of nodes that one symbol can give rise to before the next token is matched: on a path
from the symbol down no nonterminal comes up more than three times, once for what it can start with
under the generic operator and once for vanishing under each of the two lookaheads. -/
def spread (P : Parser) : Nat := Nat.pow (P.widest + 1) (3 * P.grammar.nonterminals.size + 2)

/-- A bound on the steps of a run: before each token, no symbol on the stack spreads further, and the
stack grows by no more. -/
def stepBound (P : Parser) (count : Nat) : Nat :=
  (count + 1) * ((2 + count * P.spread) * P.spread + 1) + 1

def run (P : Parser) (tokens : List Token) : Run := P.runFrom (P.stepBound tokens.length) [] (P.initial tokens)

end Parser

/-- A parser needs a table without conflicts. -/
def Table.parser (t : Table) (terminalOf : Token → String) (operator : String) : Except (List Conflict) Parser :=
  t.requireLL1.map fun t => ⟨t, terminalOf, operator⟩

/-- The event of a run that accepts. -/
def Run.events (r : Run) : List Event :=
  match r.outcome, r.steps.getLast? with
  | .accepted, some s =>
    [⟨.parser, .debug, "accepted " ++ toString (s.position + 1) ++ " token(s) in " ++ toString (s.index + 1) ++
      " step(s)"⟩]
  | _, _ => []

end Lookahead
