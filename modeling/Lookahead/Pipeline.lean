import Lookahead.Parse.Build
import Lookahead.Program.OfTree
import Lookahead.Program.Children
import Lookahead.Scan.Basic
import Lookahead.Script.Rules

/-! From source text to program. -/
namespace Lookahead

inductive Failure where
  | scan (f : ScanFailure)
  | analysis (f : AnalysisFailure)
  | conflicts (l : List Conflict)
  | parse (f : ParseFailure)
  | conversion (f : ConversionFailure)

/-- The program that the tokens stand for. -/
def Parser.parse (P : Parser) (tokens : List Token) : Except Failure Program := do
  let tree ← (P.parseTree tokens).mapError .parse
  (Program.ofTree tree).mapError .conversion

/-- What a parse reports: the run if it accepts, and the conversion if it succeeds. -/
def Parser.parseEvents (P : Parser) (tokens : List Token) : List Event :=
  (P.run tokens).events ++
    match P.parse tokens with
    | .ok p => [p.event]
    | .error _ => []

/-! ## The script language -/

namespace Script

/-- The table of the script language. -/
def table : Except Failure Table := do
  let a ← analysis.mapError .analysis
  a.table.requireLL1.mapError .conflicts

def parser : Except Failure Parser := table.map fun t => ⟨t, terminalOf, defaultOperator⟩

end Script

def parseSource (file source : String) : Except Failure Program := do
  let tokens ← (tokenize file source).mapError .scan
  let P ← Script.parser
  P.parse tokens

/-! ## A second parser to fall back on -/

/-- Either the parse succeeded or failed beyond repair, or a syntax error sent the tokens elsewhere. -/
inductive Resort (α : Type) where
  | direct (r : Except Failure Program)
  | resorted (e : ParseError) (r : α)

/-- Only a syntax error makes the tokens go to the other parser. -/
def Parser.parseWithFallback {α : Type} (P : Parser) (fallback : List Token → α) (tokens : List Token) : Resort α :=
  match P.parse tokens with
  | .error (.parse (.syntaxError e)) => .resorted e (fallback tokens)
  | r => .direct r

def ParseError.fallbackEvent (e : ParseError) : Event :=
  ⟨.entry, .info, "Predictive parse failed at token " ++ toString e.position ++ " (" ++ e.fault.kind.name ++
    "); using fallback parser"⟩

end Lookahead
