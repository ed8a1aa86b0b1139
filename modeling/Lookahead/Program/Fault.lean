import Lookahead.Diagnostic
import Lookahead.Script.Symbol
import Lookahead.Tree.Basic

/-! What is wrong with a tree that is no program. -/
namespace Lookahead

open Script

inductive TreeFault where
  | notProgram (found : String)
  | malformed (symbol : String) (expected : List Symbol) (found : List String)
  | unexpectedShape (symbol : String) (found : List String)
  | tokenMissing (symbol : String)
  | noConversion (symbol : String)
  | tooDeep
deriving DecidableEq

namespace TreeFault

/-- The symbol that is to blame. -/
def symbol : TreeFault → String
  | notProgram found => found
  | malformed symbol _ _ => symbol
  | unexpectedShape symbol _ => symbol
  | tokenMissing symbol => symbol
  | noConversion symbol => symbol
  | tooDeep => Symbol.program.name

def shapeText (symbols : List String) : String :=
  if " ".intercalate symbols = "" then "ε" else " ".intercalate symbols

def message : TreeFault → String
  | notProgram found => "expected a Program root, found '" ++ found ++ "'"
  | malformed symbol expected found =>
    "malformed " ++ symbol ++ ": expected children (" ++ shapeText (expected.map Symbol.name) ++ "), found (" ++
      shapeText found ++ ")"
  | unexpectedShape symbol found => "unexpected shape for " ++ symbol ++ ": (" ++ shapeText found ++ ")"
  | tokenMissing symbol => "terminal '" ++ symbol ++ "' has no token"
  | noConversion symbol => "no AST conversion for parse-tree symbol '" ++ symbol ++ "'"
  | tooDeep => "expression nesting too deep to convert"

def report (message : String) : Diagnostic :=
  ⟨message, none, "error", "P100", "The parse tree does not match any production of the language grammar.", none,
    "Malformed parse tree"⟩

def diagnostic (f : TreeFault) : Diagnostic := report f.message

end TreeFault

/-- Why a tree was not converted; a number leaf may hold a lexeme that is no numeral. -/
inductive ConversionFailure where
  | fault (f : TreeFault)
  | unreadable (lexeme : String)
deriving DecidableEq

abbrev Conversion (α : Type) := Except ConversionFailure α

namespace Tree

def malformed (t : Tree) (expected : List Symbol) : ConversionFailure := .fault (.malformed t.symbol expected t.shape)

def unexpected (t : Tree) : ConversionFailure := .fault (.unexpectedShape t.symbol t.shape)

def hasShape (t : Tree) (symbols : List Symbol) : Bool := t.shape = symbols.map Symbol.name

/-- The children, if they have the given symbols. -/
def split? (t : Tree) (symbols : List Symbol) : Option (List Tree) :=
  if t.hasShape symbols then some t.children else none

def lexeme (t : Tree) : Conversion String :=
  match t.token with
  | some k => .ok k.lexeme
  | none => .error (.fault (.tokenMissing t.symbol))

end Tree
end Lookahead
