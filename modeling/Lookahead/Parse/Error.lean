import Lookahead.Diagnostic
import Lookahead.Token.Basic

/-! Syntax errors: why a parser stopped, and at which token. -/
namespace Lookahead

inductive SyntaxKind where
  | terminalMismatch
  | noProduction
  | trailingInput
  | unexpectedEof
deriving DecidableEq

namespace SyntaxKind

def all : List SyntaxKind := [terminalMismatch, noProduction, trailingInput, unexpectedEof]

def name : SyntaxKind → String
  | terminalMismatch => "TERMINAL_MISMATCH"
  | noProduction => "NO_PRODUCTION"
  | trailingInput => "TRAILING_INPUT"
  | unexpectedEof => "UNEXPECTED_EOF"

def code : SyntaxKind → String
  | terminalMismatch => "P001"
  | noProduction => "P002"
  | trailingInput => "P003"
  | unexpectedEof => "P004"

def title : SyntaxKind → String
  | terminalMismatch => "Expected terminal not found"
  | noProduction => "No production for nonterminal and lookahead"
  | trailingInput => "Unexpected trailing input"
  | unexpectedEof => "Unexpected end of input"

/-- The report of a syntax error of this kind; it points at the token, if there is one. -/
def report (k : SyntaxKind) (message : String) (token : Option Token) (help : Option String)
    (suggestions : Option (List String)) : Diagnostic :=
  ⟨message, token.map (·.location), "error", k.code, help, suggestions, k.title⟩

end SyntaxKind

inductive SyntaxFault where
  | terminalMismatch (expected found : String)
  | noProduction (nonterminal lookahead : String) (expected : List String)
  | trailingInput
  | unexpectedEof (expected : String)
deriving DecidableEq

namespace SyntaxFault

def kind : SyntaxFault → SyntaxKind
  | terminalMismatch _ _ => .terminalMismatch
  | noProduction _ _ _ => .noProduction
  | trailingInput => .trailingInput
  | unexpectedEof _ => .unexpectedEof

/-- A token in words, or its terminal where there is no token. -/
def describe (token : Option Token) (terminal : String) : String :=
  match token with
  | some t => if t.isEof then "end of input" else "'" ++ t.lexeme ++ "'"
  | none => terminal

def message (position : Int) (token : Option Token) : SyntaxFault → String
  | terminalMismatch expected found =>
    "Expected " ++ expected ++ ", found " ++ describe token found ++ " at position " ++ toString position
  | noProduction nonterminal lookahead _ =>
    "No production for (" ++ nonterminal ++ ", " ++ lookahead ++ ") at position " ++ toString position ++
      ": unexpected " ++ describe token lookahead
  | trailingInput => "Unexpected trailing input at position " ++ toString position
  | unexpectedEof expected =>
    "Unexpected end of input at position " ++ toString position ++ " while expecting " ++ expected

def help : SyntaxFault → Option String
  | terminalMismatch _ _ => none
  | noProduction nonterminal _ expected =>
    if expected.isEmpty then none
    else some (nonterminal ++ " can start with: " ++ ", ".intercalate expected)
  | trailingInput => none
  | unexpectedEof _ => some "Token sequences must be terminated by an EOF token."

/-- Marks that close something. -/
def closers : List String := [";", ")", "]", "\x7d"]

def suggestions : SyntaxFault → Option (List String)
  | terminalMismatch expected _ =>
    some (if closers.contains expected then ["Add a closing '" ++ expected ++ "'"] else [])
  | noProduction _ _ _ => none
  | trailingInput => some ["Remove the extra tokens or terminate the previous statement"]
  | unexpectedEof _ => none

end SyntaxFault

/-- `position` is the place of the offending token among the tokens. -/
structure ParseError where
  fault : SyntaxFault
  position : Int
  token : Option Token
deriving DecidableEq

def ParseError.diagnostic (e : ParseError) : Diagnostic :=
  e.fault.kind.report (e.fault.message e.position e.token) e.token e.fault.help e.fault.suggestions

end Lookahead
