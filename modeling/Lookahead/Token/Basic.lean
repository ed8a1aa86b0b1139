import Lookahead.Decimal.Layout
import Lookahead.Location
import Lookahead.Token.Kind

/-! Tokens: a piece of source text with its kind, its value if it has one, and its place. -/
namespace Lookahead

inductive Value where
  | number (x : Binary64)
  | text (s : String)
deriving DecidableEq

namespace Value

/-- Positional from a ten-thousandth up to sixteen digits, and a sign on every exponent. -/
def numberLayout : NumberLayout := ⟨-4, 16, 2, "nan", "inf"⟩

def detail : Value → String
  | number x => numberLayout.write x
  | text s => Text.quoted s

end Value

structure Token where
  kind : Kind
  lexeme : String
  value : Option Value
  location : Location
deriving DecidableEq

namespace Token

def isOperator (t : Token) : Bool := t.kind = .operator

def isEof (t : Token) : Bool := t.kind = .eof

/-- The kind and the lexeme, and the value where it says more than the lexeme. -/
def text (t : Token) : String :=
  match t.value with
  | some v =>
    if v = .text t.lexeme then t.kind.name ++ "(" ++ Text.quoted t.lexeme ++ ")"
    else t.kind.name ++ "(" ++ Text.quoted t.lexeme ++ " -> " ++ v.detail ++ ")"
  | none => t.kind.name ++ "(" ++ Text.quoted t.lexeme ++ ")"

/-- All fields, for inspection. -/
def detail (t : Token) : String :=
  "Token(" ++ t.kind.name ++ ", " ++ Text.quoted t.lexeme ++ ", " ++ (t.value.elim "None" Value.detail) ++ ", " ++
    t.location.detail ++ ")"

end Token
end Lookahead
