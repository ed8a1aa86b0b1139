import Lookahead.Decimal.Numeral
import Lookahead.Scan.Error
import Lookahead.Text.Class
import Lookahead.Text.Numeric
import Lookahead.Token.Basic

/-! What a text starts with: layout, which is blanks and comments from two slashes to the end of the line, and the
next lexeme after it. -/
namespace Lookahead

/-! ## Layout -/

/-- The layout at the start of a text, which is read outside or inside a comment. -/
def layoutFrom : Bool → List Char → List Char
  | _, [] => []
  | true, c :: cs => c :: layoutFrom (c != '\n') cs
  | false, c :: cs =>
    if Text.isBlank c then c :: layoutFrom false cs
    else if c = '/' && cs.head? = some '/' then c :: layoutFrom true cs
    else []

def layout (cs : List Char) : List Char := layoutFrom false cs

/-! ## Lexemes -/

def isWordStart (c : Char) : Bool := Text.isLetter c || c = '_'

def isWordPart (c : Char) : Bool := Text.isAlphanumeric c || c = '_'

/-- What a text starts with, and the characters taken from it. A fault takes none if no token can
start with the character. -/
inductive Lexeme where
  | token (kind : Kind) (text : List Char) (value : Option Value)
  | fault (fault : ScanFault) (text : List Char)
  /-- A numeral that has no value, because it is written with digits that have none. -/
  | unreadable (text : List Char)

namespace Lexeme

def text : Lexeme → List Char
  | token _ text _ => text
  | fault _ text => text
  | unreadable text => text

/-! ## Numbers -/

def numeral (text : List Char) : Lexeme :=
  match Numeral.read? (String.ofList text) with
  | some x => .token .number text (some (.number x))
  | none => .unreadable text

/-- A point belongs to a number only if a digit follows it. -/
def fraction : List Char → List Char
  | '.' :: d :: cs => if Text.isDigit d then '.' :: d :: cs.takeWhile Text.isDigit else []
  | _ => []

def number (cs : List Char) : Lexeme :=
  let whole := cs.takeWhile Text.isDigit
  let rest := cs.dropWhile Text.isDigit
  let digits := whole ++ fraction rest
  match rest.drop (fraction rest).length with
  | [] => numeral digits
  | c :: rest =>
    if isWordStart c then
      let text := digits ++ (c :: rest).takeWhile isWordPart
      .fault (.badNumber (String.ofList text) "Identifiers cannot start with a digit") text
    else numeral digits

/-! ## Words and strings -/

def word (c : Char) (cs : List Char) : Lexeme :=
  let text := c :: cs.takeWhile isWordPart
  let lexeme := String.ofList text
  match keywords.lookup lexeme with
  | some kind => .token kind text none
  | none => .token .identifier text (some (.text lexeme))

/-- A string ends at the next quote of the kind that opened it; nothing is escaped. -/
def string (quote : Char) (cs : List Char) : Lexeme :=
  let body := cs.takeWhile (· ≠ quote)
  match cs.dropWhile (· ≠ quote) with
  | [] => .fault (.openString (String.singleton quote)) (quote :: body)
  | _ :: _ => .token .string (quote :: body ++ [quote]) (some (.text (String.ofList body)))

/-! ## Marks -/

def isOperator (cs : List Char) : Bool := operators.contains (String.ofList cs)

/-- An operator of two characters goes before one of one character. -/
def mark (c : Char) (cs : List Char) : Lexeme :=
  let pair := c :: cs.take 1
  if isOperator pair then .token .operator pair none
  else if isOperator [c] then .token .operator [c] none
  else
    match punctuation.lookup (String.singleton c) with
    | some kind => .token kind [c] none
    | none => .fault (.badCharacter (String.singleton c)) []

end Lexeme

/-- The lexeme at the start of `c :: cs`. -/
def lexeme (c : Char) (cs : List Char) : Lexeme :=
  if Text.isDigit c then .number (c :: cs)
  else if isWordStart c then .word c cs
  else if c = '"' ∨ c = '\'' then .string c cs
  else .mark c cs

end Lookahead
