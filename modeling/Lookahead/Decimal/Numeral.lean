import Lookahead.Decimal.Binary64
import Lookahead.Text.Class
import Lookahead.Text.Digit

/-! Reading a numeral: optional sign, decimal digits with an optional point, an optional exponent;
or one of the words for infinity and NaN. Blanks around it are dropped, single underscores may
separate digits, and a decimal digit of any script counts as its value. -/
namespace Lookahead
namespace Numeral

/-- A numeral in plain form: digits of all scripts become plain ones, outer blanks go. The four
information separators are blank elsewhere but do not count here. -/
def plainChar (c : Char) : Char :=
  match Text.decimalValue? c with
  | some d => Nat.digitChar d
  | none => if Text.isBlank c && 0x80 ≤ c.toNat then ' ' else c

def isPadding (c : Char) : Bool := c = ' ' || (0x09 ≤ c.toNat && c.toNat ≤ 0x0d)

def trim (cs : List Char) : List Char :=
  ((cs.dropWhile isPadding).reverse.dropWhile isPadding).reverse

def isPlainDigit (c : Char) : Bool := '0' ≤ c && c ≤ '9'

/-- Drops underscores that stand between two digits; any other underscore is refused. -/
def joinDigits (previous : Char) : List Char → Option (List Char)
  | [] => some []
  | c :: cs =>
    if c = '_' then
      match cs with
      | d :: _ => if isPlainDigit previous && isPlainDigit d then joinDigits c cs else none
      | [] => none
    else (joinDigits c cs).map (c :: ·)

/-! ## Value -/

def digitsValue (cs : List Char) : Nat :=
  cs.foldl (fun n c => n * 10 + (c.toNat - '0'.toNat)) 0

/-- The binary64 number nearest to `digits * 10 ^ exponent`. An exponent far outside the range of
binary64 decides the result by itself, so no large power is computed. -/
def scaled (negative : Bool) (digits : Nat) (exponent : Int) : Binary64 :=
  let size : Int := (Nat.toDigits 10 digits).length
  if digits = 0 then .zero negative
  else if 400 < size + exponent then .infinity negative
  else if size + exponent < -400 then .zero negative
  else .ofQuotient negative (digits * Nat.pow 10 exponent.toNat) (Nat.pow 10 (-exponent).toNat)

def splitSign : List Char → Bool × List Char
  | '-' :: cs => (true, cs)
  | '+' :: cs => (false, cs)
  | cs => (false, cs)

/-- The exponent part of a numeral, which must be all of `cs`. -/
def exponent? : List Char → Option Int
  | [] => some 0
  | e :: cs =>
    let (negative, digits) := splitSign cs
    if (e = 'e' || e = 'E') && !digits.isEmpty && digits.all isPlainDigit then
      some (if negative then -(digitsValue digits : Int) else digitsValue digits)
    else none

def unsigned? (negative : Bool) (cs : List Char) : Option Binary64 :=
  let word := cs.map Char.toLower
  if word = "inf".toList || word = "infinity".toList then some (.infinity negative)
  else if word = "nan".toList then some .nan
  else
    let (whole, rest) := cs.span isPlainDigit
    let (part, rest) := match rest with
      | '.' :: rest => rest.span isPlainDigit
      | _ => ([], rest)
    if whole.isEmpty && part.isEmpty then none
    else (exponent? rest).map fun e => scaled negative (digitsValue (whole ++ part)) (e - part.length)

/-- The number that a numeral stands for, or nothing if the text is no numeral. -/
def read? (s : String) : Option Binary64 := do
  let cs ← joinDigits ' ' (trim (s.toList.map plainChar))
  let (negative, cs) := splitSign cs
  unsigned? negative cs

end Numeral
end Lookahead
