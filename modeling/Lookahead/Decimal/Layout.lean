import Lookahead.Decimal.Shortest

/-! Number text: shortest digits, positional or with an exponent. A whole number keeps one zero after
its point, and an exponent always has a sign. -/
namespace Lookahead

/-- How a decimal is written out. -/
structure NumberLayout where
  /-- The exponents written positionally lie from `lowest` up to but not including `highest`. -/
  lowest : Int
  highest : Int
  /-- The exponent has at least so many digits. -/
  exponentWidth : Nat
  nan : String
  infinity : String

namespace NumberLayout

def zeros (n : Int) : List Char := List.replicate n.toNat '0'

def positional (digits : List Char) (exponent : Int) : List Char :=
  if exponent < 0 then '0' :: '.' :: zeros (-exponent - 1) ++ digits
  else
    let whole := exponent.toNat + 1
    let part := digits.drop whole
    digits.take whole ++ zeros (whole - digits.length) ++ '.' :: (if part.isEmpty then ['0'] else part)

def scientific (l : NumberLayout) (digits : List Char) (exponent : Int) : List Char :=
  let size := Nat.toDigits 10 exponent.natAbs
  let mantissa := match digits with
    | [] => []
    | [d] => [d]
    | d :: ds => d :: '.' :: ds
  mantissa ++ 'e' :: (if exponent < 0 then '-' else '+') :: zeros (l.exponentWidth - size.length) ++ size

def magnitude (l : NumberLayout) (mantissa : Nat) (exponent : Int) : List Char :=
  if mantissa = 0 then "0.0".toList
  else
    let d := Decimal.shortest mantissa exponent
    let digits := Nat.toDigits 10 d.digits
    if l.lowest ≤ d.exponent && d.exponent < l.highest then positional digits d.exponent
    else l.scientific digits d.exponent

def write (l : NumberLayout) (x : Binary64) : String :=
  match x.reading with
  | .nan => l.nan
  | .infinite negative => if negative then "-" ++ l.infinity else l.infinity
  | .finite negative mantissa exponent =>
    String.ofList ((if negative then ['-'] else []) ++ l.magnitude mantissa exponent)

end NumberLayout
end Lookahead
