/-! Binary64 numbers as their interchange bits, and rounding of an exact quotient to the nearest
of them. -/
namespace Lookahead

/-- A binary64 number; one pattern of bits stands for every NaN. -/
structure Binary64 where
  bits : Nat
deriving DecidableEq, Repr

namespace Binary64

def infinityBits : Nat := 0x7ff0000000000000

def signBit : Nat := 0x8000000000000000

/-- One step of the exponent field, which lies above the 52 bits of the fraction. -/
def exponentStep : Nat := 0x10000000000000

def nan : Binary64 := ⟨0x7ff8000000000000⟩

def withSign (negative : Bool) (magnitude : Nat) : Binary64 :=
  ⟨if negative then signBit + magnitude else magnitude⟩

def infinity (negative : Bool) : Binary64 := withSign negative infinityBits

def zero (negative : Bool) : Binary64 := withSign negative 0

/-- What the bits stand for; `finite` is `mantissa * 2 ^ exponent`. -/
inductive Reading where
  | nan
  | infinite (negative : Bool)
  | finite (negative : Bool) (mantissa : Nat) (exponent : Int)

def reading (x : Binary64) : Reading :=
  let negative := decide (signBit ≤ x.bits)
  let magnitude := x.bits % signBit
  let field : Nat := magnitude / exponentStep
  let fraction := magnitude % exponentStep
  if magnitude = infinityBits then .infinite negative
  else if infinityBits < magnitude then .nan
  else if field = 0 then .finite negative fraction (-1074)
  else .finite negative (exponentStep + fraction) (field - 1075)

/-! ## Rounding -/

/-- The nearest integer to `num / den`; a tie goes to the even neighbour. -/
def roundDiv (num den : Nat) : Nat :=
  let q := num / den
  let r := num % den
  if 2 * r < den then q
  else if den < 2 * r then q + 1
  else q + q % 2

/-- The exponent of the largest power of two that is at most `num / den`. -/
def floorLog2 (num den : Nat) : Int :=
  let e : Int := (num.log2 : Int) - den.log2
  if den * Nat.pow 2 e.toNat ≤ num * Nat.pow 2 (-e).toNat then e else e - 1

/-- The binary64 number nearest to `num / den`. With the exponent of the last place fixed, the bits
are that exponent's offset plus the rounded mantissa: a carry out of the mantissa steps into the
exponent field, and past the largest finite number lies infinity. -/
def ofQuotient (negative : Bool) (num den : Nat) : Binary64 :=
  if num = 0 then zero negative
  else
    let place := max (floorLog2 num den - 52) (-1074)
    let mantissa := roundDiv (num * Nat.pow 2 (-place).toNat) (den * Nat.pow 2 place.toNat)
    withSign negative (min infinityBits ((place + 1074).toNat * exponentStep + mantissa))

/-! ## Hexadecimal form -/

def hexValue? (c : Char) : Option Nat :=
  if '0' ≤ c && c ≤ '9' then some (c.toNat - '0'.toNat)
  else if 'a' ≤ c && c ≤ 'f' then some (c.toNat - 'a'.toNat + 10)
  else none

/-- Sixteen hexadecimal digits, or the word for NaN. -/
def ofHex? (s : String) : Option Binary64 :=
  if s = "nan" then some nan
  else if s.length = 16 then
    (s.toList.foldlM (fun n c => (hexValue? c).map (n * 16 + ·)) 0).map fun n =>
      if infinityBits < n % signBit then nan else ⟨n⟩
  else none

end Binary64
end Lookahead
