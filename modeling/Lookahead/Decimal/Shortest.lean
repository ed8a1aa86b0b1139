import Lookahead.Decimal.Binary64

/-! Shortest decimals: the fewest digits that read back as the same binary64 number, and of those
the nearest to it, the even one of two. -/
namespace Lookahead

/-- `digits`, of which there are `count`, with the point after the first digit, times
`10 ^ exponent`. -/
structure Decimal where
  digits : Nat
  count : Nat
  exponent : Int

namespace Decimal

/-- A positive number `mid / den` with the ends of the interval of reals that round to it. -/
structure Interval where
  low : Nat
  mid : Nat
  high : Nat
  den : Nat
  closed : Bool

/-- Halfway to both neighbours; below a power of two the neighbour is half as far. -/
def interval (mantissa : Nat) (exponent : Int) : Interval :=
  let unit := Nat.pow 2 exponent.toNat
  let below := if mantissa = Binary64.exponentStep && -1074 < exponent then 1 else 2
  ⟨(4 * mantissa - below) * unit, 4 * mantissa * unit, (4 * mantissa + 2) * unit,
    4 * Nat.pow 2 (-exponent).toNat, mantissa % 2 = 0⟩

/-- Whether `n * 10 ^ place` lies in the interval. -/
def Interval.holds (i : Interval) (place : Int) (n : Nat) : Bool :=
  let x := n * Nat.pow 10 place.toNat * i.den
  let up := Nat.pow 10 (-place).toNat
  if i.closed then i.low * up ≤ x && x ≤ i.high * up else i.low * up < x && x < i.high * up

/-- Twice the distance of `n * 10 ^ place` from the middle, on a scale that depends on `place`. -/
def Interval.distance (i : Interval) (place : Int) (n : Nat) : Nat :=
  let x := n * Nat.pow 10 place.toNat * i.den
  let m := i.mid * Nat.pow 10 (-place).toNat
  (x - m) + (m - x)

/-- The exponent of the leading decimal digit of the middle. -/
def Interval.leading (i : Interval) : Int :=
  if i.den ≤ i.mid then ((Nat.toDigits 10 (i.mid / i.den)).length : Int) - 1
  else
    match (List.range 400).find? fun t => i.den ≤ i.mid * Nat.pow 10 t with
    | some t => -(t : Int)
    | none => 0

/-- The nearest point of the interval on the grid with the given last place, if there is one. Of two
that are equally near it is the even one. -/
def Interval.nearest? (i : Interval) (place : Int) : Option Nat :=
  let n := i.mid * Nat.pow 10 (-place).toNat / (i.den * Nat.pow 10 place.toNat)
  match i.holds place n, i.holds place (n + 1) with
  | true, true =>
    let below := i.distance place n
    let above := i.distance place (n + 1)
    some (if below < above ∨ below = above ∧ n % 2 = 0 then n else n + 1)
  | true, false => some n
  | false, true => some (n + 1)
  | false, false => none

/-- The same number without zeros at the end of its digits. -/
def ofGrid (n : Nat) (place : Int) : Nat → Decimal
  | 0 => ⟨n, (Nat.toDigits 10 n).length, place + (Nat.toDigits 10 n).length - 1⟩
  | fuel + 1 =>
    if n % 10 = 0 && n ≠ 0 then ofGrid (n / 10) (place + 1) fuel
    else ⟨n, (Nat.toDigits 10 n).length, place + (Nat.toDigits 10 n).length - 1⟩

/-- Seventeen digits always suffice. -/
def shortest (mantissa : Nat) (exponent : Int) : Decimal :=
  let i := interval mantissa exponent
  let found := (List.range 17).findSome? fun (k : Nat) =>
    let place := i.leading - k
    (i.nearest? place).map fun n => ofGrid n place 20
  found.getD ⟨0, 1, 0⟩

end Decimal
end Lookahead
