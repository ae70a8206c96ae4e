import Binisaya.Numeral.Binary64
import Binisaya.Numeral.Decimal

/-!
# The shortest decimal

Every finite number has decimals that read back as it, namely those in the interval of numbers that
round to it.  `Binary64.shortest` takes one with the fewest digits, of those the nearest to the
number, and of two equally near the one with an even last digit.
-/

namespace Binisaya

/-- A positive number as the quotient `value / unit`, and on the same scale the ends of the interval
of numbers that round to it. -/
structure RoundingInterval where
  low : Nat
  value : Nat
  high : Nat
  unit : Nat
  /-- Whether the ends round to the number as well. -/
  closed : Bool
  deriving DecidableEq, Repr

namespace Binary64

/-- The interval of numbers that round to a finite number.  Below a power of two the next number is
only half as far away as above it. -/
def interval (x : Binary64) : RoundingInterval :=
  let m := x.significand
  let below := if m = Nat.pow 2 52 ∧ 1 < x.exponentField then 1 else 2
  let e := x.exponent - 2
  let scale := if 0 ≤ e then Nat.pow 2 e.toNat else 1
  { low := (4 * m - below) * scale
    value := 4 * m * scale
    high := (4 * m + 2) * scale
    unit := if 0 ≤ e then 1 else Nat.pow 2 (-e).toNat
    closed := m % 2 = 0 }

end Binary64

namespace RoundingInterval

/-- The exponent of the first decimal digit of the number, plus one. -/
def decimalPoint (i : RoundingInterval) : Int :=
  ((decimalDigits (i.value * Nat.pow 10 400 / i.unit)).length : Int) - 400

/-- Whether `c / unit` lies in the interval. -/
def contains (i : RoundingInterval) (c : Nat) : Bool :=
  if i.closed then i.low ≤ c && c ≤ i.high else i.low < c && c < i.high

/-- The interval measured in units of `10 ^ e`. -/
def inUnitsOf (i : RoundingInterval) (e : Int) : RoundingInterval :=
  if 0 ≤ e then { i with unit := i.unit * Nat.pow 10 e.toNat }
  else
    let k := Nat.pow 10 (-e).toNat
    { i with low := i.low * k, value := i.value * k, high := i.high * k }

/-- Of the two natural numbers around the value those that lie in the interval, the better one. -/
def natural? (i : RoundingInterval) : Option Nat :=
  let c := i.value / i.unit
  let nearest := roundHalfEven i.value i.unit
  match i.contains (c * i.unit), i.contains ((c + 1) * i.unit) with
  | true, true => some nearest
  | true, false => some c
  | false, true => some (c + 1)
  | false, false => none

/-- A decimal in the interval with the given number of digits. -/
def decimal? (i : RoundingInterval) (count : Nat) : Option Decimal :=
  let e := i.decimalPoint - count
  ((i.inUnitsOf e).natural?).map fun c => ⟨c, e⟩

/-- A decimal in the interval with the fewest digits.  Seventeen are always enough. -/
def shortest (i : RoundingInterval) : Decimal :=
  (((List.range 17).findSome? fun n => i.decimal? (n + 1)).getD ⟨0, 0⟩).trim

end RoundingInterval

namespace Binary64

/-- The shortest decimal that reads back as the absolute value of a finite number. -/
def shortest (x : Binary64) : Decimal :=
  if x.magnitude = 0 then ⟨0, 0⟩ else x.interval.shortest

/-- Whether a decimal is exactly the absolute value of a finite number. -/
def isExactly (x : Binary64) (d : Decimal) : Bool :=
  let twos := Nat.pow 2 (max x.exponent 0).toNat
  let halves := Nat.pow 2 (max (-x.exponent) 0).toNat
  let tens := Nat.pow 10 (max d.exponent 0).toNat
  let tenths := Nat.pow 10 (max (-d.exponent) 0).toNat
  x.significand * twos * tenths == d.digits * tens * halves

end Binary64

end Binisaya
