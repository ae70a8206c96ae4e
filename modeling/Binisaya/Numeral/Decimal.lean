/-!
# Decimal numbers and how they are written

A decimal is a natural number times a power of ten.  `Decimal.positional` writes it without an
exponent, `Decimal.general` with one where the number is very large or small.
-/

namespace Binisaya

/-- The number `digits * 10 ^ exponent`. -/
structure Decimal where
  digits : Nat
  exponent : Int
  deriving DecidableEq, Repr

/-- The decimal digits of a number. -/
def decimalDigits (n : Nat) : List Char := Nat.toDigits 10 n

/-- A run of zeros. -/
def zeros (n : Nat) : List Char := List.replicate n '0'

namespace Decimal

/-- Drops zeros from the end of the digits, at most as many as `rounds`. -/
def trimWith : Nat → Decimal → Decimal
  | 0, d => d
  | rounds + 1, d =>
    if d.digits ≠ 0 ∧ d.digits % 10 = 0 then trimWith rounds ⟨d.digits / 10, d.exponent + 1⟩ else d

/-- The same number with no zero at the end of its digits. -/
def trim (d : Decimal) : Decimal := trimWith d.digits d

/-- The exponent of the first digit. -/
def leading (d : Decimal) : Int := (decimalDigits d.digits).length - 1 + d.exponent

/-- A decimal without an exponent: the point stands where it belongs, among zeros if need be, and
is left out if no digit follows it. -/
def positional (d : Decimal) : List Char :=
  let ds := decimalDigits d.digits
  if 0 ≤ d.exponent then
    if d.digits = 0 then ds else ds ++ zeros d.exponent.toNat
  else
    let places := (-d.exponent).toNat
    if places < ds.length then ds.take (ds.length - places) ++ '.' :: ds.drop (ds.length - places)
    else '0' :: '.' :: zeros (places - ds.length) ++ ds

/-- An exponent with its sign and at least two digits. -/
def exponentText (e : Int) : List Char :=
  let ds := decimalDigits e.natAbs
  (if e < 0 then '-' else '+') :: (if ds.length < 2 then '0' :: ds else ds)

/-- A decimal with one digit in front of the point and an exponent. -/
def scientific (d : Decimal) : List Char :=
  match decimalDigits d.digits with
  | [] => []
  | first :: others =>
    first :: '.' :: (if others.isEmpty then ['0'] else others) ++ 'e' :: exponentText d.leading

/-- A decimal that always has a point.  Numbers below `10 ^ (-4)` and from `10 ^ 6` on have an
exponent. -/
def general (d : Decimal) : List Char :=
  if d.leading < -4 ∨ 6 ≤ d.leading then d.scientific
  else
    let text := d.positional
    if text.contains '.' then text else text ++ ['.', '0']

end Decimal

end Binisaya
