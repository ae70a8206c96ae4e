/-!
# Binary floating point numbers

Numbers in the 64-bit binary interchange format: a sign, eleven bits of exponent and fifty-two bits
of fraction.  `Binary64.nearest` rounds a quotient of natural numbers to the nearest such number, a
tie to the even neighbour.  All arithmetic is exact.
-/

namespace Binisaya

/-- A number in the 64-bit format: its sign, and its other bits as one number.  Of two positive
numbers the larger has the larger magnitude. -/
structure Binary64 where
  negative : Bool
  magnitude : Nat
  deriving DecidableEq, Repr

/-- A quotient rounded to the nearest natural number, a tie to the even neighbour. -/
def roundHalfEven (n d : Nat) : Nat :=
  let q := n / d
  let r := n % d
  if 2 * r < d then q
  else if d < 2 * r then q + 1
  else if q % 2 = 0 then q
  else q + 1

/-- The exponent of the largest power of two that is not above `n / d`. -/
def floorLog2 (n d : Nat) : Int :=
  let e : Int := (n.log2 : Int) - (d.log2 : Int)
  if 0 ≤ e then if d * Nat.pow 2 e.toNat ≤ n then e else e - 1
  else if d ≤ n * Nat.pow 2 (-e).toNat then e
  else e - 1

namespace Binary64

/-- The magnitude of the infinities.  Every larger magnitude is that of something which is no
number. -/
def infinityMagnitude : Nat := 2047 * Nat.pow 2 52

/-- The infinity of the given sign. -/
def infinity (negative : Bool) : Binary64 := ⟨negative, infinityMagnitude⟩

/-- The value that is no number. -/
def nan : Binary64 := ⟨false, infinityMagnitude + Nat.pow 2 51⟩

/-- Whether a value is no number. -/
def isNaN (x : Binary64) : Bool := infinityMagnitude < x.magnitude

/-- Whether a value is an infinity. -/
def isInfinite (x : Binary64) : Bool := x.magnitude = infinityMagnitude

/-- All bits as one number. -/
def bits (x : Binary64) : Nat := (if x.negative then Nat.pow 2 63 else 0) + x.magnitude

/-- The exponent bits. -/
def exponentField (x : Binary64) : Nat := x.magnitude / Nat.pow 2 52

/-- The significand `m` of a finite number with absolute value `m * 2 ^ q`. -/
def significand (x : Binary64) : Nat :=
  if x.exponentField = 0 then x.magnitude else Nat.pow 2 52 + x.magnitude % Nat.pow 2 52

/-- The exponent `q` of a finite number with absolute value `m * 2 ^ q`. -/
def exponent (x : Binary64) : Int :=
  if x.exponentField = 0 then -1074 else (x.exponentField : Int) - 1075

/-- The magnitude of the number nearest to `n / d`, as if there were no largest exponent.  The
significand has fifty-three bits, fewer only where the exponent would be below the least. -/
def nearest (n d : Nat) : Nat :=
  if n = 0 then 0
  else
    let q := max (floorLog2 n d - 52) (-1074)
    let m :=
      if 0 ≤ q then roundHalfEven n (d * Nat.pow 2 q.toNat)
      else roundHalfEven (n * Nat.pow 2 (-q).toNat) d
    (q + 1074).toNat * Nat.pow 2 52 + m

/-- The number nearest to `± n * base ^ e`, or nothing if that is too large.  Numbers far outside
the range of the format are not computed: `n` has `width` digits in this base. -/
def ofScaled? (negative : Bool) (base n : Nat) (e : Int) (width : Nat) : Option Binary64 :=
  let top : Int := width + e
  if n = 0 then some ⟨negative, 0⟩
  else if 2000 < top then none
  else if top < -2000 then some ⟨negative, 0⟩
  else
    let magnitude :=
      if 0 ≤ e then nearest (n * Nat.pow base e.toNat) 1 else nearest n (Nat.pow base (-e).toNat)
    if magnitude < infinityMagnitude then some ⟨negative, magnitude⟩ else none

end Binary64

end Binisaya
