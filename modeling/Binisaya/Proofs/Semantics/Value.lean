import Binisaya.Llvm.Basic
import Binisaya.Typing.Ty

/-!
# Values

What programs compute with, and the arithmetic on it: integers wrap around in their width, and
floating point numbers are rounded to the nearest one, a tie to the even neighbour.
-/

namespace Binisaya

namespace Binary64

/-! ### Floating point arithmetic -/

/-- The number nearest to `± n / d * 2 ^ e`; an infinity if that is too large. -/
def rounded (negative : Bool) (n d : Nat) (e : Int) : Binary64 :=
  let magnitude :=
    if 0 ≤ e then nearest (n * Nat.pow 2 e.toNat) d else nearest n (d * Nat.pow 2 (-e).toNat)
  ⟨negative, min magnitude infinityMagnitude⟩

/-- The number nearest to an integer. -/
def ofInt (n : Int) : Binary64 := rounded (n < 0) n.natAbs 1 0

/-- A finite number as a multiple of `2 ^ q`, where `q` is at most its exponent. -/
def multiple (x : Binary64) (q : Int) : Int :=
  (if x.negative then -1 else 1) * (x.significand * Nat.pow 2 (x.exponent - q).toNat : Nat)

/-- The same magnitude with the other sign. -/
def opposite (x : Binary64) : Binary64 := ⟨!x.negative, x.magnitude⟩

/-- A sum.  The sum of opposite numbers is the positive zero, that of opposite infinities is no
number. -/
def add (x y : Binary64) : Binary64 :=
  if x.isNaN || y.isNaN then nan
  else if x.isInfinite then
    if y.isInfinite && x.negative != y.negative then nan else x
  else if y.isInfinite then y
  else
    let q := min x.exponent y.exponent
    let sum := x.multiple q + y.multiple q
    if sum = 0 then ⟨x.negative && y.negative, 0⟩ else rounded (sum < 0) sum.natAbs 1 q

/-- A difference. -/
def sub (x y : Binary64) : Binary64 := x.add y.opposite

/-- A product.  An infinity times zero is no number. -/
def mul (x y : Binary64) : Binary64 :=
  let negative := x.negative != y.negative
  if x.isNaN || y.isNaN then nan
  else if x.isInfinite || y.isInfinite then
    if x.magnitude = 0 ∨ y.magnitude = 0 then nan else infinity negative
  else rounded negative (x.significand * y.significand) 1 (x.exponent + y.exponent)

/-- A quotient.  The quotients of two infinities and of two zeros are no numbers. -/
def div (x y : Binary64) : Binary64 :=
  let negative := x.negative != y.negative
  if x.isNaN || y.isNaN then nan
  else if x.isInfinite then if y.isInfinite then nan else infinity negative
  else if y.isInfinite then ⟨negative, 0⟩
  else if y.magnitude = 0 then if x.magnitude = 0 then nan else infinity negative
  else rounded negative x.significand y.significand (x.exponent - y.exponent)

/-- Where a number stands among the others; both zeros stand in the same place. -/
def rank (x : Binary64) : Int := if x.negative then -x.magnitude else x.magnitude

/-- How two numbers compare, which nothing does with what is no number. -/
def order (x y : Binary64) : Option Ordering :=
  if x.isNaN || y.isNaN then none else some (compare x.rank y.rank)

example : add (ofInt 3) (rounded true 1 2 0) = rounded false 5 2 0 := by decide
example : div (ofInt 1) (ofInt 3) = ⟨false, 0x3FD5555555555555⟩ := by decide
example : sub (ofInt 0) (ofInt 0) = ⟨false, 0⟩ := by decide

end Binary64

/-! ### Integers in words -/

/-- A quotient of signed words, rounded toward zero.  There is none for a divisor zero, nor for the
least number and minus one, where the quotient does not fit. -/
def signedQuotient? {w : Nat} (a b : BitVec w) : Option (BitVec w) :=
  if b = 0 ∨ a = BitVec.intMin w ∧ b = -1 then none else some (a.sdiv b)

/-! ### Values -/

/-- What variables hold. -/
inductive Value where
  | int (n : BitVec 32)
  | float (x : Binary64)
  | char (n : BitVec 8)
  /-- A text, or nothing where none has been stored. -/
  | text (t : Option String)
  | bool (b : Bool)
  deriving DecidableEq, Repr

namespace Value

/-- The type of a value. -/
def type : Value → Ty
  | int _ => .int
  | float _ => .float
  | char _ => .char
  | text _ => .string
  | bool _ => .bool

end Value

/-- A value that is printed: the function it is handed to, and the value. -/
abbrev Event := Llvm.Helper × Value

end Binisaya
