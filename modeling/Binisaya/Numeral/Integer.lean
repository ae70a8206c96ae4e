/-!
# Integers in a fixed width

`readInt` reads a decimal integer that has to fit a signed word of a given width.
-/

namespace Binisaya

/-- Why a text is no numeral. -/
inductive NumeralError where
  /-- The text is not written as a numeral. -/
  | malformed
  /-- The number does not fit. -/
  | outOfRange
  deriving DecidableEq, Repr

/-- The value of a digit. -/
def digitValue? (c : Char) : Option Nat :=
  if '0' ≤ c ∧ c ≤ '9' then some (c.toNat - '0'.toNat) else none

/-- Reads digits after a number already read, none of whose values may exceed `limit`.  The first
fault from the left decides the error. -/
def readDigits (limit : Nat) : Nat → List Char → Except NumeralError Nat
  | n, [] => .ok n
  | n, c :: cs =>
    match digitValue? c with
    | none => .error .malformed
    | some d => if limit < 10 * n + d then .error .outOfRange else readDigits limit (10 * n + d) cs

/-- Reads a numeral without a sign whose value must fit an unsigned word of the given width. -/
def readUnsigned (bits : Nat) : List Char → Except NumeralError Nat
  | [] => .error .malformed
  | cs => readDigits (Nat.pow 2 bits - 1) 0 cs

/-- Whether a minus sign stands in front of a numeral, and the numeral without its sign. -/
def splitSign : List Char → Bool × List Char
  | '-' :: cs => (true, cs)
  | '+' :: cs => (false, cs)
  | cs => (false, cs)

/-- The integer of the given sign and size, if a signed word of the given width holds it. -/
def signedWord (bits : Nat) (negative : Bool) (n : Nat) : Except NumeralError Int :=
  if negative then if n ≤ Nat.pow 2 (bits - 1) then .ok (-(n : Int)) else .error .outOfRange
  else if n < Nat.pow 2 (bits - 1) then .ok (n : Int) else .error .outOfRange

/-- Reads an integer with an optional sign that must fit a signed word of the given width. -/
def readInt (bits : Nat) (text : String) : Except NumeralError Int :=
  match readUnsigned bits (splitSign text.toList).2 with
  | .error e => .error e
  | .ok n => signedWord bits (splitSign text.toList).1 n

end Binisaya
