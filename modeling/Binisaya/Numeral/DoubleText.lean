import Binisaya.Numeral.Binary64
import Binisaya.Numeral.Integer

/-!
# Reading floating point numerals

A numeral is a sign, digits with at most one point among them, and an exponent of ten; or, after
`0x`, hexadecimal digits and an exponent of two, which may then not be left out.  Underscores may
stand between digits.  The names of the infinities and of the value that is no number are read in
any case of letters.
-/

namespace Binisaya

namespace DoubleText

/-- The two bases. -/
inductive Radix where
  | ten
  | sixteen
  deriving DecidableEq, Repr

namespace Radix

/-- The value of a digit. -/
def digit? : Radix → Char → Option Nat
  | ten, c => digitValue? c
  | sixteen, c =>
    match digitValue? c with
    | some d => some d
    | none =>
      let l := c.toLower
      if 'a' ≤ l ∧ l ≤ 'f' then some (l.toNat - 'a'.toNat + 10) else none

/-- The number of values of a digit. -/
def size : Radix → Nat
  | ten => 10
  | sixteen => 16

/-- The letter in front of the exponent. -/
def exponentMark : Radix → Char
  | ten => 'e'
  | sixteen => 'p'

/-- The base that the exponent counts powers of. -/
def exponentBase : Radix → Nat
  | ten => 10
  | sixteen => 2

/-- How many powers of that base a digit is worth. -/
def digitWidth : Radix → Nat
  | ten => 1
  | sixteen => 4

end Radix

/-- Whether every underscore has a digit on both sides, where `before` says whether the text follows
a digit. -/
def underscoresBetween (radix : Radix) : Bool → List Char → Bool
  | _, [] => true
  | before, '_' :: cs =>
    before && cs.head?.any (fun c => (radix.digit? c).isSome) && underscoresBetween radix false cs
  | _, c :: cs => underscoresBetween radix (radix.digit? c).isSome cs

/-- The number that digits denote. -/
def digitsValue (radix : Radix) (cs : List Char) : Nat :=
  cs.foldl (fun n c => radix.size * n + (radix.digit? c).getD 0) 0

/-- Reads the exponent after the digits. -/
def readExponent (radix : Radix) : List Char → Except NumeralError Int
  | [] => if radix = .sixteen then .error .malformed else .ok 0
  | mark :: cs =>
    let (negative, ds) := splitSign cs
    if mark.toLower ≠ radix.exponentMark then .error .malformed
    else if ds.isEmpty then .error .malformed
    else if ds.all (fun c => (digitValue? c).isSome) then
      let e := digitsValue .ten ds
      .ok (if negative then -(e : Int) else e)
    else .error .malformed

/-- Reads digits, a point and an exponent in the given base. -/
def readMagnitude (radix : Radix) (negative : Bool) (text : List Char) :
    Except NumeralError Binary64 := do
  let cs := text.filter (· != '_')
  let isMantissa := fun c => c == '.' || (radix.digit? c).isSome
  let mantissa := cs.takeWhile isMantissa
  let whole := mantissa.takeWhile (· != '.')
  let fraction := (mantissa.dropWhile (· != '.')).drop 1
  if fraction.contains '.' ∨ (whole ++ fraction).isEmpty then throw .malformed
  if !underscoresBetween radix (radix = .sixteen) text then throw .malformed
  let e ← readExponent radix (cs.dropWhile isMantissa)
  let ds := whole ++ fraction
  let scale := e - radix.digitWidth * fraction.length
  let significant := (ds.dropWhile (· == '0')).length
  match Binary64.ofScaled? negative radix.exponentBase (digitsValue radix ds) scale
      (radix.digitWidth * significant) with
  | some x => pure x
  | none => throw .outOfRange

/-- Whether a text is a word, in any case of letters. -/
def isWord (cs : List Char) (word : String) : Bool := cs.map Char.toLower = word.toList

end DoubleText

open DoubleText in
/-- Reads a floating point numeral. -/
def readDouble (text : String) : Except NumeralError Binary64 :=
  let (negative, cs) := splitSign text.toList
  if isWord text.toList "nan" then .ok .nan
  else if isWord cs "inf" ∨ isWord cs "infinity" then .ok (.infinity negative)
  else
    match cs with
    | '0' :: 'x' :: hex => readMagnitude .sixteen negative hex
    | '0' :: 'X' :: hex => readMagnitude .sixteen negative hex
    | _ => readMagnitude .ten negative cs

end Binisaya
