/-!
# Bytes as characters

Source text arrives as bytes.  `Utf8.decode` reads them as UTF-8: a byte that does not begin a
well-formed sequence (an overlong form, a surrogate, a value above `10FFFF`, a truncated sequence, a
stray continuation byte) stands for one replacement character, and reading goes on with the byte
after it.  `Utf8.encode` is the way back.
-/

namespace Binisaya

namespace Utf8

/-- The character that stands for a byte which is not part of a well-formed sequence. -/
def replacement : Char := '�'

/-- Continuation bytes are `10xxxxxx`. -/
def isContinuation (b : UInt8) : Bool := 0x80 ≤ b && b ≤ 0xBF

/-- The payload of a continuation byte. -/
def payload (b : UInt8) : Nat := b.toNat % 64

/-- The character of code point `v`, if it is one that needs at least `least`: shorter code points
have a shorter form, and surrogates are no characters. -/
def scalar? (least v : Nat) : Option Char :=
  if least ≤ v ∧ v.isValidChar then some (Char.ofNat v) else none

/-- The character whose sequence is `a b`. -/
def two? (a b : UInt8) : Option Char :=
  if 0xC2 ≤ a ∧ a ≤ 0xDF ∧ isContinuation b then
    scalar? 0x80 (a.toNat % 32 * 64 + payload b)
  else none

/-- The character whose sequence is `a b c`. -/
def three? (a b c : UInt8) : Option Char :=
  if 0xE0 ≤ a ∧ a ≤ 0xEF ∧ isContinuation b ∧ isContinuation c then
    scalar? 0x800 (a.toNat % 16 * 4096 + payload b * 64 + payload c)
  else none

/-- The character whose sequence is `a b c d`. -/
def four? (a b c d : UInt8) : Option Char :=
  if 0xF0 ≤ a ∧ a ≤ 0xF4 ∧ isContinuation b ∧ isContinuation c ∧ isContinuation d then
    scalar? 0x10000 (a.toNat % 8 * 262144 + payload b * 4096 + payload c * 64 + payload d)
  else none

/-- The character that `a :: rest` begins with, and the bytes after its sequence.  No two widths
can both succeed, since they need different first bytes. -/
def head (a : UInt8) (rest : List UInt8) : Char × List UInt8 :=
  if a < 0x80 then (Char.ofNat a.toNat, rest)
  else
    match rest with
    | b :: c :: d :: tail =>
      match two? a b, three? a b c, four? a b c d with
      | some x, _, _ => (x, c :: d :: tail)
      | none, some x, _ => (x, d :: tail)
      | none, none, some x => (x, tail)
      | none, none, none => (replacement, rest)
    | [b, c] =>
      match two? a b, three? a b c with
      | some x, _ => (x, [c])
      | none, some x => (x, [])
      | none, none => (replacement, rest)
    | [b] =>
      match two? a b with
      | some x => (x, [])
      | none => (replacement, rest)
    | [] => (replacement, [])

/-- Every character takes at least its first byte. -/
theorem length_head_le (a : UInt8) (rest : List UInt8) :
    (head a rest).2.length ≤ rest.length := by
  unfold head
  repeat' split
  all_goals simp_all <;> omega

/-- The characters of a byte sequence. -/
def decode : List UInt8 → List Char
  | [] => []
  | a :: rest => (head a rest).1 :: decode (head a rest).2
termination_by bytes => bytes.length
decreasing_by
  have := length_head_le a rest
  simp only [List.length_cons]
  omega

/-- The bytes of a character sequence. -/
def encode (text : List Char) : List UInt8 := text.flatMap String.utf8EncodeChar

end Utf8

end Binisaya
