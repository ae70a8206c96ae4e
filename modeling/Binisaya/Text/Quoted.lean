import Binisaya.Text.Printable

/-!
# Quoted text

How messages show a text that may hold anything: between quotes, with quotes, backslashes and what
cannot be shown written as escapes.
-/

namespace Binisaya

namespace Quoted

/-- A hexadecimal digit in lower case. -/
def hexDigit (n : Nat) : Char := ("0123456789abcdef".toList.getD n '0')

/-- The last `width` hexadecimal digits of a number. -/
def hex : Nat → Nat → List Char
  | 0, _ => []
  | width + 1, n => hex width (n / 16) ++ [hexDigit (n % 16)]

/-- The letters of the escapes that have one. -/
def letterEscape? (c : Char) : Option Char :=
  match c.toNat with
  | 0x07 => some 'a'
  | 0x08 => some 'b'
  | 0x09 => some 't'
  | 0x0A => some 'n'
  | 0x0B => some 'v'
  | 0x0C => some 'f'
  | 0x0D => some 'r'
  | _ => none

/-- A character as it stands in quoted text.  A character that cannot be shown is escaped by letter
if it has one, and else by number: two digits below `80`, four up to `FFFF`, eight above. -/
def escape (c : Char) : List Char :=
  if c = '"' ∨ c = '\\' then ['\\', c]
  else if isPrintable c then [c]
  else
    match letterEscape? c with
    | some l => ['\\', l]
    | none =>
      if c.toNat < 0x80 then '\\' :: 'x' :: hex 2 c.toNat
      else if c.toNat < 0x10000 then '\\' :: 'u' :: hex 4 c.toNat
      else '\\' :: 'U' :: hex 8 c.toNat

end Quoted

/-- A text between quotes. -/
def quoted (text : String) : String :=
  String.ofList ('"' :: text.toList.flatMap Quoted.escape ++ ['"'])

end Binisaya
