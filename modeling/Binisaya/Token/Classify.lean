import Binisaya.Token.Basic
import Binisaya.Token.Keyword

/-!
# Classification

The kind of a token follows from its text alone.
-/

namespace Binisaya

/-- The ten decimal digits. -/
def isDigit (c : Char) : Bool := '0' ≤ c && c ≤ '9'

/-- Characters that may begin a name. -/
def isNameStart (c : Char) : Bool :=
  ('a' ≤ c && c ≤ 'z') || ('A' ≤ c && c ≤ 'Z') || c == '_'

/-- One or more digits. -/
def isDigits (text : List Char) : Bool := !text.isEmpty && text.all isDigit

/-- A text without a minus sign in front. -/
def unsignedPart : List Char → List Char
  | '-' :: cs => cs
  | cs => cs

/-- Digits, after an optional minus sign. -/
def isIntText (text : List Char) : Bool := isDigits (unsignedPart text)

/-- Digits, a point and digits, after an optional minus sign. -/
def isDoubleText (text : List Char) : Bool :=
  let body := unsignedPart text
  match body.dropWhile isDigit with
  | '.' :: fraction => isDigits (body.takeWhile isDigit) && isDigits fraction
  | _ => false

/-- A letter or underscore followed by letters, digits and underscores. -/
def isNameText : List Char → Bool
  | [] => false
  | c :: cs => isNameStart c && cs.all fun d => isNameStart d || isDigit d

/-- A text between two quotes. -/
def isQuotedText : List Char → Bool
  | '"' :: cs => cs.getLast? == some '"'
  | _ => false

/-- The kind of a token with the given text. -/
def classify (text : String) : TokenKind :=
  let cs := text.toList
  if isKeyword text then .keyword
  else if isSignText text then .punctuation
  else if isIntText cs then .int
  else if isDoubleText cs then .double
  else if text = "true" ∨ text = "false" then .boolean
  else if isQuotedText cs then .string
  else if isNameText cs then .identifier
  else .unknown

end Binisaya
