import Binisaya.Token.Keyword
import Binisaya.Tree.Basic

/-!
# Types
-/

namespace Binisaya

/-- The types of values.  `unknown` is the type of what has none, such as an undeclared name. -/
inductive Ty where
  | unknown
  | int
  | float
  | char
  | string
  | bool
  deriving DecidableEq, Repr

namespace Ty

/-- How a type is written in messages. -/
def name : Ty → String
  | unknown => "UNKNOWN"
  | int => "TIBUOK"
  | float => "LUTAW"
  | char => "KARAKTER"
  | string => "KARHAN"
  | bool => "BOOLEAN"

/-- The type that a type word denotes.  Both words for numbers with a point denote one type. -/
def ofWord (word : String) : Ty :=
  if word = Keyword.tibuok.spelling then int
  else if word = Keyword.lutaw.spelling ∨ word = Keyword.duhay.spelling then float
  else if word = Keyword.karakter.spelling then char
  else if word = Keyword.karhan.spelling then string
  else unknown

/-- The type with a given code. -/
def ofCode : Int → Ty
  | 1 => int
  | 2 => float
  | 3 => char
  | 4 => string
  | 5 => bool
  | _ => unknown

/-- The type of a literal. -/
def ofLiteral : LiteralKind → Ty
  | .int => int
  | .float => float
  | .bool => bool
  | .string => string
  | .other => unknown

end Ty

end Binisaya
