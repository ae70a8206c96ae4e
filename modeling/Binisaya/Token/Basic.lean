/-!
# Tokens

A token is a classified piece of source text together with the place where it begins.
-/

namespace Binisaya

/-- A place in the source text.  Lines and columns of a text are counted from one, and a column
counts characters. -/
structure Location where
  line : Int
  column : Int
  deriving DecidableEq, Repr

namespace Location

/-- Where every text begins. -/
def start : Location := ⟨1, 1⟩

/-- The place after one more character. -/
def advance (l : Location) (c : Char) : Location :=
  if c = '\n' then ⟨l.line + 1, 1⟩ else ⟨l.line, l.column + 1⟩

/-- The place after some more text. -/
def advanceAll (l : Location) (text : List Char) : Location := text.foldl advance l

/-- How a place is written in messages. -/
def render (l : Location) : String := toString l.line ++ ":" ++ toString l.column

end Location

/-- What a token is.  A token handed in from outside may also carry a code that names no kind. -/
inductive TokenKind where
  | unknown
  | keyword
  | punctuation
  | int
  | double
  | boolean
  | string
  | identifier
  | unnamed (code : Nat)
  deriving DecidableEq, Repr

namespace TokenKind

/-- The kinds that have a name, in the order of their codes, which begin at one. -/
def named : List TokenKind :=
  [unknown, keyword, punctuation, int, double, boolean, string, identifier]

/-- The kind with a given code. -/
def ofCode (code : Nat) : TokenKind :=
  match code with
  | 0 => unnamed 0
  | n + 1 => named.getD n (unnamed (n + 1))

/-- The name of a kind in listings. -/
def name : TokenKind → String
  | unknown => "UNKNOWN"
  | keyword => "KEYWORD"
  | punctuation => "PUNCTUATION"
  | int => "INT"
  | double => "DOUBLE"
  | boolean => "BOOLEAN"
  | string => "STRING"
  | identifier => "IDENTIFIER"
  | unnamed code => "TokenType(" ++ toString code ++ ")"

/-- The kind with a given name.  Any other name stands for the kind of code zero. -/
def ofName (name : String) : TokenKind :=
  (named.find? fun k => k.name = name).getD (unnamed 0)

end TokenKind

/-- A piece of source text, what it is, and where it begins, if that is known. -/
structure Token where
  kind : TokenKind
  text : String
  location : Option Location
  deriving DecidableEq, Repr

namespace Token

/-- Whether a token is the given word or sign. -/
def is (t : Token) (kind : TokenKind) (text : String) : Bool := t.kind = kind && t.text = text

/-- Whether a token is the given sign. -/
def isSign (t : Token) (text : String) : Bool := t.is .punctuation text

/-- The place of a token as messages write it. -/
def place (t : Token) : String :=
  match t.location with
  | some l => l.render
  | none => "?:?"

/-- A token's line in a listing. -/
def render (t : Token) : String := t.kind.name ++ " :\t" ++ t.text

/-- The listing of a token sequence, one line for each. -/
def listing (ts : List Token) : String := String.join (ts.map fun t => t.render ++ "\n")

end Token

end Binisaya
