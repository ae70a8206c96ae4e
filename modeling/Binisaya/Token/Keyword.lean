/-!
# Words and signs of the language

The reserved words, the operator signs, and the characters that begin a sign.
-/

namespace Binisaya

/-- The reserved words.  The grammar uses the type words, `ug`, `edi`, `samtang`, `alang` and
`imprenta_gawas`; the others only cannot be names. -/
inductive Keyword where
  | tibuok
  | lutaw
  | duhay
  | karakter
  | karhan
  | ug
  | edi
  | ilis
  | kaha
  | alang
  | samtang
  | buhata
  | bungka
  | mobalik
  | padayon
  | angkat
  | imprentaGawas
  | sulod
  deriving DecidableEq, Repr

namespace Keyword

/-- How a reserved word is spelled. -/
def spelling : Keyword → String
  | tibuok => "tibuok"
  | lutaw => "lutaw"
  | duhay => "duhay"
  | karakter => "karakter"
  | karhan => "karhan"
  | ug => "ug"
  | edi => "edi"
  | ilis => "ilis"
  | kaha => "kaha"
  | alang => "alang"
  | samtang => "samtang"
  | buhata => "buhata"
  | bungka => "bungka"
  | mobalik => "mobalik"
  | padayon => "padayon"
  | angkat => "angkat"
  | imprentaGawas => "imprenta_gawas"
  | sulod => "sulod"

/-- All reserved words. -/
def all : List Keyword :=
  [tibuok, lutaw, duhay, karakter, karhan, ug, edi, ilis, kaha, alang, samtang, buhata, bungka,
    mobalik, padayon, angkat, imprentaGawas, sulod]

/-- The words that begin a declaration. -/
def types : List Keyword := [tibuok, lutaw, duhay, karakter, karhan]

end Keyword

/-- Whether a text is a reserved word. -/
def isKeyword (text : String) : Bool := Keyword.all.any fun k => k.spelling = text

/-- Whether a text is a word that begins a declaration. -/
def isTypeWord (text : String) : Bool := Keyword.types.any fun k => k.spelling = text

/-- The signs of the language. -/
def signs : List String :=
  [";", ",", "(", ")", "\x7b", "\x7d", "=", "==", "!", "!=", "<", "<=", ">", ">=", "+", "-", "/",
    "*", "&&", "||"]

/-- Whether a text is a sign. -/
def isSignText (text : String) : Bool := signs.contains text

/-- The characters that end a bare word and begin a sign. -/
def signChars : List Char :=
  [';', ',', '(', ')', '\x7b', '\x7d', '=', '!', '<', '>', '+', '-', '/', '*', '&', '|']

/-- Whether a character begins a sign. -/
def isSignChar (c : Char) : Bool := signChars.contains c

end Binisaya
