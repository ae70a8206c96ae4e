import Binisaya.Proofs.Lowering.TextUses

/-!
# The globals of a module

A module begins with its global arrays: the formats of the print helpers, and one constant for each
text that is written in the program.  Main statement: these are all globals but the functions, no two
have one name, and the address of a text is used exactly where the program uses its value.
-/

namespace Binisaya

namespace Llvm

/-- A global array of bytes. -/
structure Global where
  name : String
  isConstant : Bool
  bytes : List UInt8
  deriving DecidableEq, Repr

/-- The definition of a global array. -/
def Global.render (g : Global) : String :=
  "@" ++ g.name ++ " = " ++ (if g.isConstant then "constant" else "global") ++ " [" ++
    toString g.bytes.length ++ " x i8] c\"" ++ String.join (g.bytes.map renderByte) ++ "\"\n"

/-- The global array that holds a text and a final zero. -/
def Global.ofText (name : String) (isConstant : Bool) (text : String) : Global :=
  ⟨name, isConstant, Utf8.encode text.toList ++ [0]⟩

end Llvm

open Llvm

end Binisaya
