import Binisaya.Numeral.DoubleText
import Binisaya.Numeral.Shortest
import Binisaya.Tree.Basic

/-!
# Literals in rendered text

Numbers are written in one way whatever their spelling in the source: an integer without leading
zeros, a floating point number as the shortest decimal that reads back as it, without an exponent
and with a point.  A literal that is no numeral of its kind stays as it is.
-/

namespace Binisaya

/-- A floating point number in rendered text. -/
def Binary64.render (x : Binary64) : String :=
  if x.isNaN then "NaN"
  else if x.isInfinite then if x.negative then "-Inf" else "+Inf"
  else
    let text := x.shortest.positional
    let pointed := if text.contains '.' then text else text ++ ['.', '0']
    String.ofList (if x.negative then '-' :: pointed else pointed)

/-- A literal in rendered text. -/
def renderLiteral (kind : LiteralKind) (text : String) : String :=
  match kind with
  | .int =>
    match readInt 64 text with
    | .ok n => toString n
    | .error _ => text
  | .float =>
    match readDouble text with
    | .ok x => x.render
    | .error _ => text
  | .string => "\"" ++ text ++ "\""
  | .bool => text
  | .other => text

end Binisaya
