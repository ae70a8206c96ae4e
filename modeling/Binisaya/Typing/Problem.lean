import Binisaya.Diagnostic
import Binisaya.Typing.Ty

/-!
# What can be wrong with a program that parses
-/

namespace Binisaya

/-- The statements that have a condition. -/
inductive Conditioned where
  | ifElse
  | whileLoop
  | forLoop
  deriving DecidableEq, Repr

/-- Faults in the use of names and types. -/
inductive Problem where
  | undeclared (name : String)
  | redeclared (name : String)
  | initialMismatch (declared : Ty) (name : String) (found : Ty)
  | assignMismatch (found target : Ty) (name : String)
  | unaryOperand (op : UnaryOp) (found : Ty)
  | operandMismatch (left : Ty) (op : BinaryOp) (right : Ty)
  | logicalOperand (op : BinaryOp) (found : Ty)
  | condition (statement : Conditioned)
  deriving DecidableEq, Repr

namespace Problem

/-- How a problem reads. -/
def message : Problem → String
  | undeclared name => "Variable '" ++ name ++ "' not declared."
  | redeclared name => "Variable '" ++ name ++ "' already declared."
  | initialMismatch declared name found =>
    "Type mismatch: cannot initialize " ++ declared.name ++ " '" ++ name ++ "' with " ++ found.name
  | assignMismatch found target name =>
    "Type mismatch: cannot assign " ++ found.name ++ " to " ++ target.name ++ " '" ++ name ++ "'"
  | unaryOperand op found =>
    "Operator '" ++ op.symbol ++ "' cannot be applied to " ++ found.name
  | operandMismatch left op right =>
    "Type mismatch in binary operation: " ++ left.name ++ " " ++ op.symbol ++ " " ++ right.name
  | logicalOperand op found =>
    "Logical operator '" ++ op.symbol ++ "' requires BOOLEAN operands, found " ++ found.name
  | condition .ifElse => "Condition in IF statement must be BOOLEAN."
  | condition .whileLoop => "Condition in WHILE loop must be BOOLEAN."
  | condition .forLoop => "Condition in FOR loop must be BOOLEAN."

/-- A problem as a diagnostic. -/
def diagnostic (p : Problem) : Diagnostic := ⟨.semantic, p.message⟩

end Problem

end Binisaya
