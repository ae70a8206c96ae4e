import Binisaya.Lowering.Builder
import Binisaya.Numeral.DoubleText

/-!
# Code for expressions

Operands are evaluated from left to right, both operands of every operator.  Numbers are widened
where a comparison or an assignment needs it: characters to integers, and both to floating point.
-/

namespace Binisaya

open Llvm

/-- The type of the values that a type stands for.  Nothing has an unknown type. -/
def Ty.valueType : Ty → ValueType
  | int => .i32
  | float => .double
  | char => .i8
  | string => .text
  | bool => .i1
  | unknown => .void

/-- What a variable holds until it is given a value. -/
def Ty.zero : Ty → Operand
  | float => .double ⟨false, 0⟩
  | char => .i8 0
  | string => .null
  | bool => .i1 false
  | int => .i32 0
  | unknown => .i32 0

/-- Whether a type is one of numbers. -/
def Ty.isNumeric : Ty → Bool
  | int | float | char => true
  | _ => false

namespace Lowering

/-- A variable: the slot that holds its value, and its type. -/
structure Variable where
  slot : Operand
  type : Ty
  deriving DecidableEq, Repr

/-- The variables that names stand for, the latest first. -/
abbrev Environment := List (String × Variable)

/-- A value and its type. -/
structure Typed where
  operand : Operand
  type : Ty
  deriving DecidableEq, Repr

/-- Widens a number to another type.  A value that has no such widening stays as it is. -/
def widen (v : Typed) (target : Ty) : Lower Operand :=
  match v.type, target with
  | .char, .int => emit (.convert .sext v.operand .i32) .i32
  | .int, .float => emit (.convert .sitofp v.operand .double) .double
  | .char, .float => emit (.convert .sitofp v.operand .double) .double
  | _, _ => pure v.operand

/-- The value of a literal. -/
def literal (kind : LiteralKind) (text : String) : Lower Typed :=
  match kind with
  | .int =>
    match readInt 32 text with
    | .ok n => pure ⟨.i32 n, .int⟩
    | .error reason => fail (.intLiteral text reason)
  | .float =>
    match readDouble text with
    | .ok x => pure ⟨.double x, .float⟩
    | .error reason => fail (.floatLiteral text reason)
  | .bool => pure ⟨.i1 (text = "true"), .bool⟩
  | .string => do
    let address ← addText text
    pure ⟨address, .string⟩
  | .other => fail (.unexpectedLiteral text)

/-- Computes the result of an operation. -/
def compute (op : Operation) (left right : Operand) (type : Ty) : Lower Typed := do
  let v ← emit (.operate op left right) left.type
  pure ⟨v, type⟩

/-- Code for an operator in front of its operand. -/
def unary (op : UnaryOp) (v : Typed) : Lower Typed :=
  match op, v.type with
  | .not, .bool => compute .xor v.operand (.i1 true) .bool
  | .negate, .int => compute .sub (.i32 0) v.operand .int
  | .negate, .float => compute .fsub (.double ⟨false, 0⟩) v.operand .float
  | _, _ => fail (.unaryOperation op v.type)

/-- The operation that an arithmetic operator denotes on integers. -/
def integerOperation? : BinaryOp → Option Operation
  | .add => some .add
  | .subtract => some .sub
  | .multiply => some .mul
  | .divide => some .sdiv
  | _ => none

/-- The operation that an arithmetic operator denotes on floating point numbers. -/
def floatOperation? : BinaryOp → Option Operation
  | .add => some .fadd
  | .subtract => some .fsub
  | .multiply => some .fmul
  | .divide => some .fdiv
  | _ => none

/-- The operation that an arithmetic operator denotes on values of a type. -/
def arithmeticOperation? (op : BinaryOp) : Ty → Option Operation
  | .int | .char => integerOperation? op
  | .float => floatOperation? op
  | _ => none

/-- The comparison that an operator denotes. -/
def comparison? : BinaryOp → Option Comparison
  | .equal => some .equal
  | .notEqual => some .notEqual
  | .less => some .less
  | .lessEqual => some .lessEqual
  | .greater => some .greater
  | .greaterEqual => some .greaterEqual
  | _ => none

/-- Code for an arithmetic operator, whose operands must have one type. -/
def arithmetic (op : BinaryOp) (left right : Typed) : Lower Typed :=
  if left.type ≠ right.type then fail (.mismatchedOperands left.type op right.type)
  else
    match arithmeticOperation? op left.type with
    | some operation => compute operation left.operand right.operand left.type
    | none => fail (.unsupportedArithmetic op left.type)

/-- Code for a comparison.  Numbers of different types are widened first; beyond that only values of
one type compare, and texts not at all. -/
def compare (how : Comparison) (left right : Typed) : Lower Typed := do
  if left.type = .float ∨ right.type = .float then
    if left.type.isNumeric ∧ right.type.isNumeric then
      let l ← widen left .float
      let r ← widen right .float
      let v ← emit (.fcmp how l r) .i1
      pure ⟨v, .bool⟩
    else fail (.incomparable left.type right.type)
  else if left.type = .string ∨ right.type = .string then fail .stringComparison
  else if left.type = right.type then
    let v ← emit (.icmp how left.operand right.operand) .i1
    pure ⟨v, .bool⟩
  else if left.type.isNumeric ∧ right.type.isNumeric then
    let l ← widen left .int
    let r ← widen right .int
    let v ← emit (.icmp how l r) .i1
    pure ⟨v, .bool⟩
  else fail (.incomparable left.type right.type)

/-- Code for an operator between its operands. -/
def binary (op : BinaryOp) (left right : Typed) : Lower Typed :=
  match comparison? op with
  | some how => compare how left right
  | none =>
    if op.isArithmetic then arithmetic op left right
    else
      match op, left.type, right.type with
      | .and, .bool, .bool => compute .and left.operand right.operand .bool
      | .or, .bool, .bool => compute .or left.operand right.operand .bool
      | _, _, _ => fail (.operation left.type op right.type)

/-- The variable that a name stands for. -/
def resolve (env : Environment) (name : String) : Lower Variable :=
  match env.lookup name with
  | some v => pure v
  | none => fail (.undefinedName name)

end Lowering

open Lowering in
/-- Code for an expression: the value that it yields. -/
def Expr.lower (env : Environment) : Expr → Lower Typed
  | .absent => Lowering.fail .absentExpression
  | .literal kind text => Lowering.literal kind text
  | .name n => do
    let v ← resolve env n
    let value ← emit (.load v.type.valueType v.slot) v.type.valueType
    pure ⟨value, v.type⟩
  | .assign target value => do
    let v ← resolve env target
    let given ← value.lower env
    let widened ← widen given v.type
    store widened v.slot
    pure ⟨widened, v.type⟩
  | .group inner => inner.lower env
  | .unary op operand => do
    let v ← operand.lower env
    Lowering.unary op v
  | .binary op left right => do
    let l ← left.lower env
    let r ← right.lower env
    Lowering.binary op l r

end Binisaya
