import Binisaya.Llvm.Printer
import Binisaya.Numeral.Integer
import Binisaya.Text.Quoted
import Binisaya.Typing.Ty

/-!
# Building a main function

Lowering fills the blocks of a main function one after the other.  `Builder` is what has been built
so far.  Instructions are only ever added at the end of a block, so a result keeps its place.
-/

namespace Binisaya

/-- What a program can hold that has no code. -/
inductive LoweringError where
  | undefinedName (name : String)
  | unprintable (type : Ty)
  | unaryOperation (op : UnaryOp) (type : Ty)
  | operation (left : Ty) (op : BinaryOp) (right : Ty)
  | mismatchedOperands (left : Ty) (op : BinaryOp) (right : Ty)
  | unsupportedArithmetic (op : BinaryOp) (type : Ty)
  | incomparable (left right : Ty)
  | stringComparison
  | intLiteral (text : String) (reason : NumeralError)
  | floatLiteral (text : String) (reason : NumeralError)
  | unexpectedLiteral (text : String)
  | absentStatement
  | absentExpression
  deriving DecidableEq, Repr

/-- How a fault of a numeral reads. -/
def NumeralError.reason : NumeralError → String
  | malformed => "invalid syntax"
  | outOfRange => "value out of range"

namespace LoweringError

/-- How an error reads. -/
def message : LoweringError → String
  | undefinedName name => "undefined identifier: " ++ name
  | unprintable type => "cannot print value of type " ++ type.name
  | unaryOperation op type => "unsupported unary operation " ++ op.symbol ++ type.name
  | operation left op right =>
    "unsupported operation " ++ left.name ++ " " ++ op.symbol ++ " " ++ right.name
  | mismatchedOperands left op right =>
    "mismatched operands " ++ left.name ++ " " ++ op.symbol ++ " " ++ right.name
  | unsupportedArithmetic op type =>
    "operation " ++ op.symbol ++ " is not supported for " ++ type.name
  | incomparable left right => "cannot compare " ++ left.name ++ " with " ++ right.name
  | stringComparison => "string comparison is not supported"
  | intLiteral text reason =>
    "integer literal " ++ text ++ ": strconv.ParseInt: parsing " ++ quoted text ++ ": " ++
      reason.reason
  | floatLiteral text reason =>
    "float literal " ++ text ++ ": strconv.ParseFloat: parsing " ++ quoted text ++ ": " ++
      reason.reason
  | unexpectedLiteral text => "unexpected literal " ++ quoted text
  | absentStatement => "unexpected statement <nil>"
  | absentExpression => "unexpected expression <nil>"

end LoweringError

/-- Why lowering stops. -/
inductive LoweringFailure where
  /-- The program holds something that has no code. -/
  | error (cause : LoweringError)
  /-- A value is stored in a slot of another type. -/
  | storeMismatch (value slot : Llvm.ValueType)
  deriving DecidableEq, Repr

namespace Lowering

open Llvm

/-- A main function under construction: its blocks, the one that is being filled, and the texts
met so far. -/
structure Builder where
  blocks : List Block
  current : Nat
  texts : List String
  deriving DecidableEq, Repr

/-- A main function with an empty entry. -/
def Builder.initial : Builder := ⟨[⟨.entry, [], none⟩], 0, []⟩

/-- Steps of lowering. -/
abbrev Lower (α : Type) := StateT Builder (Except LoweringFailure) α

/-- Stops because the program holds something that has no code. -/
def fail {α : Type} (cause : LoweringError) : Lower α := throw (.error cause)

/-- The number of instructions in a block. -/
def Builder.length (b : Builder) (block : Nat) : Nat :=
  ((b.blocks[block]?).map fun x => x.instrs.length).getD 0

/-- Adds an instruction at the end of the given block, and answers with its result, of the given
type. -/
def emitTo (block : Nat) (i : Instr) (type : ValueType) : Lower Operand := fun b =>
  .ok (.result ⟨block, b.length block⟩ type,
    { b with blocks := b.blocks.modify block (Block.add i) })

/-- Adds an instruction with a result to the block that is being filled. -/
def emit (i : Instr) (type : ValueType) : Lower Operand := fun b => emitTo b.current i type b

/-- Adds an instruction without a result to the block that is being filled. -/
def perform (i : Instr) : Lower Unit := fun b =>
  .ok ((), { b with blocks := b.blocks.modify b.current (Block.add i) })

/-- Reserves a slot.  Slots are reserved in the entry, so that a loop does not reserve them again. -/
def reserve (type : ValueType) : Lower Operand := emitTo 0 (.alloca type) (.pointer type)

/-- Adds an empty block at the end, and answers with its index. -/
def addBlock (role : Role) : Lower Nat := fun b =>
  .ok (b.blocks.length, { b with blocks := b.blocks ++ [⟨role, [], none⟩] })

/-- Ends the block that is being filled. -/
def finish (g : Guard) (t : Terminator) : Lower Unit := fun b =>
  .ok ((), { b with blocks := b.blocks.modify b.current (Block.finish g t) })

/-- Goes on with filling the given block. -/
def continueIn (block : Nat) : Lower Unit := fun b => .ok ((), { b with current := block })

/-- Adds a text, and answers with its address. -/
def addText (text : String) : Lower Operand := fun b =>
  .ok (.text b.texts.length (textSize text), { b with texts := b.texts ++ [text] })

/-- Stores a value in a slot, which has to be of the value's type. -/
def store (value slot : Operand) : Lower Unit :=
  if slot.type = .pointer value.type then perform (.store value slot)
  else throw (.storeMismatch value.type slot.type)

end Lowering

end Binisaya
