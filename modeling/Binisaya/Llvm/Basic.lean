import Binisaya.Numeral.Binary64

/-!
# LLVM modules

The part of the LLVM language that compiled programs use, as data.  A block is known by its index in
its function, and the result of an instruction by the place of the instruction.
-/

namespace Binisaya

namespace Llvm

/-- Types of values. -/
inductive ValueType where
  | void
  | i1
  | i8
  | i32
  | double
  | pointer (target : ValueType)
  deriving DecidableEq, Repr

/-- The type of a text: the address of its first byte. -/
def ValueType.text : ValueType := .pointer .i8

/-- The place of an instruction: its block, and how many instructions of the block precede it. -/
structure Place where
  block : Nat
  index : Nat
  deriving DecidableEq, Repr

/-- What instructions work on. -/
inductive Operand where
  | i32 (value : Int)
  | i8 (value : Int)
  | i1 (value : Bool)
  | double (value : Binary64)
  /-- The address of no text. -/
  | null
  /-- The address of the text with the given index, which has `size` bytes with the final zero. -/
  | text (index size : Nat)
  /-- The result of an instruction. -/
  | result (place : Place) (type : ValueType)
  deriving DecidableEq, Repr

/-- The type of an operand. -/
def Operand.type : Operand → ValueType
  | i32 _ => .i32
  | i8 _ => .i8
  | i1 _ => .i1
  | double _ => .double
  | null => .text
  | text _ _ => .text
  | result _ type => type

/-- Operations on two operands of one type. -/
inductive Operation where
  | add
  | sub
  | mul
  | sdiv
  | fadd
  | fsub
  | fmul
  | fdiv
  | and
  | or
  | xor
  deriving DecidableEq, Repr

/-- The ways in which two values can compare. -/
inductive Comparison where
  | equal
  | notEqual
  | less
  | lessEqual
  | greater
  | greaterEqual
  deriving DecidableEq, Repr

/-- Conversions between types. -/
inductive Conversion where
  | sext
  | zext
  | sitofp
  deriving DecidableEq, Repr

/-- The functions that print a value. -/
inductive Helper where
  | printInt
  | printFloat
  | printStr
  | printChar
  deriving DecidableEq, Repr

/-- The type of what a helper prints. -/
def Helper.argument : Helper → ValueType
  | printInt => .i32
  | printFloat => .double
  | printStr => .text
  | printChar => .i8

/-- Instructions. -/
inductive Instr where
  /-- Reserves a slot for a value of the given type; the result is its address. -/
  | alloca (type : ValueType)
  | store (value slot : Operand)
  | load (type : ValueType) (slot : Operand)
  | operate (op : Operation) (left right : Operand)
  /-- Compares integers, as signed numbers. -/
  | icmp (how : Comparison) (left right : Operand)
  /-- Compares floating point numbers; the answer is no if one of them is no number. -/
  | fcmp (how : Comparison) (left right : Operand)
  | convert (op : Conversion) (value : Operand) (type : ValueType)
  | call (helper : Helper) (argument : Operand)
  deriving DecidableEq, Repr

/-- The type of an instruction's result, if it has one. -/
def Instr.resultType : Instr → Option ValueType
  | alloca type => some (.pointer type)
  | store _ _ => none
  | load type _ => some type
  | operate _ left _ => some left.type
  | icmp _ _ _ => some .i1
  | fcmp _ _ _ => some .i1
  | convert _ _ type => some type
  | call _ _ => none

/-- How a block ends. -/
inductive Terminator where
  /-- Goes on with the given block. -/
  | jump (target : Nat)
  /-- Goes on with one of two blocks. -/
  | branch (condition : Operand) (whenTrue whenFalse : Nat)
  /-- Ends the program. -/
  | ret
  deriving DecidableEq, Repr

/-- What a block is for. -/
inductive Role where
  | entry
  | ifThen
  | ifEnd
  | ifElse
  | whileCond
  | whileBody
  | whileEnd
  | forCond
  | forBody
  | forInc
  | forEnd
  deriving DecidableEq, Repr

/-- A sequence of instructions, and its end, unless that is not yet known. -/
structure Block where
  role : Role
  instrs : List Instr
  terminator : Option Terminator
  deriving DecidableEq, Repr

/-- Adds an instruction at the end of a block. -/
def Block.add (i : Instr) (b : Block) : Block := { b with instrs := b.instrs ++ [i] }

/-- When a block that is to be ended gets the given end. -/
inductive Guard where
  /-- Unless it has ended. -/
  | unlessEnded
  /-- Also in the place of another end. -/
  | always
  deriving DecidableEq, Repr

/-- Ends a block. -/
def Block.finish (g : Guard) (t : Terminator) (b : Block) : Block :=
  match g with
  | .unlessEnded => { b with terminator := b.terminator <|> some t }
  | .always => { b with terminator := some t }

/-- A module: the texts that it holds, and the blocks of its main function, of which the first is
the entry. -/
structure Module where
  texts : List String
  blocks : List Block
  deriving DecidableEq, Repr

end Llvm

end Binisaya
