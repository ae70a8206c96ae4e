import Binisaya.Llvm.Basic
import Binisaya.Numeral.Shortest
import Binisaya.Text.Utf8

/-!
# Printing LLVM modules

Every module begins with the formats of the print helpers, its texts, and the helpers.  Results are
numbered in the order in which they are printed.
-/

namespace Binisaya

namespace Llvm

/-- How a type is written. -/
def ValueType.render : ValueType → String
  | void => "void"
  | i1 => "i1"
  | i8 => "i8"
  | i32 => "i32"
  | double => "double"
  | pointer target => target.render ++ "*"

/-- A number in hexadecimal digits in upper case, without leading zeros. -/
def upperHex (n : Nat) : String := String.ofList ((Nat.toDigits 16 n).map Char.toUpper)

/-- How many different digits a number has in a base, and how many it could have in that length. -/
def digitVariety (base n : Nat) : Nat × Nat :=
  let digits := Nat.toDigits base n
  (digits.eraseDups.length, min digits.length base)

/-- Whether a number is easier to read in hexadecimal: it is not small, at most half of its
hexadecimal digits are different, and of its decimal digits a greater part is, by more than a
fifth. -/
def prefersHex (n : Nat) : Bool :=
  let (hexKinds, hexLength) := digitVariety 16 n
  let (kinds, length) := digitVariety 10 n
  4096 ≤ n && 2 * hexKinds ≤ hexLength &&
    5 * hexKinds * length + hexLength * length < 5 * kinds * hexLength

/-- An integer constant. -/
def renderInt (v : Int) : String :=
  match v with
  | .ofNat n => if prefersHex n then "u0x" ++ upperHex n else toString n
  | .negSucc _ => toString v

/-- A floating point constant: in decimal if its shortest decimal is exact, else by its bits. -/
def renderDouble (x : Binary64) : String :=
  let d := x.shortest
  if !x.isNaN && !x.isInfinite && x.isExactly d then
    String.ofList (if x.negative then '-' :: d.general else d.general)
  else "0x" ++ upperHex x.bits

/-- The address of the first byte of a global array. -/
def renderAddress (name : String) (size : Nat) : String :=
  let array := "[" ++ toString size ++ " x i8]"
  "getelementptr (" ++ array ++ ", " ++ array ++ "* @" ++ name ++ ", i32 0, i32 0)"

/-- The name of the text with the given index. -/
def textName (index : Nat) : String := ".str." ++ toString index

/-- The number of bytes of a text with the final zero. -/
def textSize (text : String) : Nat := (Utf8.encode text.toList).length + 1

/-- A byte in a character array. -/
def renderByte (b : UInt8) : String :=
  if 0x20 ≤ b ∧ b ≤ 0x7E ∧ b ≠ 0x22 ∧ b ≠ 0x5C then String.singleton (Char.ofNat b.toNat)
  else "\\" ++ (if b < 0x10 then "0" else "") ++ upperHex b.toNat

/-- The definition of a global array that holds a text and a final zero. -/
def renderGlobal (name mutability text : String) : String :=
  let bytes := Utf8.encode text.toList ++ [0]
  "@" ++ name ++ " = " ++ mutability ++ " [" ++ toString bytes.length ++ " x i8] c\"" ++
    String.join (bytes.map renderByte) ++ "\"\n"

namespace Helper

/-- All helpers, in the order in which they are printed. -/
def all : List Helper := [printInt, printFloat, printStr, printChar]

/-- The name of a helper. -/
def name : Helper → String
  | printInt => "print_int"
  | printFloat => "print_float"
  | printStr => "print_str"
  | printChar => "print_char"

/-- The format by which a helper prints. -/
def format : Helper → String
  | printInt => "%d\n"
  | printFloat => "%f\n"
  | printStr => "%s\n"
  | printChar => "%c\n"

/-- The name of a helper's format. -/
def formatName (h : Helper) : String := ".fmt." ++ h.name

/-- A line that passes a value to the general print function. -/
def callLine (h : Helper) (result value : String) : String :=
  "\t" ++ result ++ " = call i32 (i8*, ...) @printf(i8* " ++
    renderAddress h.formatName (textSize h.format) ++ ", " ++ value ++ ")\n"

/-- The body of a helper.  A character is widened before it is passed on. -/
def body : Helper → String
  | printChar => "\t%0 = sext i8 %v to i32\n" ++ printChar.callLine "%1" "i32 %0"
  | h => h.callLine "%0" (h.argument.render ++ " %v")

/-- The definition of a helper. -/
def render (h : Helper) : String :=
  "define void @" ++ h.name ++ "(" ++ h.argument.render ++ " %v) \x7b\nentry:\n" ++ h.body ++
    "\tret void\n\x7d\n"

end Helper

/-- What a block is for, in its label. -/
def Role.name : Role → String
  | entry => "entry"
  | ifThen => "if.then"
  | ifEnd => "if.end"
  | ifElse => "if.else"
  | whileCond => "while.cond"
  | whileBody => "while.body"
  | whileEnd => "while.end"
  | forCond => "for.cond"
  | forBody => "for.body"
  | forInc => "for.inc"
  | forEnd => "for.end"

/-- The label of the block with the given index.  The blocks after the entry are counted from
zero. -/
def Role.label (role : Role) (index : Nat) : String :=
  match role with
  | entry => role.name
  | _ => role.name ++ "." ++ toString (index - 1)

/-- The name of an operation. -/
def Operation.name : Operation → String
  | add => "add"
  | sub => "sub"
  | mul => "mul"
  | sdiv => "sdiv"
  | fadd => "fadd"
  | fsub => "fsub"
  | fmul => "fmul"
  | fdiv => "fdiv"
  | and => "and"
  | or => "or"
  | xor => "xor"

/-- The name of a comparison of signed integers. -/
def Comparison.intName : Comparison → String
  | equal => "eq"
  | notEqual => "ne"
  | less => "slt"
  | lessEqual => "sle"
  | greater => "sgt"
  | greaterEqual => "sge"

/-- The name of a comparison of floating point numbers. -/
def Comparison.floatName : Comparison → String
  | equal => "oeq"
  | notEqual => "one"
  | less => "olt"
  | lessEqual => "ole"
  | greater => "ogt"
  | greaterEqual => "oge"

/-- The name of a conversion. -/
def Conversion.name : Conversion → String
  | sext => "sext"
  | zext => "zext"
  | sitofp => "sitofp"

/-- The numbers of the results of a sequence of instructions, where `next` is the first free number.
An instruction without a result takes none. -/
def numberInstrs (next : Nat) : List Instr → List Nat
  | [] => []
  | i :: is => next :: numberInstrs (if i.resultType.isSome then next + 1 else next) is

/-- The number of results in a sequence of instructions. -/
def countResults (is : List Instr) : Nat := (is.filter fun i => i.resultType.isSome).length

/-- The numbers of the results of all blocks. -/
def numberBlocks (next : Nat) : List Block → List (List Nat)
  | [] => []
  | b :: bs => numberInstrs next b.instrs :: numberBlocks (next + countResults b.instrs) bs

/-- The names that a function's blocks and results have when it is printed. -/
structure Naming where
  labels : Array String
  numbers : Array (Array Nat)

namespace Naming

/-- The naming of a function with the given blocks. -/
def ofBlocks (blocks : List Block) : Naming :=
  { labels := (blocks.zipIdx.map fun b => b.1.role.label b.2).toArray
    numbers := ((numberBlocks 0 blocks).map List.toArray).toArray }

/-- The label of a block. -/
def label (n : Naming) (block : Nat) : String := n.labels.getD block ""

/-- The name of a result. -/
def result (n : Naming) (place : Place) : String :=
  "%" ++ toString ((n.numbers.getD place.block #[]).getD place.index 0)

/-- An operand without its type. -/
def operand (n : Naming) : Operand → String
  | .i32 v => renderInt v
  | .i8 v => renderInt v
  | .i1 v => if v then "true" else "false"
  | .double v => renderDouble v
  | .null => "null"
  | .text index size => renderAddress (textName index) size
  | .result place _ => n.result place

/-- An operand with its type. -/
def typed (n : Naming) (o : Operand) : String := o.type.render ++ " " ++ n.operand o

/-- Two operands of one type. -/
def pair (n : Naming) (left right : Operand) : String := n.typed left ++ ", " ++ n.operand right

/-- An instruction without the name of its result. -/
def instr (n : Naming) : Instr → String
  | .alloca type => "alloca " ++ type.render
  | .store value slot => "store " ++ n.typed value ++ ", " ++ n.typed slot
  | .load type slot => "load " ++ type.render ++ ", " ++ n.typed slot
  | .operate op left right => op.name ++ " " ++ n.pair left right
  | .icmp how left right => "icmp " ++ how.intName ++ " " ++ n.pair left right
  | .fcmp how left right => "fcmp " ++ how.floatName ++ " " ++ n.pair left right
  | .convert op value type => op.name ++ " " ++ n.typed value ++ " to " ++ type.render
  | .call helper argument => "call void @" ++ helper.name ++ "(" ++ n.typed argument ++ ")"

/-- The line of the instruction at a place. -/
def line (n : Naming) (place : Place) (i : Instr) : String :=
  let text := n.instr i
  if i.resultType.isSome then "\t" ++ n.result place ++ " = " ++ text ++ "\n"
  else "\t" ++ text ++ "\n"

/-- The line that ends a block. -/
def terminator (n : Naming) : Terminator → String
  | .jump target => "\tbr label %" ++ n.label target ++ "\n"
  | .branch condition whenTrue whenFalse =>
    "\tbr " ++ n.typed condition ++ ", label %" ++ n.label whenTrue ++ ", label %" ++
      n.label whenFalse ++ "\n"
  | .ret => "\tret i32 0\n"

/-- The lines of the block with the given index. -/
def block (n : Naming) (index : Nat) (b : Block) : String :=
  n.label index ++ ":\n" ++
    String.join (b.instrs.zipIdx.map fun i => n.line ⟨index, i.2⟩ i.1) ++
    (b.terminator.map n.terminator).getD ""

end Naming

/-- The text of a module. -/
def Module.render (m : Module) : String :=
  let n := Naming.ofBlocks m.blocks
  String.join (Helper.all.map fun h => renderGlobal h.formatName "global" h.format) ++
    String.join (m.texts.zipIdx.map fun t => renderGlobal (textName t.2) "constant" t.1) ++
    "\ndeclare i32 @printf(i8* %format, ...)\n\n" ++
    String.join (Helper.all.map fun h => h.render ++ "\n") ++
    "define i32 @main() \x7b\n" ++
    String.intercalate "\n" (m.blocks.zipIdx.map fun b => n.block b.2 b.1) ++
    "\x7d\n"

end Llvm

end Binisaya
