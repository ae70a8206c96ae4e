import Binisaya.Lowering.Expr

/-!
# Code for statements and programs

Statements are lowered into the block that is being filled.  A control statement ends it, adds its
own blocks, and goes on in the last of them.  `lower` is the whole module of a program.
-/

namespace Binisaya

open Llvm

namespace Lowering

/-- The value that a variable of the given type first holds. -/
def initialValue (env : Environment) (type : Ty) (initial : Expr) : Lower Operand :=
  if initial.isAbsent then pure type.zero
  else do
    let given ← initial.lower env
    widen given type

/-- Code for a declaration: a slot, and the value that it first holds.  The name stands for the
variable only after that. -/
def declaration (env : Environment) (type : Ty) (name : String) (initial : Expr) :
    Lower Environment := do
  let slot ← reserve type.valueType
  let value ← initialValue env type initial
  store value slot
  pure ((name, ⟨slot, type⟩) :: env)

/-- Code that prints a value.  Truth values are printed as numbers. -/
def print (v : Typed) : Lower Unit :=
  match v.type with
  | .int => perform (.call .printInt v.operand)
  | .bool => do
    let n ← emit (.convert .zext v.operand .i32) .i32
    perform (.call .printInt n)
  | .float => perform (.call .printFloat v.operand)
  | .string => perform (.call .printStr v.operand)
  | .char => perform (.call .printChar v.operand)
  | .unknown => fail (.unprintable v.type)

/-- Ends the block that is being filled, and goes on with filling another. -/
def leave (g : Guard) (t : Terminator) (next : Nat) : Lower Unit := do
  finish g t
  continueIn next

/-- Ends the block that is being filled by a condition, and goes on where it holds. -/
def branchOn (env : Environment) (condition : Expr) (whenTrue whenFalse : Nat) : Lower Unit := do
  let v ← condition.lower env
  leave .always (.branch v.operand whenTrue whenFalse) whenTrue

/-- Ends the block that is being filled by the condition of a counting loop.  Without a condition
the loop always goes on. -/
def branchOnOptional (env : Environment) (condition : Expr) (whenTrue whenFalse : Nat) :
    Lower Unit :=
  if condition.isAbsent then leave .always (.jump whenTrue) whenTrue
  else branchOn env condition whenTrue whenFalse

/-- Code for an expression whose value is not used, if there is one. -/
def evaluateOptional (env : Environment) (e : Expr) : Lower Unit :=
  if e.isAbsent then pure ()
  else do
    let _ ← e.lower env
    pure ()

/-- The blocks of a conditional.  Without an alternative it goes from the condition to the end. -/
structure Arms where
  thenBlock : Nat
  elseBlock : Nat
  endBlock : Nat
  deriving DecidableEq, Repr

/-- Code for the condition of a conditional; its first arm is to be filled next. -/
def openArms (env : Environment) (condition : Expr) (hasAlternative : Bool) : Lower Arms := do
  let v ← condition.lower env
  let thenBlock ← addBlock .ifThen
  let endBlock ← addBlock .ifEnd
  let elseBlock ← (if hasAlternative then addBlock .ifElse else pure endBlock)
  leave .always (.branch v.operand thenBlock elseBlock) thenBlock
  pure ⟨thenBlock, elseBlock, endBlock⟩

/-- The blocks that a loop comes back to. -/
structure Rounds where
  /-- Where a round begins. -/
  condBlock : Nat
  /-- Where the body ends; a loop without an increment has it end at the condition. -/
  incBlock : Nat
  /-- What follows the loop. -/
  endBlock : Nat
  deriving DecidableEq, Repr

/-- Code for the condition of a loop; its body is to be filled next. -/
def openWhile (env : Environment) (condition : Expr) : Lower Rounds := do
  let condBlock ← addBlock .whileCond
  let bodyBlock ← addBlock .whileBody
  let endBlock ← addBlock .whileEnd
  leave .unlessEnded (.jump condBlock) condBlock
  branchOn env condition bodyBlock endBlock
  pure ⟨condBlock, condBlock, endBlock⟩

/-- Code for the condition of a counting loop; its body is to be filled next. -/
def openFor (env : Environment) (condition : Expr) : Lower Rounds := do
  let condBlock ← addBlock .forCond
  let bodyBlock ← addBlock .forBody
  let incBlock ← addBlock .forInc
  let endBlock ← addBlock .forEnd
  leave .unlessEnded (.jump condBlock) condBlock
  branchOnOptional env condition bodyBlock endBlock
  pure ⟨condBlock, incBlock, endBlock⟩

end Lowering

open Lowering

mutual

/-- Code for a statement: the variables after it. -/
def Stmt.lower (env : Environment) : Stmt → Lower Environment
  | .absent => Lowering.fail .absentStatement
  | .declare type name initial => Lowering.declaration env (.ofWord type) name initial
  | .print value => do
    let v ← value.lower env
    Lowering.print v
    pure env
  | .expression value => do
    let _ ← value.lower env
    pure env
  | .block body => do
    let _ ← Stmt.lowerAll env body
    pure env
  | .ifElse condition consequent alternative => do
    let arms ← openArms env condition (!alternative.isAbsent)
    let between ← consequent.lower env
    leave .unlessEnded (.jump arms.endBlock) arms.elseBlock
    if alternative.isAbsent then pure between
    else
      let after ← alternative.lower between
      leave .unlessEnded (.jump arms.endBlock) arms.endBlock
      pure after
  | .whileLoop condition body => do
    let rounds ← openWhile env condition
    let after ← body.lower env
    leave .unlessEnded (.jump rounds.condBlock) rounds.endBlock
    pure after
  | .forLoop initial condition increment body => do
    let inner ← (if initial.isAbsent then pure env else initial.lower env)
    let rounds ← openFor inner condition
    let after ← body.lower inner
    leave .unlessEnded (.jump rounds.incBlock) rounds.incBlock
    evaluateOptional after increment
    leave .unlessEnded (.jump rounds.condBlock) rounds.endBlock
    pure env

/-- Code for a sequence of statements: the variables after it. -/
def Stmt.lowerAll (env : Environment) : List Stmt → Lower Environment
  | [] => pure env
  | s :: ss => do
    let after ← s.lower env
    Stmt.lowerAll after ss

end

/-- The module of a program. -/
def lower (p : Program) : Except LoweringFailure Module := do
  let (_, b) ← (do let _ ← Stmt.lowerAll [] p; finish .unlessEnded .ret : Lower Unit) .initial
  pure ⟨b.texts, b.blocks⟩

/-- How a failure reads. -/
def LoweringFailure.message : LoweringFailure → String
  | .error cause => "llvm lowering: " ++ cause.message
  | .storeMismatch value slot =>
    "store operands are not compatible: src=" ++ value.render ++ "; dst=" ++ slot.render

end Binisaya
