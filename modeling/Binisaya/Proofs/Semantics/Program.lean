import Binisaya.Lowering.Expr
import Binisaya.Proofs.Semantics.Value
import Binisaya.Scope

/-!
# What programs do

The meaning of programs, said without their code.  `Expr.eval` and `Stmt.run` act on a `State`: what
the names in scope hold, and what has been printed.  A computation may get stuck, on a quotient that
is undefined.  It may also go on for ever, so loops are given a number of rounds after which the run
is broken off; `Terminates` asks for a number that is enough.
-/

namespace Binisaya

/-! ### Operations on values -/

namespace BinaryOp

/-- An arithmetic operation on signed words, which wraps around. -/
def onWords? {w : Nat} (a b : BitVec w) : BinaryOp → Option (BitVec w)
  | add => some (a + b)
  | subtract => some (a - b)
  | multiply => some (a * b)
  | divide => signedQuotient? a b
  | _ => none

/-- An arithmetic operation on floating point numbers. -/
def onFloats? (x y : Binary64) : BinaryOp → Option Binary64
  | add => some (x.add y)
  | subtract => some (x.sub y)
  | multiply => some (x.mul y)
  | divide => some (x.div y)
  | _ => none

/-- Whether a comparison holds of two values in the given order. -/
def holds (o : Ordering) : BinaryOp → Bool
  | equal => o.isEq
  | notEqual => o.isNe
  | less => o.isLT
  | lessEqual => o.isLE
  | greater => o.isGT
  | greaterEqual => o.isGE
  | _ => false

end BinaryOp

namespace Value

/-- What a variable holds that is declared without an initial value. -/
def zero : Ty → Value
  | .int => int 0
  | .float => float ⟨false, 0⟩
  | .char => char 0
  | .string => text none
  | .bool => bool false
  | .unknown => int 0

/-- The value of a literal. -/
def ofLiteral? (kind : LiteralKind) (s : String) : Option Value :=
  match kind with
  | .int => (readInt 32 s).toOption.map fun n => int (.ofInt 32 n)
  | .float => (readDouble s).toOption.map float
  | .bool => some (bool (s = "true"))
  | .string => some (text (some s))
  | .other => none

/-- The integer that a value is. -/
def toInt? : Value → Option Int
  | int n => some n.toInt
  | char n => some n.toInt
  | _ => none

/-- The floating point number that is nearest to a number. -/
def toFloat? : Value → Option Binary64
  | float x => some x
  | v => v.toInt?.map .ofInt

/-- A value with an operator in front.  A number is negated by taking it from zero. -/
def unary? : UnaryOp → Value → Option Value
  | .not, bool b => some (bool !b)
  | .negate, int n => some (int (0 - n))
  | .negate, float x => some (float (Binary64.sub ⟨false, 0⟩ x))
  | _, _ => none

/-- Arithmetic on two values of one type. -/
def arithmetic? (op : BinaryOp) : Value → Value → Option Value
  | int a, int b => (op.onWords? a b).map int
  | char a, char b => (op.onWords? a b).map char
  | float x, float y => (op.onFloats? x y).map float
  | _, _ => none

/-- Whether a comparison holds of two values.  Integers compare as they are, of any width, and other
numbers as floating point numbers; nothing holds of what is no number. -/
def compare? (op : BinaryOp) : Value → Value → Option Bool
  | bool a, bool b => some (op.holds (compare a b))
  | v, w =>
    match v.toInt?, w.toInt? with
    | some i, some j => some (op.holds (compare i j))
    | _, _ =>
      match v.toFloat?, w.toFloat? with
      | some x, some y => some ((x.order y).any fun o => op.holds o)
      | _, _ => none

/-- Two values with an operator between them. -/
def binary? (op : BinaryOp) (v w : Value) : Option Value :=
  if op.isArithmetic then arithmetic? op v w
  else if op.isComparison then (compare? op v w).map bool
  else
    match op, v, w with
    | .and, bool a, bool b => some (bool (a && b))
    | .or, bool a, bool b => some (bool (a || b))
    | _, _, _ => none

/-- How a value is printed.  A truth value is printed as a number. -/
def printed : Value → Event
  | int n => (.printInt, int n)
  | float x => (.printFloat, float x)
  | char n => (.printChar, char n)
  | text t => (.printStr, text t)
  | bool b => (.printInt, int (if b then 1 else 0))

end Value

/-! ### Computations -/

/-- How a computation ends. -/
inductive Ending (α : Type) where
  | done (result : α)
  /-- Something was to be computed that has no meaning. -/
  | stuck
  /-- A loop has used up its rounds. -/
  | unfinished
  deriving DecidableEq, Repr

/-- Goes on after a computation that ends with a result. -/
def Ending.bind {α β : Type} : Ending α → (α → Ending β) → Ending β
  | done a, f => f a
  | stuck, _ => stuck
  | unfinished, _ => unfinished

instance : Monad Ending where
  pure := .done
  bind := .bind

/-- What a program acts on: what the names hold, and what has been printed. -/
structure State where
  scopes : Scopes Value
  trace : List Event
  deriving DecidableEq, Repr

/-- The state in front of a program. -/
def State.initial : State := ⟨.initial, []⟩

/-- Computations that act on a state. -/
abbrev Exec (α : Type) := StateT State Ending α

namespace Exec

theorem bind_of_done {α β : Type} {f : Exec α} {σ σ' : State} {a : α} (h : f σ = .done (a, σ'))
    (g : α → Exec β) : (f >>= g) σ = g a σ' := by
  have hbind : (f >>= g) σ = (f σ).bind fun x => g x.1 x.2 := rfl
  rw [hbind, h]
  rfl

/-- A value that has to be there. -/
def require {α : Type} : Option α → Exec α
  | some a => pure a
  | none => fun _ => .stuck

/-- What a name holds. -/
def read (name : String) : Exec Value := fun σ => require (σ.scopes.lookup name) σ

/-- Changes what a name holds. -/
def assign (name : String) (v : Value) : Exec Unit := do
  let _ ← read name
  modify fun σ => { σ with scopes := σ.scopes.assign name v }

/-- Declares a name in the innermost block. -/
def declare (name : String) (v : Value) : Exec Unit :=
  modify fun σ => { σ with scopes := σ.scopes.bind name v }

/-- Prints a value. -/
def print (v : Value) : Exec Unit := modify fun σ => { σ with trace := σ.trace ++ [v.printed] }

/-- Opens a block. -/
def openBlock : Exec Unit := modify fun σ => { σ with scopes := σ.scopes.push }

/-- Closes the innermost block. -/
def closeBlock : Exec Unit := modify fun σ => { σ with scopes := σ.scopes.pop }

/-- Repeats a round as long as a test is passed, and gives up when the rounds are used up. -/
def repeatWhile (test : Exec Bool) (round : Exec Unit) : Nat → Exec Unit
  | 0 => fun _ => .unfinished
  | rounds + 1 => do
    let passed ← test
    if passed then
      round
      repeatWhile test round rounds
    else pure ()

end Exec

open Exec

namespace Expr

/-- Evaluates an expression, operands from left to right and both operands of every operator.  An
assignment has the value that it assigns. -/
def eval : Expr → Exec Value
  | absent => require none
  | literal kind text => require (Value.ofLiteral? kind text)
  | name n => read n
  | assign target value => do
    let v ← value.eval
    Exec.assign target v
    pure v
  | group inner => inner.eval
  | unary op operand => do
    let v ← operand.eval
    require (v.unary? op)
  | binary op left right => do
    let v ← left.eval
    let w ← right.eval
    require (v.binary? op w)

/-- Evaluates a condition.  A missing condition holds. -/
def test (e : Expr) : Exec Bool :=
  if e.isAbsent then pure true
  else do
    match ← e.eval with
    | .bool b => pure b
    | _ => require none

/-- Evaluates an expression for its effect, if there is one. -/
def evalOptional (e : Expr) : Exec Unit :=
  if e.isAbsent then pure ()
  else do
    let _ ← e.eval
    pure ()

/-- The value that a variable is declared with: zero unless another is given. -/
def evalInitial (type : Ty) (e : Expr) : Exec Value :=
  if e.isAbsent then pure (Value.zero type) else e.eval

end Expr

mutual

/-- Runs a statement.  A missing statement does nothing. -/
def Stmt.run (rounds : Nat) : Stmt → Exec Unit
  | .absent => pure ()
  | .declare type name initial => do
    let v ← initial.evalInitial (.ofWord type)
    Exec.declare name v
  | .print value => do
    let v ← value.eval
    Exec.print v
  | .expression value => do
    let _ ← value.eval
    pure ()
  | .block body => do
    openBlock
    Stmt.runAll rounds body
    closeBlock
  | .ifElse condition consequent alternative => do
    let passed ← condition.test
    if passed then consequent.run rounds else alternative.run rounds
  | .whileLoop condition body => repeatWhile condition.test (body.run rounds) rounds
  | .forLoop initial condition increment body => do
    openBlock
    initial.run rounds
    repeatWhile condition.test (do body.run rounds; increment.evalOptional) rounds
    closeBlock

/-- Runs a sequence of statements. -/
def Stmt.runAll (rounds : Nat) : List Stmt → Exec Unit
  | [] => pure ()
  | s :: ss => do
    s.run rounds
    Stmt.runAll rounds ss

end

/-- A program comes to its end and has then printed `trace`. -/
def Terminates (p : Program) (trace : List Event) : Prop :=
  ∃ rounds σ, Stmt.runAll rounds p .initial = .done ((), σ) ∧ σ.trace = trace

end Binisaya
