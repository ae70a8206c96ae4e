import Binisaya.Proofs.Lowering.Observed
import Binisaya.Typing.Check

/-!
# Lowering with a log

`occurrences p` are all expressions in a program, each with the scopes that the checker has where it
stands, in the order in which lowering comes to them.  `lowerLogged p` lowers the program and keeps a
log of the expressions that have been lowered and the types of their values; the log is kept also if
lowering fails.  Main statement: but for the log it does what lowering does.
-/

namespace Binisaya

open Llvm Lowering

/-! ### Occurrences of expressions -/

/-- All expressions within an expression, each after those that its value is computed from. -/
def Expr.parts : Expr → List Expr
  | .absent => []
  | .literal kind text => [.literal kind text]
  | .name n => [.name n]
  | .assign target value => value.parts ++ [.assign target value]
  | .group inner => inner.parts ++ [.group inner]
  | .unary op operand => operand.parts ++ [.unary op operand]
  | .binary op left right => left.parts ++ (right.parts ++ [.binary op left right])

/-- An expression in a program, and what names mean to the checker where it stands. -/
structure Occurrence where
  scopes : Scopes Ty
  expr : Expr
  deriving DecidableEq, Repr

namespace Occurrence

/-- The type that the checker gives the expression. -/
def type (o : Occurrence) : Ty := o.expr.type o.scopes

/-- Whether there is no code for the expression: arithmetic on texts or truth values, a comparison
with a text or of a truth value and a number, and a numeral that is too large. -/
def lacksCode (o : Occurrence) : Bool :=
  match o.expr with
  | .literal .float text =>
    match readDouble text with
    | .error .outOfRange => true
    | _ => false
  | .binary op left right =>
    let l := left.type o.scopes
    let r := right.type o.scopes
    if op.isArithmetic then l = .string || l = .bool || r = .string || r = .bool
    else if op.isComparison then
      l = .string || r = .string || (l = .bool && r.isNumeric) || (l.isNumeric && r = .bool)
    else false
  | _ => false

end Occurrence

/-- The occurrences of the parts of an expression. -/
def Expr.occurrences (scopes : Scopes Ty) (e : Expr) : List Occurrence :=
  e.parts.map fun part => ⟨scopes, part⟩

mutual

/-- The occurrences of expressions in a statement.  A declared name means its own declaration in the
initial value, and the increment of a counting loop comes after the body. -/
def Stmt.occurrences (scopes : Scopes Ty) : Stmt → List Occurrence
  | .absent => []
  | .declare type name initial =>
    initial.occurrences ((Stmt.declare type name initial).check scopes).1
  | .print value => value.occurrences scopes
  | .expression value => value.occurrences scopes
  | .block body => Stmt.allOccurrences scopes.push body
  | .ifElse condition consequent alternative =>
    condition.occurrences scopes ++
      (consequent.occurrences scopes ++ alternative.occurrences (consequent.check scopes).1)
  | .whileLoop condition body => condition.occurrences scopes ++ body.occurrences scopes
  | .forLoop initial condition increment body =>
    let inner := (initial.check scopes.push).1
    initial.occurrences scopes.push ++ (condition.occurrences inner ++
      (body.occurrences inner ++ increment.occurrences (body.check inner).1))

/-- The occurrences of expressions in a sequence of statements. -/
def Stmt.allOccurrences (scopes : Scopes Ty) : List Stmt → List Occurrence
  | [] => []
  | s :: ss => s.occurrences scopes ++ Stmt.allOccurrences (s.check scopes).1 ss

end

/-- The occurrences of expressions in a program. -/
def occurrences (p : Program) : List Occurrence := Stmt.allOccurrences .initial p

/-! ### The log -/

namespace Lowering

/-- The expressions that have been lowered, and the types of their values. -/
abbrev Log := List (Expr × Ty)

/-- Steps of lowering with a log. -/
abbrev Logged (α : Type) := StateT Builder (ExceptT LoweringFailure (StateM Log)) α

instance : MonadLift Lower Logged := ⟨fun f b log => (f b, log)⟩

/-- Enters each expression and the type of its value into the log. -/
def logger : Observer Logged
  | .value e v => fun b log => (.ok ((), b), log ++ [(e, v.type)])
  | .block _ => pure ()
  | .name _ => pure ()

theorem logger_ignoresBlocks : logger.IgnoresBlocks := fun _ => rfl

theorem logger_ignoresNames : logger.IgnoresNames := fun _ => rfl

end Lowering

/-- The module of a program or the failure to lower it, and what has been lowered. -/
def lowerLogged (p : Program) : Except LoweringFailure Module × Log :=
  let run := lowerObserved logger p .initial []
  (run.1.map fun x => ⟨x.2.texts, x.2.blocks⟩, run.2)

/-! ### The log changes nothing -/

namespace Lowering.Logged

variable {α β : Type}

theorem bind_of_ok {g : Logged α} {b b' : Builder} {log log' : Log} {a : α}
    (h : g b log = (.ok (a, b'), log')) (k : α → Logged β) : (g >>= k) b log = k a b' log' := by
  simp only [Bind.bind, StateT.bind, ExceptT.bind, ExceptT.mk, h]
  rfl

theorem bind_of_error {g : Logged α} {b : Builder} {log log' : Log} {e : LoweringFailure}
    (h : g b log = (.error e, log')) (k : α → Logged β) : (g >>= k) b log = (.error e, log') := by
  simp only [Bind.bind, StateT.bind, ExceptT.bind, ExceptT.mk, h]
  rfl

theorem lift_run (f : Lower α) (b : Builder) (log : Log) :
    (liftM f : Logged α) b log = (f b, log) := rfl

theorem yield_run (e : Expr) (v : Typed) (b : Builder) (log : Log) :
    Observed.yield logger e v b log = (.ok (v, b), log ++ [(e, v.type)]) := rfl

instance : LawfulMonadLift Lower Logged where
  monadLift_pure _ := rfl
  monadLift_bind f k := by
    funext b log
    show ((f >>= k) b, log) = ((liftM f : Logged _) >>= fun a => liftM (k a)) b log
    cases hrun : f b with
    | error e => rw [bind_of_error (by rw [lift_run, hrun]), Lower.bind_of_error hrun]
    | ok x => rw [bind_of_ok (by rw [lift_run, hrun]), Lower.bind_of_ok hrun, lift_run]

/-- But for the log, these steps are those. -/
def Erases (α : Type) (g : Logged α) (f : Lower α) : Prop := ∀ b log, (g b log).1 = f b

theorem erasure : Erasure logger Erases where
  pure _ _ _ := rfl
  lift _ _ _ := rfl
  bind := by
    intro α β g f k h hg hk b log
    have hfirst := hg b log
    rcases hrun : g b log with ⟨_ | ⟨a, b'⟩, log'⟩
    · rw [hrun] at hfirst
      rw [bind_of_error hrun]
      exact (Lower.bind_of_error hfirst.symm h).symm
    · rw [hrun] at hfirst
      rw [bind_of_ok hrun, hk a b' log']
      exact (Lower.bind_of_ok hfirst.symm h).symm
  notice what _ _ := by cases what <;> rfl

end Lowering.Logged

/-- But for the log, lowering with a log is lowering. -/
theorem lowerLogged_fst (p : Program) : (lowerLogged p).1 = lower p := by
  unfold lowerLogged
  dsimp only
  rw [Logged.erasure.program p .initial [], lower_eq]
  rfl

end Binisaya
