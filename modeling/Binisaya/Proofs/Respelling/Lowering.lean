import Binisaya.Proofs.Lowering.Growth
import Binisaya.Proofs.Respelling.Checking

/-!
# Lowering a respelled program

The code for a program does not depend on how its names are spelled, nor on its parentheses.
`Mirrors` relates a step of lowering to the same step on a respelled part of a program: both build
the same, or stop for the same cause, with the name in it changed.  Main statement: of a respelled
program, the same is wrong and the same module is made, up to the names in messages.
-/

namespace Binisaya

open Llvm Lowering

/-- The cause with the name in it changed. -/
def LoweringError.rename (r : String → String) : LoweringError → LoweringError
  | undefinedName name => undefinedName (r name)
  | cause => cause

/-- The failure with the name in it changed. -/
def LoweringFailure.rename (r : String → String) : LoweringFailure → LoweringFailure
  | .error cause => .error (cause.rename r)
  | .storeMismatch value slot => .storeMismatch value slot

namespace Lowering

variable {α β γ δ : Type} {r : String → String}

/-- The variables, under other names. -/
def Environment.rename (r : String → String) (env : Environment) : Environment :=
  env.map fun e => (r e.1, e.2)

/-! ### Steps that stop for no name -/

/-- Whether a step never stops because of a name. -/
def Nameless (m : Lower α) : Prop := ∀ b name, m b ≠ .error (.error (.undefinedName name))

namespace Nameless

theorem of_ok {m : Lower α} (h : ∀ b, ∃ x, m b = .ok x) : Nameless m := by
  intro b name hname
  obtain ⟨x, hx⟩ := h b
  rw [hx] at hname
  cases hname

theorem pure (a : α) : Nameless (Pure.pure a : Lower α) := of_ok fun _ => ⟨_, rfl⟩

theorem bind {m : Lower α} {k : α → Lower β} (hm : Nameless m) (hk : ∀ a, Nameless (k a)) :
    Nameless (m >>= k) := by
  intro b name hname
  cases h : m b with
  | error e =>
    rw [Lower.bind_of_error h] at hname
    cases hname
    exact hm b name h
  | ok x =>
    rw [Lower.bind_of_ok h] at hname
    exact hk x.1 x.2 name hname

theorem fail {cause : LoweringError} (h : ∀ name, cause ≠ .undefinedName name) :
    Nameless (Lowering.fail cause : Lower α) := by
  intro b name hname
  have hcause : LoweringFailure.error cause = .error (.undefinedName name) := Except.error.inj hname
  exact h name (LoweringFailure.error.inj hcause)

end Nameless

theorem emit_nameless (i : Instr) (type : ValueType) : Nameless (emit i type) :=
  .of_ok fun _ => ⟨_, rfl⟩

theorem perform_nameless (i : Instr) : Nameless (perform i) := .of_ok fun _ => ⟨_, rfl⟩

theorem reserve_nameless (type : ValueType) : Nameless (reserve type) := .of_ok fun _ => ⟨_, rfl⟩

theorem addBlock_nameless (role : Role) : Nameless (addBlock role) := .of_ok fun _ => ⟨_, rfl⟩

theorem finish_nameless {g : Guard} (t : Terminator) : Nameless (finish g t) :=
  .of_ok fun _ => ⟨_, rfl⟩

theorem leave_nameless {g : Guard} (t : Terminator) (next : Nat) : Nameless (leave g t next) :=
  .of_ok fun _ => ⟨_, rfl⟩

theorem store_nameless (value slot : Operand) : Nameless (store value slot) := by
  unfold store
  split
  · exact perform_nameless _
  · intro b name hname
    cases hname

theorem widen_nameless (v : Typed) (target : Ty) : Nameless (widen v target) := by
  unfold widen
  split
  · exact emit_nameless _ _
  · exact emit_nameless _ _
  · exact emit_nameless _ _
  · exact .pure _

theorem literal_nameless (kind : LiteralKind) (text : String) : Nameless (literal kind text) := by
  cases kind with
  | int =>
    unfold literal
    cases readInt 32 text with
    | ok n => exact .pure _
    | error reason => exact .fail nofun
  | float =>
    unfold literal
    cases readDouble text with
    | ok x => exact .pure _
    | error reason => exact .fail nofun
  | bool => exact .pure _
  | string => exact .of_ok fun _ => ⟨_, rfl⟩
  | other => exact .fail nofun

theorem compute_nameless (op : Operation) (left right : Operand) (type : Ty) :
    Nameless (compute op left right type) :=
  (emit_nameless _ _).bind fun _ => .pure _

theorem unary_nameless (op : UnaryOp) (v : Typed) : Nameless (unary op v) := by
  unfold unary
  split
  · exact compute_nameless _ _ _ _
  · exact compute_nameless _ _ _ _
  · exact compute_nameless _ _ _ _
  · exact .fail nofun

theorem arithmetic_nameless (op : BinaryOp) (left right : Typed) :
    Nameless (arithmetic op left right) := by
  unfold arithmetic
  split
  · exact .fail nofun
  · split
    · exact compute_nameless _ _ _ _
    · exact .fail nofun

theorem compare_nameless (how : Comparison) (left right : Typed) :
    Nameless (compare how left right) := by
  unfold compare
  split
  · split
    · exact (widen_nameless _ _).bind fun _ => (widen_nameless _ _).bind fun _ =>
        (emit_nameless _ _).bind fun _ => .pure _
    · exact .fail nofun
  · split
    · exact .fail nofun
    · split
      · exact (emit_nameless _ _).bind fun _ => .pure _
      · split
        · exact (widen_nameless _ _).bind fun _ => (widen_nameless _ _).bind fun _ =>
            (emit_nameless _ _).bind fun _ => .pure _
        · exact .fail nofun

theorem binary_nameless (op : BinaryOp) (left right : Typed) :
    Nameless (binary op left right) := by
  unfold binary
  split
  · exact compare_nameless _ _ _
  · split
    · exact arithmetic_nameless _ _ _
    · split
      · exact compute_nameless _ _ _ _
      · exact compute_nameless _ _ _ _
      · exact .fail nofun

theorem print_nameless (v : Typed) : Nameless (print v) := by
  unfold print
  split
  · exact perform_nameless _
  · exact (emit_nameless _ _).bind fun _ => perform_nameless _
  · exact perform_nameless _
  · exact perform_nameless _
  · exact perform_nameless _
  · exact .fail nofun

/-! ### Steps on respelled parts -/

/-- The second step builds what the first builds and answers `f` of its answer, or stops for what it
stops for, with the name in it changed by `r`. -/
def Mirrors (r : String → String) (f : α → β) (m : Lower α) (m' : Lower β) : Prop :=
  ∀ b, m' b = ((m b).map fun x => (f x.1, x.2)).mapError (LoweringFailure.rename r)

namespace Mirrors

theorem pure (f : α → β) (a : α) : Mirrors r f (Pure.pure a) (Pure.pure (f a)) := fun _ => rfl

theorem fail (f : α → β) (cause : LoweringError) :
    Mirrors r f (Lowering.fail cause) (Lowering.fail (cause.rename r)) := fun _ => rfl

theorem bind {f : α → β} {g : γ → δ} {m : Lower α} {m' : Lower β} {k : α → Lower γ}
    {k' : β → Lower δ} (hm : Mirrors r f m m') (hk : ∀ a, Mirrors r g (k a) (k' (f a))) :
    Mirrors r g (m >>= k) (m' >>= k') := by
  intro b
  rw [Lower.bind_run, Lower.bind_run, hm b]
  cases m b with
  | error e => rfl
  | ok x => exact hk x.1 x.2

end Mirrors

/-- A step that names nothing is its own mirror image. -/
theorem Nameless.mirrors {m : Lower α} (h : Nameless m) : Mirrors r id m m := by
  intro b
  cases hm : m b with
  | ok x => rfl
  | error e =>
    cases e with
    | storeMismatch value slot => rfl
    | error cause =>
      cases cause with
      | undefinedName name => exact absurd hm (h b name)
      | _ => rfl

/-- Goes on after a step that names nothing. -/
theorem Nameless.andThen {f : β → γ} {m : Lower α} {k : α → Lower β} {k' : α → Lower γ}
    (hm : Nameless m) (hk : ∀ a, Mirrors r f (k a) (k' a)) : Mirrors r f (m >>= k) (m >>= k') :=
  hm.mirrors.bind hk

theorem resolve_mirrors (hr : Function.Injective r) (env : Environment) (name : String) :
    Mirrors r id (resolve env name) (resolve (env.rename r) (r name)) := by
  have hlookup : (env.rename r).lookup (r name) = env.lookup name := lookup_map_names hr env name
  unfold resolve
  rw [hlookup]
  cases env.lookup name with
  | some v => exact .pure id v
  | none => exact .fail id _

end Lowering

/-! ### Expressions -/

theorem Expr.Respelled.lower_mirrors {r : String → String} (hr : Function.Injective r)
    (env : Environment) {e e' : Expr} (h : Expr.Respelled r e e') :
    Mirrors r id (e.lower env) (e'.lower (env.rename r)) := by
  induction h with
  | absent => exact .fail id _
  | literal kind text => exact (literal_nameless kind text).mirrors
  | name n =>
    exact (resolve_mirrors hr env n).bind fun _ => (emit_nameless _ _).andThen fun _ => .pure id _
  | binary op _ _ ihleft ihright =>
    exact ihleft.bind fun _ => ihright.bind fun _ => (binary_nameless _ _ _).mirrors
  | unary op _ ih => exact ih.bind fun _ => (unary_nameless _ _).mirrors
  | group _ ih => exact ih
  | ungroup _ ih => exact ih
  | assign target _ ih =>
    exact (resolve_mirrors hr env target).bind fun _ => ih.bind fun _ =>
      (widen_nameless _ _).andThen fun _ => (store_nameless _ _).andThen fun _ => .pure id _

namespace Lowering

variable {r : String → String} {e e' : Expr}

theorem initialValue_mirrors (hr : Function.Injective r) (env : Environment) (type : Ty)
    (h : Expr.Respelled r e e') (hsame : e'.isAbsent = e.isAbsent) :
    Mirrors r id (initialValue env type e) (initialValue (env.rename r) type e') := by
  unfold initialValue
  rw [hsame]
  split
  · exact .pure id _
  · exact (h.lower_mirrors hr env).bind fun _ => (widen_nameless _ _).mirrors

theorem declaration_mirrors (hr : Function.Injective r) (env : Environment) (type : Ty)
    (name : String) (h : Expr.Respelled r e e') (hsame : e'.isAbsent = e.isAbsent) :
    Mirrors r (Environment.rename r) (declaration env type name e)
      (declaration (env.rename r) type (r name) e') :=
  (reserve_nameless _).andThen fun slot =>
    (initialValue_mirrors hr env type h hsame).bind fun _ =>
      (store_nameless _ _).andThen fun _ => .pure _ ((name, ⟨slot, type⟩) :: env)

theorem branchOn_mirrors (hr : Function.Injective r) (env : Environment)
    (h : Expr.Respelled r e e') (whenTrue whenFalse : Nat) :
    Mirrors r id (branchOn env e whenTrue whenFalse)
      (branchOn (env.rename r) e' whenTrue whenFalse) :=
  (h.lower_mirrors hr env).bind fun _ => (leave_nameless _ _).mirrors

theorem branchOnOptional_mirrors (hr : Function.Injective r) (env : Environment)
    (h : Expr.Respelled r e e') (hsame : e'.isAbsent = e.isAbsent) (whenTrue whenFalse : Nat) :
    Mirrors r id (branchOnOptional env e whenTrue whenFalse)
      (branchOnOptional (env.rename r) e' whenTrue whenFalse) := by
  unfold branchOnOptional
  rw [hsame]
  split
  · exact (leave_nameless _ _).mirrors
  · exact branchOn_mirrors hr env h _ _

theorem evaluateOptional_mirrors (hr : Function.Injective r) (env : Environment)
    (h : Expr.Respelled r e e') (hsame : e'.isAbsent = e.isAbsent) :
    Mirrors r id (evaluateOptional env e) (evaluateOptional (env.rename r) e') := by
  unfold evaluateOptional
  rw [hsame]
  split
  · exact .pure id _
  · exact (h.lower_mirrors hr env).bind fun _ => .pure id _

theorem openArms_mirrors (hr : Function.Injective r) (env : Environment)
    (h : Expr.Respelled r e e') (hasAlternative : Bool) :
    Mirrors r id (openArms env e hasAlternative) (openArms (env.rename r) e' hasAlternative) := by
  refine (h.lower_mirrors hr env).bind fun _ => (addBlock_nameless _).andThen fun _ =>
    (addBlock_nameless _).andThen fun _ => Nameless.andThen ?_ fun _ =>
      (leave_nameless _ _).andThen fun _ => .pure id _
  split
  · exact addBlock_nameless _
  · exact .pure _

theorem openWhile_mirrors (hr : Function.Injective r) (env : Environment)
    (h : Expr.Respelled r e e') :
    Mirrors r id (openWhile env e) (openWhile (env.rename r) e') :=
  (addBlock_nameless _).andThen fun _ => (addBlock_nameless _).andThen fun _ =>
    (addBlock_nameless _).andThen fun _ => (leave_nameless _ _).andThen fun _ =>
      (branchOn_mirrors hr env h _ _).bind fun _ => .pure id _

theorem openFor_mirrors (hr : Function.Injective r) (env : Environment)
    (h : Expr.Respelled r e e') (hsame : e'.isAbsent = e.isAbsent) :
    Mirrors r id (openFor env e) (openFor (env.rename r) e') :=
  (addBlock_nameless _).andThen fun _ => (addBlock_nameless _).andThen fun _ =>
    (addBlock_nameless _).andThen fun _ => (addBlock_nameless _).andThen fun _ =>
      (leave_nameless _ _).andThen fun _ =>
        (branchOnOptional_mirrors hr env h hsame _ _).bind fun _ => .pure id _

end Lowering

/-! ### Statements and programs -/

/-- Respelling leaves no statement out. -/
theorem Stmt.Respelled.isAbsent_eq {r : String → String} {kept : List Clause} {s s' : Stmt}
    (h : Stmt.Respelled r kept s s') : s'.isAbsent = s.isAbsent := by
  cases h <;> rfl

mutual

/-- The code for a respelled statement is the code for the statement; the variables after it have
the changed names. -/
theorem Stmt.Respelled.lower_mirrors {r : String → String} {kept : List Clause}
    (hr : Function.Injective r) (hkept : ∀ clause, clause ∈ kept) (env : Environment)
    {s s' : Stmt} :
    Stmt.Respelled r kept s s' →
      Mirrors r (Environment.rename r) (s.lower env) (s'.lower (env.rename r))
  | .absent => .fail _ _
  | .declare type name hinitial =>
    declaration_mirrors hr env (.ofWord type) name hinitial.1 (hinitial.2 (hkept _))
  | .print hvalue =>
    (hvalue.lower_mirrors hr env).bind fun _ => (print_nameless _).andThen fun _ => .pure _ env
  | .expression hvalue => (hvalue.lower_mirrors hr env).bind fun _ => .pure _ env
  | .block hbody => by
    rw [Stmt.lower, Stmt.lower]
    exact (hbody.lowerAll_mirrors hr hkept env).bind fun _ => .pure _ env
  | .ifElse hcondition hconsequent halternative => by
    rw [Stmt.lower, Stmt.lower, halternative.isAbsent_eq]
    refine (openArms_mirrors hr env hcondition _).bind fun _ =>
      (hconsequent.lower_mirrors hr hkept env).bind fun between =>
        (leave_nameless _ _).andThen fun _ => ?_
    split
    · exact .pure _ between
    · exact (halternative.lower_mirrors hr hkept between).bind fun after =>
        (leave_nameless _ _).andThen fun _ => .pure _ after
  | .whileLoop hcondition hbody => by
    rw [Stmt.lower, Stmt.lower]
    exact (openWhile_mirrors hr env hcondition).bind fun _ =>
      (hbody.lower_mirrors hr hkept env).bind fun after =>
        (leave_nameless _ _).andThen fun _ => .pure _ after
  | .forLoop hinitial hcondition hincrement hbody => by
    rw [Stmt.lower, Stmt.lower, hinitial.isAbsent_eq]
    refine Mirrors.bind (f := Environment.rename r) ?_ fun inner =>
      (openFor_mirrors hr inner hcondition.1 (hcondition.2 (hkept _))).bind fun _ =>
        (hbody.lower_mirrors hr hkept inner).bind fun after =>
          (leave_nameless _ _).andThen fun _ =>
            (evaluateOptional_mirrors hr after hincrement.1 (hincrement.2 (hkept _))).bind fun _ =>
              (leave_nameless _ _).andThen fun _ => .pure _ env
    split
    · exact .pure _ env
    · exact hinitial.lower_mirrors hr hkept env

theorem Stmt.AllRespelled.lowerAll_mirrors {r : String → String} {kept : List Clause}
    (hr : Function.Injective r) (hkept : ∀ clause, clause ∈ kept) (env : Environment)
    {ss ss' : List Stmt} :
    Stmt.AllRespelled r kept ss ss' →
      Mirrors r (Environment.rename r) (Stmt.lowerAll env ss) (Stmt.lowerAll (env.rename r) ss')
  | .nil => .pure _ env
  | .cons hfirst hothers => by
    rw [Stmt.lowerAll, Stmt.lowerAll]
    exact (hfirst.lower_mirrors hr hkept env).bind fun after =>
      hothers.lowerAll_mirrors hr hkept after

end

/-- A respelled program has the module of the program, or fails as the program does, up to the name
in the cause. -/
theorem lower_of_allRespelled {r : String → String} {kept : List Clause}
    (hr : Function.Injective r) (hkept : ∀ clause, clause ∈ kept) {p p' : Program}
    (h : Stmt.AllRespelled r kept p p') :
    lower p' = (lower p).mapError (LoweringFailure.rename r) := by
  have hmain : Mirrors r id (Stmt.lowerAll [] p >>= fun _ => finish .unlessEnded .ret)
      (Stmt.lowerAll [] p' >>= fun _ => finish .unlessEnded .ret) :=
    (h.lowerAll_mirrors hr hkept []).bind fun _ => (finish_nameless .ret).mirrors
  unfold lower
  rw [hmain .initial]
  cases (Stmt.lowerAll [] p >>= fun _ => finish .unlessEnded .ret) Builder.initial <;> rfl

/-- Neither the spelling of names nor parentheses matter.  What is reported about a respelled
program is what is reported about the program, with the name in each message changed, provided no
condition of a counting loop becomes absent.  Where no clause does, lowering makes the same module
of both or fails for both alike, but for the name that is not defined. -/
theorem respelling_changes_names_only {r : String → String} {kept : List Clause} {p p' : Program}
    (hr : Function.Injective r) (h : Stmt.AllRespelled r kept p p') :
    (.condition ∈ kept →
      analyze p' = (problems p).map fun q => (q.rename r).diagnostic) ∧
    ((∀ clause, clause ∈ kept) →
      lower p' = (lower p).mapError (LoweringFailure.rename r)) := by
  refine ⟨fun hkept => ?_, fun hkept => lower_of_allRespelled hr hkept h⟩
  rw [analyze, h.problems_eq hr hkept, List.map_map]
  rfl

/-- A variable is declared twice and counted up, with `around` around expressions. -/
def countedTwice (name : String) (around : Expr → Expr) : Program :=
  [.declare "tibuok" name (around (.literal .int "1")), .declare "tibuok" name (.name name),
    .forLoop .absent (around (.binary .less (around (.name name)) (.literal .int "3")))
      (around (.assign name (around (.binary .add (.name name) (.literal .int "1")))))
      (.block [.print (around (.name name))])]

theorem respelled_count :
    Function.Injective (fun n : String => n ++ "_") ∧
      Stmt.AllRespelled (fun n => n ++ "_") [.initial, .condition, .increment]
        (countedTwice "x" .group) (countedTwice "x_" id) ∧
      analyze (countedTwice "x_" id) = [⟨.semantic, "Variable 'x_' already declared."⟩] ∧
      (lower (countedTwice "x" .group)).isOk = true ∧
      lower (countedTwice "x_" id) =
        (lower (countedTwice "x" .group)).mapError (LoweringFailure.rename fun n => n ++ "_") := by
  have hr : Function.Injective (fun n : String => n ++ "_") := by
    intro a b h
    simpa using h
  have h : Stmt.AllRespelled (fun n => n ++ "_") [.initial, .condition, .increment]
      (countedTwice "x" .group) (countedTwice "x_" id) :=
    .cons (.declare "tibuok" "x" ⟨.ungroup (.literal _ _), fun _ => rfl⟩) <|
    .cons (.declare "tibuok" "x" ⟨.name "x", fun _ => rfl⟩) <|
    .cons (.forLoop .absent
      ⟨.ungroup (.binary _ (.ungroup (.name "x")) (.literal _ _)), fun _ => rfl⟩
      ⟨.ungroup (.assign "x" (.ungroup (.binary _ (.name "x") (.literal _ _)))), fun _ => rfl⟩
      (.block (.cons (.print (.ungroup (.name "x"))) .nil))) .nil
  refine ⟨hr, h, ?_, by decide +kernel, (respelling_changes_names_only hr h).2 ?_⟩
  · exact ((respelling_changes_names_only hr h).1 (by decide)).trans (by decide +kernel)
  · intro clause
    cases clause <;> decide

/-- Parentheses around nothing are not irrelevant where they are a whole clause: without them there
is a loop without a condition in place of one whose condition has no type, and a declaration without
an initial value in place of one that has no code. -/
theorem lost_clauses_matter :
    (¬ ∀ (r : String → String) (p p' : Program), Function.Injective r →
      Stmt.AllRespelled r [] p p' →
        analyze p' = (problems p).map fun q => (q.rename r).diagnostic) ∧
    ¬ ∀ (r : String → String) (p p' : Program), Function.Injective r →
      Stmt.AllRespelled r [] p p' →
        lower p' = (lower p).mapError (LoweringFailure.rename r) := by
  constructor
  · intro hall
    have hsame := hall id [.forLoop .absent (.group .absent) .absent (.block [])]
      [.forLoop .absent .absent .absent (.block [])] Function.injective_id
      (.cons (.forLoop .absent ⟨.ungroup .absent, nofun⟩ ⟨.absent, nofun⟩ (.block .nil)) .nil)
    exact absurd hsame (by decide +kernel)
  · intro hall
    have hsame := hall id [.declare "tibuok" "x" (.group .absent)] [.declare "tibuok" "x" .absent]
      Function.injective_id (.cons (.declare _ _ ⟨.ungroup .absent, nofun⟩) .nil)
    exact absurd hsame (by decide +kernel)

end Binisaya
