import Binisaya.Proofs.Grammar.Literals
import Binisaya.Proofs.Lowering.Growth

/-!
# Where lowering stops at an integer

`Blames f texts`: if a step of lowering stops because of an integer, its text is one of `texts` and
no numeral that a word of thirty-two bits holds.  Main statement: lowering a program, checked or not,
blames no text but those of its integers.
-/

namespace Binisaya

open Llvm

namespace Lowering

variable {α β : Type}

/-- Where a step stops at an integer, it is one of the given texts, and cannot be read. -/
def Blames (f : Lower α) (texts : List String) : Prop :=
  ∀ b text reason, f b = .error (.error (.intLiteral text reason)) →
    text ∈ texts ∧ readInt 32 text = .error reason

namespace Blames

variable {f : Lower α} {g : α → Lower β} {texts texts' : List String}

theorem of_ok (h : ∀ b, ∃ x, f b = .ok x) : Blames f texts := by
  intro b text reason hf
  obtain ⟨x, hx⟩ := h b
  rw [hx] at hf
  cases hf

theorem pure (a : α) : Blames (Pure.pure a : Lower α) texts := of_ok fun b => ⟨(a, b), rfl⟩

theorem fail {cause : LoweringError} (h : ∀ text reason, cause ≠ .intLiteral text reason) :
    Blames (Lowering.fail cause : Lower α) texts := by
  intro b text reason hf
  cases hf
  exact absurd rfl (h text reason)

theorem mono (h : Blames f texts) (hsub : texts ⊆ texts') : Blames f texts' := by
  intro b text reason hf
  obtain ⟨hmem, hread⟩ := h b text reason hf
  exact ⟨hsub hmem, hread⟩

theorem bind (hf : Blames f texts) (hg : ∀ a, Blames (g a) texts') :
    Blames (f >>= g) (texts ++ texts') := by
  intro b text reason h
  cases hrun : f b with
  | error e =>
    rw [Lower.bind_of_error hrun] at h
    cases h
    exact hf.mono (List.subset_append_left _ _) b text reason hrun
  | ok x =>
    rw [Lower.bind_of_ok hrun] at h
    exact (hg x.1).mono (List.subset_append_right _ _) x.2 text reason h

/-- A step that stops at no integer, and then others. -/
theorem behind (hf : Blames f []) (hg : ∀ a, Blames (g a) texts) : Blames (f >>= g) texts := by
  simpa using hf.bind hg

/-- Steps that stop at no integer behind others. -/
theorem before (hf : Blames f texts) (hg : ∀ a, Blames (g a) []) : Blames (f >>= g) texts := by
  simpa using hf.bind hg

theorem emit (i : Instr) (type : ValueType) : Blames (Lowering.emit i type) texts :=
  of_ok fun _ => ⟨_, rfl⟩

theorem perform (i : Instr) : Blames (Lowering.perform i) texts := of_ok fun _ => ⟨_, rfl⟩

theorem addBlock (role : Role) : Blames (Lowering.addBlock role) texts := of_ok fun _ => ⟨_, rfl⟩

theorem reserve (type : ValueType) : Blames (Lowering.reserve type) texts :=
  of_ok fun _ => ⟨_, rfl⟩

theorem leave {g : Guard} (t : Terminator) (next : Nat) :
    Blames (Lowering.leave g t next) texts :=
  of_ok fun _ => ⟨_, rfl⟩

theorem store (value slot : Operand) : Blames (Lowering.store value slot) texts := by
  unfold Lowering.store
  split
  · exact perform _
  · intro b text reason h
    cases h

theorem widen (v : Typed) (target : Ty) : Blames (Lowering.widen v target) texts := by
  unfold Lowering.widen
  split
  · exact emit _ _
  · exact emit _ _
  · exact emit _ _
  · exact pure _

theorem compute (op : Operation) (left right : Operand) (type : Ty) :
    Blames (Lowering.compute op left right type) texts :=
  (emit _ _).behind fun _ => pure _

theorem unary (op : UnaryOp) (v : Typed) : Blames (Lowering.unary op v) texts := by
  unfold Lowering.unary
  split
  · exact compute _ _ _ _
  · exact compute _ _ _ _
  · exact compute _ _ _ _
  · exact fail nofun

theorem arithmetic (op : BinaryOp) (left right : Typed) :
    Blames (Lowering.arithmetic op left right) texts := by
  unfold Lowering.arithmetic
  split
  · exact fail nofun
  · split
    · exact compute _ _ _ _
    · exact fail nofun

theorem compare (how : Comparison) (left right : Typed) :
    Blames (Lowering.compare how left right) texts := by
  unfold Lowering.compare
  split
  · split
    · exact (widen _ _).behind fun _ => (widen _ _).behind fun _ => (emit _ _).behind fun _ => pure _
    · exact fail nofun
  · split
    · exact fail nofun
    · split
      · exact (emit _ _).behind fun _ => pure _
      · split
        · exact (widen _ _).behind fun _ => (widen _ _).behind fun _ =>
            (emit _ _).behind fun _ => pure _
        · exact fail nofun

theorem binary (op : BinaryOp) (left right : Typed) :
    Blames (Lowering.binary op left right) texts := by
  unfold Lowering.binary
  split
  · exact compare _ _ _
  · split
    · exact arithmetic _ _ _
    · split
      · exact compute _ _ _ _
      · exact compute _ _ _ _
      · exact fail nofun

theorem resolve (env : Environment) (name : String) : Blames (Lowering.resolve env name) texts := by
  unfold Lowering.resolve
  split
  · exact pure _
  · exact fail nofun

theorem print (v : Typed) : Blames (Lowering.print v) texts := by
  unfold Lowering.print
  split
  · exact perform _
  · exact (emit _ _).behind fun _ => perform _
  · exact perform _
  · exact perform _
  · exact perform _
  · exact fail nofun

end Blames

theorem literal_blames (kind : LiteralKind) (text : String) :
    Blames (literal kind text) ((Expr.literal kind text).literals .int) := by
  unfold literal
  cases kind with
  | int =>
    cases hread : readInt 32 text with
    | ok n => exact .pure _
    | error reason =>
      intro b text' reason' h
      cases h
      exact ⟨by simp [Expr.literals], hread⟩
  | float =>
    cases readDouble text with
    | ok x => exact .pure _
    | error reason => exact .fail (by simp)
  | bool => exact .pure _
  | string => exact .of_ok fun _ => ⟨_, rfl⟩
  | other => exact .fail (by simp)

theorem lower_blames (env : Environment) (e : Expr) : Blames (e.lower env) (e.literals .int) := by
  induction e with
  | absent => exact .fail nofun
  | literal kind text => exact literal_blames kind text
  | name n => exact (Blames.resolve env n).behind fun _ => (Blames.emit _ _).behind fun _ => .pure _
  | assign target value ih =>
    exact (Blames.resolve env target).behind fun v => ih.before fun given =>
      (Blames.widen _ _).behind fun _ => (Blames.store _ _).behind fun _ => .pure _
  | group inner ih => exact ih
  | unary op operand ih => exact ih.before fun v => .unary op v
  | binary op left right ihl ihr =>
    exact ihl.bind fun l => ihr.before fun r => .binary op l r

theorem initialValue_blames (env : Environment) (type : Ty) (initial : Expr) :
    Blames (initialValue env type initial) (initial.literals .int) := by
  unfold initialValue
  split
  · exact .pure _
  · exact (lower_blames env initial).before fun given => .widen given type

theorem declaration_blames (env : Environment) (type : Ty) (name : String) (initial : Expr) :
    Blames (declaration env type name initial) (initial.literals .int) :=
  (Blames.reserve _).behind fun _ => (initialValue_blames env type initial).before fun _ =>
    (Blames.store _ _).behind fun _ => .pure _

theorem branchOn_blames (env : Environment) (condition : Expr) (whenTrue whenFalse : Nat) :
    Blames (branchOn env condition whenTrue whenFalse) (condition.literals .int) :=
  (lower_blames env condition).before fun _ => .leave _ _

theorem branchOnOptional_blames (env : Environment) (condition : Expr) (whenTrue whenFalse : Nat) :
    Blames (branchOnOptional env condition whenTrue whenFalse) (condition.literals .int) := by
  unfold branchOnOptional
  split
  · exact .leave _ _
  · exact branchOn_blames env condition _ _

theorem evaluateOptional_blames (env : Environment) (e : Expr) :
    Blames (evaluateOptional env e) (e.literals .int) := by
  unfold evaluateOptional
  split
  · exact .pure _
  · exact (lower_blames env e).before fun _ => .pure _

theorem openArms_blames (env : Environment) (condition : Expr) (hasAlternative : Bool) :
    Blames (openArms env condition hasAlternative) (condition.literals .int) := by
  have helse : ∀ endBlock,
      Blames (if hasAlternative then addBlock .ifElse else pure endBlock) [] := by
    intro endBlock
    split
    · exact .addBlock _
    · exact .pure _
  exact (lower_blames env condition).before fun v => (Blames.addBlock _).behind fun _ =>
    (Blames.addBlock _).behind fun endBlock => (helse endBlock).behind fun _ =>
      (Blames.leave _ _).behind fun _ => .pure _

theorem openWhile_blames (env : Environment) (condition : Expr) :
    Blames (openWhile env condition) (condition.literals .int) :=
  (Blames.addBlock _).behind fun _ => (Blames.addBlock _).behind fun _ =>
    (Blames.addBlock _).behind fun _ => (Blames.leave _ _).behind fun _ =>
      (branchOn_blames env condition _ _).before fun _ => .pure _

theorem openFor_blames (env : Environment) (condition : Expr) :
    Blames (openFor env condition) (condition.literals .int) :=
  (Blames.addBlock _).behind fun _ => (Blames.addBlock _).behind fun _ =>
    (Blames.addBlock _).behind fun _ => (Blames.addBlock _).behind fun _ =>
      (Blames.leave _ _).behind fun _ => (branchOnOptional_blames env condition _ _).before fun _ =>
        .pure _

end Lowering

open Lowering

mutual

/-- Lowering a statement blames no text but those of its integers. -/
theorem Stmt.lower_blames (env : Environment) : (s : Stmt) →
    Blames (s.lower env) (s.literals .int)
  | .absent => .fail nofun
  | .declare type name initial => by
    rw [Stmt.lower, Stmt.literals]
    exact declaration_blames env _ name initial
  | .print value => by
    rw [Stmt.lower, Stmt.literals]
    exact (Lowering.lower_blames env value).before fun v => (Blames.print v).behind fun _ => .pure _
  | .expression value => by
    rw [Stmt.lower, Stmt.literals]
    exact (Lowering.lower_blames env value).before fun _ => .pure _
  | .block body => by
    rw [Stmt.lower, Stmt.literals]
    exact (Stmt.lowerAll_blames env body).before fun _ => .pure _
  | .ifElse condition consequent alternative => by
    rw [Stmt.lower, Stmt.literals]
    refine (openArms_blames env condition _).bind fun arms =>
      (Stmt.lower_blames env consequent).bind fun between => (Blames.leave _ _).behind fun _ => ?_
    split
    · exact .pure _
    · exact (Stmt.lower_blames between alternative).before fun _ =>
        (Blames.leave _ _).behind fun _ => .pure _
  | .whileLoop condition body => by
    rw [Stmt.lower, Stmt.literals]
    exact (openWhile_blames env condition).bind fun rounds =>
      (Stmt.lower_blames env body).before fun _ => (Blames.leave _ _).behind fun _ => .pure _
  | .forLoop initial condition increment body => by
    have hinitial : Blames (if initial.isAbsent then pure env else initial.lower env)
        (initial.literals .int) := by
      split
      · exact .pure _
      · exact Stmt.lower_blames env initial
    rw [Stmt.lower, Stmt.literals]
    exact hinitial.bind fun inner => (openFor_blames inner condition).bind fun rounds =>
      (Stmt.lower_blames inner body).bind fun after => (Blames.leave _ _).behind fun _ =>
        (evaluateOptional_blames after increment).before fun _ => (Blames.leave _ _).behind fun _ =>
          .pure _

theorem Stmt.lowerAll_blames (env : Environment) : (ss : List Stmt) →
    Blames (Stmt.lowerAll env ss) (Stmt.allLiterals .int ss)
  | [] => .pure _
  | s :: ss => by
    rw [Stmt.lowerAll, Stmt.allLiterals]
    exact (Stmt.lower_blames env s).bind fun after => Stmt.lowerAll_blames after ss

end

/-- If lowering stops at an integer, it is one of the program, and no word of thirty-two bits holds
it. -/
theorem lower_stops_at_integer {p : Program} {text : String} {reason : NumeralError}
    (h : lower p = .error (.error (.intLiteral text reason))) :
    text ∈ Stmt.allLiterals .int p ∧ readInt 32 text = .error reason := by
  have hblames : Blames (do let _ ← Stmt.lowerAll [] p; finish .unlessEnded .ret : Lower Unit)
      (Stmt.allLiterals .int p) :=
    (Stmt.lowerAll_blames [] p).before fun _ => .of_ok fun _ => ⟨_, rfl⟩
  unfold lower at h
  cases hrun : (do let _ ← Stmt.lowerAll [] p; finish .unlessEnded .ret : Lower Unit) .initial with
  | error e =>
    rw [hrun] at h
    cases h
    exact hblames _ text reason hrun
  | ok x =>
    rw [hrun] at h
    cases h

end Binisaya
