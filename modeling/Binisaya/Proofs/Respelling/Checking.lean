import Binisaya.Proofs.Scoping
import Binisaya.Typing.Check
import Mathlib.Data.List.Basic

/-!
# Checking a respelled program

A program is respelled by changing its names, each in the same way wherever it stands, and by
leaving out some of its parentheses.  `Stmt.Respelled` relates a statement to a respelled one.
Scopes are renamed along with the program, so that a respelled expression keeps its type.  Main
statement: with different names kept different, the problems of a respelled program are those of the
program, in the same order and with the names changed.
-/

namespace Binisaya

/-! ### Respelling -/

/-- The expressions that a statement may lack. -/
inductive Clause where
  | initial
  | condition
  | increment
  deriving DecidableEq, Repr

/-- The second expression is the first with its names changed by `r` and without some of its
parentheses. -/
inductive Expr.Respelled (r : String → String) : Expr → Expr → Prop where
  | absent : Respelled r .absent .absent
  | literal (kind : LiteralKind) (text : String) :
      Respelled r (.literal kind text) (.literal kind text)
  | name (n : String) : Respelled r (.name n) (.name (r n))
  | binary (op : BinaryOp) {left right left' right' : Expr} (hleft : Respelled r left left')
      (hright : Respelled r right right') :
      Respelled r (.binary op left right) (.binary op left' right')
  | unary (op : UnaryOp) {operand operand' : Expr} (hoperand : Respelled r operand operand') :
      Respelled r (.unary op operand) (.unary op operand')
  | group {inner inner' : Expr} (hinner : Respelled r inner inner') :
      Respelled r (.group inner) (.group inner')
  | ungroup {inner inner' : Expr} (hinner : Respelled r inner inner') :
      Respelled r (.group inner) inner'
  | assign (target : String) {value value' : Expr} (hvalue : Respelled r value value') :
      Respelled r (.assign target value) (.assign (r target) value')

/-- A respelled clause.  Parentheses around nothing are something, and leaving them out may make a
clause absent; the clauses in `kept` do not become so. -/
def Clause.Respelled (r : String → String) (kept : List Clause) (clause : Clause) (e e' : Expr) :
    Prop :=
  Expr.Respelled r e e' ∧ (clause ∈ kept → e'.isAbsent = e.isAbsent)

mutual

/-- The second statement is the first with its names changed by `r` and without some of its
parentheses, but still with the clauses in `kept` that it has. -/
inductive Stmt.Respelled (r : String → String) (kept : List Clause) : Stmt → Stmt → Prop where
  | absent : Respelled r kept .absent .absent
  | declare (type name : String) {initial initial' : Expr}
      (hinitial : Clause.initial.Respelled r kept initial initial') :
      Respelled r kept (.declare type name initial) (.declare type (r name) initial')
  | print {value value' : Expr} (hvalue : Expr.Respelled r value value') :
      Respelled r kept (.print value) (.print value')
  | expression {value value' : Expr} (hvalue : Expr.Respelled r value value') :
      Respelled r kept (.expression value) (.expression value')
  | block {body body' : List Stmt} (hbody : AllRespelled r kept body body') :
      Respelled r kept (.block body) (.block body')
  | ifElse {condition condition' : Expr} {consequent consequent' alternative alternative' : Stmt}
      (hcondition : Expr.Respelled r condition condition')
      (hconsequent : Respelled r kept consequent consequent')
      (halternative : Respelled r kept alternative alternative') :
      Respelled r kept (.ifElse condition consequent alternative)
        (.ifElse condition' consequent' alternative')
  | whileLoop {condition condition' : Expr} {body body' : Stmt}
      (hcondition : Expr.Respelled r condition condition') (hbody : Respelled r kept body body') :
      Respelled r kept (.whileLoop condition body) (.whileLoop condition' body')
  | forLoop {initial initial' body body' : Stmt} {condition condition' increment increment' : Expr}
      (hinitial : Respelled r kept initial initial')
      (hcondition : Clause.condition.Respelled r kept condition condition')
      (hincrement : Clause.increment.Respelled r kept increment increment')
      (hbody : Respelled r kept body body') :
      Respelled r kept (.forLoop initial condition increment body)
        (.forLoop initial' condition' increment' body')

/-- The statements of the second sequence are those of the first, respelled. -/
inductive Stmt.AllRespelled (r : String → String) (kept : List Clause) :
    List Stmt → List Stmt → Prop where
  | nil : AllRespelled r kept [] []
  | cons {s s' : Stmt} {ss ss' : List Stmt} (hfirst : Respelled r kept s s')
      (hothers : AllRespelled r kept ss ss') : AllRespelled r kept (s :: ss) (s' :: ss')

end

/-! ### Renamed scopes -/

theorem lookup_map_names {α : Type} {r : String → String} (hr : Function.Injective r)
    (entries : List (String × α)) (name : String) :
    (entries.map fun e => (r e.1, e.2)).lookup (r name) = entries.lookup name := by
  induction entries with
  | nil => rfl
  | cons entry entries ih =>
    have hsame : (r name == r entry.1) = (name == entry.1) := by
      simp [hr.eq_iff, Bool.beq_eq_decide_eq]
    rw [List.map_cons, List.lookup_cons, List.lookup_cons, ih, hsame]

namespace Frame

variable {α : Type} {r : String → String}

/-- The frame with its names changed. -/
def rename (r : String → String) (t : Frame α) : Frame α :=
  ⟨t.entries.map fun e => (r e.1, e.2)⟩

theorem get?_rename (hr : Function.Injective r) (t : Frame α) (name : String) :
    (t.rename r).get? (r name) = t.get? name :=
  lookup_map_names hr t.entries name

theorem binds_rename (hr : Function.Injective r) (t : Frame α) (name : String) :
    (t.rename r).binds (r name) = t.binds name := by
  rw [binds, binds, get?_rename hr]

theorem rename_add (hr : Function.Injective r) (t : Frame α) (name : String) (value : α) :
    (t.add name value).rename r = (t.rename r).add (r name) value := by
  have hsame : ∀ other, (r other != r name) = (other != name) := by
    intro other
    simp [bne, hr.eq_iff, Bool.beq_eq_decide_eq]
  simp [rename, add, List.filter_map, Function.comp_def, hsame]

end Frame

namespace Scopes

variable {α : Type} {r : String → String}

/-- The scopes with their names changed. -/
def rename (r : String → String) (s : Scopes α) : Scopes α :=
  ⟨s.innermost.rename r, s.outer.map (Frame.rename r)⟩

@[simp] theorem rename_initial (r : String → String) :
    (initial : Scopes α).rename r = initial := rfl

@[simp] theorem rename_push (r : String → String) (s : Scopes α) :
    s.push.rename r = (s.rename r).push := rfl

theorem rename_pop (r : String → String) (s : Scopes α) : s.pop.rename r = (s.rename r).pop := by
  obtain ⟨frame, frames⟩ := s
  cases frames <;> rfl

theorem frames_rename (r : String → String) (s : Scopes α) :
    (s.rename r).frames = s.frames.map (Frame.rename r) := rfl

theorem lookup_rename (hr : Function.Injective r) (s : Scopes α) (name : String) :
    (s.rename r).lookup (r name) = s.lookup name := by
  unfold lookup
  rw [frames_rename, List.findSome?_map]
  congr 1
  funext t
  exact Frame.get?_rename hr t name

theorem declare?_rename (hr : Function.Injective r) (s : Scopes α) (name : String) (value : α) :
    (s.rename r).declare? (r name) value = (s.declare? name value).map (rename r) := by
  have hbinds : (s.rename r).innermost.binds (r name) = s.innermost.binds name :=
    Frame.binds_rename hr _ name
  unfold declare?
  rw [hbinds]
  split
  · rfl
  · simp [rename, bind, Frame.rename_add hr]

end Scopes

/-! ### Renamed problems -/

/-- The problem with the name in it changed. -/
def Problem.rename (r : String → String) : Problem → Problem
  | undeclared name => undeclared (r name)
  | redeclared name => redeclared (r name)
  | initialMismatch declared name found => initialMismatch declared (r name) found
  | assignMismatch found target name => assignMismatch found target (r name)
  | unaryOperand op found => unaryOperand op found
  | operandMismatch left op right => operandMismatch left op right
  | logicalOperand op found => logicalOperand op found
  | condition statement => condition statement

/-- A name is reported once under either spelling. -/
theorem reportOnce_rename {r : String → String} (hr : Function.Injective r)
    (reported : List String) (ps : List Problem) :
    reportOnce (reported.map r) (ps.map (Problem.rename r)) =
      (reportOnce reported ps).map (Problem.rename r) := by
  induction ps generalizing reported with
  | nil => rfl
  | cons p ps ih =>
    cases p with
    | undeclared name =>
      have hmem : r name ∈ reported.map r ↔ name ∈ reported := List.mem_map_of_injective hr
      simp only [List.map_cons, Problem.rename, reportOnce, hmem]
      split
      · exact ih reported
      · rw [← List.map_cons, ih (name :: reported)]
        rfl
    | _ => exact congrArg _ (ih reported)

namespace Expr

theorem operandProblem_rename (r : String → String) (allowed : List Ty) (found : Ty) (p : Problem) :
    (operandProblem allowed found p).map (Problem.rename r) =
      operandProblem allowed found (p.rename r) := by
  unfold operandProblem
  split <;> rfl

/-- What is wrong with an operation names no variable. -/
theorem operationProblems_rename (r : String → String) (op : BinaryOp) (left right : Ty) :
    (operationProblems op left right).map (Problem.rename r) = operationProblems op left right := by
  unfold operationProblems
  split
  · split <;> rfl
  · split
    · rw [List.map_append, operandProblem_rename, operandProblem_rename]
      rfl
    · rfl

namespace Respelled

variable {r : String → String} {e e' : Expr}

theorem type_eq (hr : Function.Injective r) (h : Respelled r e e') (scopes : Scopes Ty) :
    e'.type (scopes.rename r) = e.type scopes := by
  induction h with
  | absent => rfl
  | literal kind text => rfl
  | name n => rw [type, type, Scopes.lookup_rename hr]
  | binary op _ _ ihleft _ => rw [type, type, ihleft]
  | unary op _ ih =>
    cases op with
    | negate => exact ih
    | not => rfl
    | other symbol => rfl
  | group _ ih => exact ih
  | ungroup _ ih => exact ih
  | assign target _ _ => rw [type, type, Scopes.lookup_rename hr]

theorem problems_eq (hr : Function.Injective r) (h : Respelled r e e') (scopes : Scopes Ty) :
    e'.problems (scopes.rename r) = (e.problems scopes).map (Problem.rename r) := by
  induction h with
  | absent => rfl
  | literal kind text => rfl
  | name n =>
    rw [problems, problems, Scopes.lookup_rename hr]
    split <;> rfl
  | binary op hleft hright ihleft ihright =>
    rw [problems, problems, List.map_append, List.map_append, ihleft, ihright, hleft.type_eq hr,
      hright.type_eq hr, operationProblems_rename]
  | unary op hoperand ih =>
    simp only [problems, List.map_append, ih, hoperand.type_eq hr]
    congr 1
    cases op with
    | negate => rw [operandProblem_rename, Problem.rename]
    | not => rw [operandProblem_rename, Problem.rename]
    | other symbol => rfl
  | group _ ih => exact ih
  | ungroup _ ih => exact ih
  | assign target hvalue ih =>
    rw [problems, problems, Scopes.lookup_rename hr]
    cases scopes.lookup target with
    | none => exact congrArg _ ih
    | some declared =>
      rw [List.map_append, operandProblem_rename, Problem.rename, ← ih, ← hvalue.type_eq hr scopes]

theorem conditionProblems_eq (hr : Function.Injective r) (h : Respelled r e e')
    (statement : Conditioned) (scopes : Scopes Ty) :
    e'.conditionProblems (scopes.rename r) statement =
      (e.conditionProblems scopes statement).map (Problem.rename r) := by
  rw [conditionProblems, conditionProblems, List.map_append, h.problems_eq hr, h.type_eq hr]
  congr 1
  split <;> rfl

end Respelled

end Expr

/-! ### Statements and programs -/

mutual

/-- The checker goes through a respelled statement as through the statement, with the names of its
scopes and of the problems changed.  Only the condition of a counting loop is checked differently
where it is absent. -/
theorem Stmt.Respelled.check_eq {r : String → String} {kept : List Clause}
    (hr : Function.Injective r) (hkept : .condition ∈ kept) (scopes : Scopes Ty) {s s' : Stmt} :
    Stmt.Respelled r kept s s' →
      s'.check (scopes.rename r) =
        ((s.check scopes).1.rename r, (s.check scopes).2.map (Problem.rename r))
  | .absent => rfl
  | .declare type name hinitial => by
    rw [Stmt.check, Stmt.check, Scopes.declare?_rename hr]
    cases scopes.declare? name (.ofWord type) with
    | none => rfl
    | some inside =>
      simp only [Option.map_some, List.map_append, Expr.operandProblem_rename, Problem.rename,
        hinitial.1.problems_eq hr, hinitial.1.type_eq hr]
  | .print hvalue => by
    rw [Stmt.check, Stmt.check, hvalue.problems_eq hr]
  | .expression hvalue => by
    rw [Stmt.check, Stmt.check, hvalue.problems_eq hr]
  | .block hbody => by
    simp only [Stmt.check, ← Scopes.rename_push, hbody.checkAll_eq hr hkept, Scopes.rename_pop]
  | .ifElse hcondition hconsequent halternative => by
    simp only [Stmt.check, hconsequent.check_eq hr hkept, halternative.check_eq hr hkept,
      hcondition.conditionProblems_eq hr, List.map_append]
  | .whileLoop hcondition hbody => by
    simp only [Stmt.check, hbody.check_eq hr hkept, hcondition.conditionProblems_eq hr,
      List.map_append]
  | .forLoop hinitial hcondition hincrement hbody => by
    simp only [Stmt.check, ← Scopes.rename_push, hinitial.check_eq hr hkept,
      hbody.check_eq hr hkept, hcondition.1.conditionProblems_eq hr, hcondition.2 hkept,
      hincrement.1.problems_eq hr, Scopes.rename_pop, List.map_append]
    split <;> rfl

theorem Stmt.AllRespelled.checkAll_eq {r : String → String} {kept : List Clause}
    (hr : Function.Injective r) (hkept : .condition ∈ kept) (scopes : Scopes Ty)
    {ss ss' : List Stmt} :
    Stmt.AllRespelled r kept ss ss' →
      Stmt.checkAll (scopes.rename r) ss' =
        ((Stmt.checkAll scopes ss).1.rename r,
          (Stmt.checkAll scopes ss).2.map (Problem.rename r))
  | .nil => rfl
  | .cons hfirst hothers => by
    simp only [Stmt.checkAll, hfirst.check_eq hr hkept, hothers.checkAll_eq hr hkept,
      List.map_append]

end

/-- Respelling a program changes nothing in what is wrong with it but the names. -/
theorem Stmt.AllRespelled.problems_eq {r : String → String} {kept : List Clause}
    (hr : Function.Injective r) (hkept : .condition ∈ kept) {p p' : Program}
    (h : Stmt.AllRespelled r kept p p') : problems p' = (problems p).map (Problem.rename r) := by
  have hall := h.checkAll_eq hr hkept .initial
  rw [Scopes.rename_initial] at hall
  rw [problems, problems, hall, ← reportOnce_rename hr]
  rfl

end Binisaya
