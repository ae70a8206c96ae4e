import Binisaya.Proofs.Grammar.Soundness
import Binisaya.Proofs.Scoping
import Binisaya.Typing.Check

/-!
# The type system

`HasType` and `Stmt.WellTyped` are the typing rules, said without the checker.  A statement takes
the scopes in front of it to the scopes behind it, and only a declaration changes them.  Main
statement: the checker finds nothing wrong with a parsed program exactly if the program is well
typed.  The checker is silent about operands of unknown type and names an undeclared variable only
once; neither makes it silent about a whole program, since nothing is of unknown type unless a
problem was met before.
-/

namespace Binisaya

/-- The types of expressions, where names mean what the scopes bind them to. -/
inductive HasType (scopes : Scopes Ty) : Expr → Ty → Prop where
  | int (text : String) : HasType scopes (.literal .int text) .int
  | float (text : String) : HasType scopes (.literal .float text) .float
  | bool (text : String) : HasType scopes (.literal .bool text) .bool
  | string (text : String) : HasType scopes (.literal .string text) .string
  | name {n : String} {t : Ty} (hn : scopes.lookup n = some t) : HasType scopes (.name n) t
  | assign {target : String} {value : Expr} {t : Ty} (htarget : scopes.lookup target = some t)
      (hvalue : HasType scopes value t) : HasType scopes (.assign target value) t
  | group {inner : Expr} {t : Ty} (hinner : HasType scopes inner t) :
      HasType scopes (.group inner) t
  | negate {operand : Expr} {t : Ty} (hoperand : HasType scopes operand t)
      (ht : t = .int ∨ t = .float) : HasType scopes (.unary .negate operand) t
  | not {operand : Expr} (hoperand : HasType scopes operand .bool) :
      HasType scopes (.unary .not operand) .bool
  | arithmetic {op : BinaryOp} {left right : Expr} {t : Ty}
      (hop : op ∈ [.add, .subtract, .multiply, .divide]) (hleft : HasType scopes left t)
      (hright : HasType scopes right t) : HasType scopes (.binary op left right) t
  | comparison {op : BinaryOp} {left right : Expr} {t u : Ty}
      (hop : op ∈ [.equal, .notEqual, .less, .lessEqual, .greater, .greaterEqual])
      (hleft : HasType scopes left t) (hright : HasType scopes right u) :
      HasType scopes (.binary op left right) .bool
  | logical {op : BinaryOp} {left right : Expr} (hop : op ∈ [.and, .or])
      (hleft : HasType scopes left .bool) (hright : HasType scopes right .bool) :
      HasType scopes (.binary op left right) .bool

/-- The words for the types of variables.  There are two for numbers with a point, and none for truth
values. -/
inductive IsWordFor : String → Ty → Prop where
  | tibuok : IsWordFor "tibuok" .int
  | lutaw : IsWordFor "lutaw" .float
  | duhay : IsWordFor "duhay" .float
  | karakter : IsWordFor "karakter" .char
  | karhan : IsWordFor "karhan" .string

mutual

/-- `s.WellTyped scopes after`: in these scopes the statement is well typed, and behind it names
mean what `after` says.  A declaration binds its name before its initial value is looked at; blocks
and counting loops have a frame of their own. -/
inductive Stmt.WellTyped : Scopes Ty → Stmt → Scopes Ty → Prop where
  | declare {scopes : Scopes Ty} {type name : String} {t : Ty} (htype : IsWordFor type t)
      (hfree : scopes.innermost.get? name = none) :
      WellTyped scopes (.declare type name .absent) (scopes.bind name t)
  | declareAs {scopes : Scopes Ty} {type name : String} {t : Ty} {initial : Expr}
      (htype : IsWordFor type t) (hfree : scopes.innermost.get? name = none)
      (hinitial : HasType (scopes.bind name t) initial t) :
      WellTyped scopes (.declare type name initial) (scopes.bind name t)
  | print {scopes : Scopes Ty} {value : Expr} {t : Ty} (hvalue : HasType scopes value t) :
      WellTyped scopes (.print value) scopes
  | expression {scopes : Scopes Ty} {value : Expr} {t : Ty} (hvalue : HasType scopes value t) :
      WellTyped scopes (.expression value) scopes
  | block {scopes inner : Scopes Ty} {body : List Stmt}
      (hbody : Stmt.WellTypedAll scopes.push body inner) : WellTyped scopes (.block body) scopes
  | ifThen {scopes : Scopes Ty} {condition : Expr} {consequent : Stmt}
      (hcondition : HasType scopes condition .bool)
      (hconsequent : WellTyped scopes consequent scopes) :
      WellTyped scopes (.ifElse condition consequent .absent) scopes
  | ifElse {scopes : Scopes Ty} {condition : Expr} {consequent alternative : Stmt}
      (hcondition : HasType scopes condition .bool)
      (hconsequent : WellTyped scopes consequent scopes)
      (halternative : WellTyped scopes alternative scopes) :
      WellTyped scopes (.ifElse condition consequent alternative) scopes
  | whileLoop {scopes : Scopes Ty} {condition : Expr} {body : Stmt}
      (hcondition : HasType scopes condition .bool) (hbody : WellTyped scopes body scopes) :
      WellTyped scopes (.whileLoop condition body) scopes
  | forLoop {scopes inner : Scopes Ty} {initial body : Stmt} {condition increment : Expr}
      (hinitial : Stmt.ClauseWellTyped scopes.push initial inner)
      (hcondition : condition = .absent ∨ HasType inner condition .bool)
      (hbody : WellTyped inner body inner)
      (hincrement : increment = .absent ∨ ∃ t, HasType inner increment t) :
      WellTyped scopes (.forLoop initial condition increment body) scopes

/-- The same for a clause that may be missing. -/
inductive Stmt.ClauseWellTyped : Scopes Ty → Stmt → Scopes Ty → Prop where
  | absent (scopes : Scopes Ty) : ClauseWellTyped scopes .absent scopes
  | present {scopes after : Scopes Ty} {s : Stmt} (hs : Stmt.WellTyped scopes s after) :
      ClauseWellTyped scopes s after

/-- The same for a sequence of statements. -/
inductive Stmt.WellTypedAll : Scopes Ty → List Stmt → Scopes Ty → Prop where
  | nil (scopes : Scopes Ty) : WellTypedAll scopes [] scopes
  | cons {scopes between after : Scopes Ty} {s : Stmt} {ss : List Stmt}
      (hfirst : Stmt.WellTyped scopes s between) (hothers : WellTypedAll between ss after) :
      WellTypedAll scopes (s :: ss) after

end

/-- A program is well typed if its statements are, from an empty scope on. -/
def WellTyped (p : Program) : Prop := ∃ after, Stmt.WellTypedAll .initial p after

/-! ### Types of expressions -/

/-- Scopes in which no name has an unknown type. -/
def Known (scopes : Scopes Ty) : Prop := ∀ name, scopes.lookup name ≠ some .unknown

theorem Known.initial : Known .initial := fun name => by simp

theorem Known.push {scopes : Scopes Ty} (h : Known scopes) : Known scopes.push := fun name => by
  rw [Scopes.lookup_push]
  exact h name

theorem Known.bind {scopes : Scopes Ty} (h : Known scopes) {type : Ty} (htype : type ≠ .unknown)
    (name : String) : Known (scopes.bind name type) := fun other => by
  rw [Scopes.lookup_bind]
  split
  · simpa using htype
  · exact h other

theorem IsWordFor.ofWord_eq {word : String} {t : Ty} (h : IsWordFor word t) :
    Ty.ofWord word = t := by
  cases h <;> decide

/-- The checker knows the words for types and their meaning. -/
theorem isWordFor_ofWord {word : String} (h : isTypeWord word) : IsWordFor word (.ofWord word) := by
  obtain ⟨k, hk, hword⟩ := List.any_eq_true.mp h
  rw [← of_decide_eq_true hword]
  simp only [Keyword.types, List.mem_cons, List.not_mem_nil, or_false] at hk
  rcases hk with rfl | rfl | rfl | rfl | rfl
  · exact .tibuok
  · exact .lutaw
  · exact .duhay
  · exact .karakter
  · exact .karhan

theorem Ty.ofWord_ne_unknown {word : String} (h : isTypeWord word) : Ty.ofWord word ≠ .unknown := by
  have hword := isWordFor_ofWord h
  generalize Ty.ofWord word = t at hword
  cases hword <;> simp

/-- What the rules for declarations say, by the checker's reading of the type word. -/
theorem Stmt.WellTyped.of_declare {scopes after : Scopes Ty} {type name : String} {initial : Expr}
    (h : (Stmt.declare type name initial).WellTyped scopes after) :
    after = scopes.bind name (.ofWord type) ∧ scopes.innermost.get? name = none ∧
      (initial = .absent ∨ HasType (scopes.bind name (.ofWord type)) initial (.ofWord type)) := by
  cases h with
  | declare htype hfree =>
    obtain rfl := htype.ofWord_eq
    exact ⟨rfl, hfree, .inl rfl⟩
  | declareAs htype hfree hinitial =>
    obtain rfl := htype.ofWord_eq
    exact ⟨rfl, hfree, .inr hinitial⟩

theorem BinaryOp.isArithmetic_iff {op : BinaryOp} :
    op.isArithmetic ↔ op ∈ [.add, .subtract, .multiply, .divide] := by
  cases op <;> simp [isArithmetic]

theorem BinaryOp.isComparison_iff {op : BinaryOp} :
    op.isComparison ↔
      op ∈ [.equal, .notEqual, .less, .lessEqual, .greater, .greaterEqual] := by
  cases op <;> simp [isComparison]

theorem BinaryOp.isLogical_iff {op : BinaryOp} : op.isLogical ↔ op ∈ [.and, .or] := by
  cases op <;> simp [isLogical]

theorem BinaryOp.kind_cases {op : BinaryOp} (h : 0 < op.rank) :
    op.isArithmetic ∨ op.isComparison ∨ op.isLogical := by
  cases op with
  | other => simp [rank] at h
  | _ => simp [isArithmetic, isComparison, isLogical]

theorem Expr.operandProblem_eq_nil {allowed : List Ty} {found : Ty} {problem : Problem} :
    operandProblem allowed found problem = [] ↔ found = .unknown ∨ found ∈ allowed := by
  unfold operandProblem
  split <;> simp_all

/-- On operands of known types an operation is right if arithmetic has operands of one type and
logic has truth values. -/
theorem Expr.operationProblems_eq_nil {op : BinaryOp} {left right : Ty} (hleft : left ≠ .unknown)
    (hright : right ≠ .unknown) :
    operationProblems op left right = [] ↔
      (op.isArithmetic → left = right) ∧ (op.isLogical → left = .bool ∧ right = .bool) := by
  cases op <;>
    simp [operationProblems, BinaryOp.isArithmetic, BinaryOp.isLogical, operandProblem, hleft,
      hright]

namespace HasType

variable {scopes : Scopes Ty} {e : Expr} {t : Ty}

theorem ne_unknown (hknown : Known scopes) (h : HasType scopes e t) : t ≠ .unknown := by
  induction h with
  | int | float | bool | string | not | comparison | logical => simp
  | name hn => exact fun ht => hknown _ (ht ▸ hn)
  | assign _ _ ih | group _ ih | arithmetic _ _ _ ih | negate _ _ ih => exact ih

theorem type_eq (h : HasType scopes e t) : e.type scopes = t := by
  induction h with
  | int | float | bool | string | not => rfl
  | name hn => simp [Expr.type, hn]
  | assign htarget => simp [Expr.type, htarget]
  | group _ ih => exact ih
  | negate _ _ ih => exact ih
  | arithmetic hop _ _ ihleft =>
    rw [Expr.type, if_pos (BinaryOp.isArithmetic_iff.mpr hop), ihleft]
  | @comparison op _ _ _ _ hop =>
    cases op <;> simp at hop <;> rfl
  | @logical op _ _ hop =>
    cases op <;> simp at hop <;> rfl

theorem problems_nil (hknown : Known scopes) (h : HasType scopes e t) :
    e.problems scopes = [] := by
  induction h with
  | int | float | bool | string => rfl
  | name hn => simp [Expr.problems, hn]
  | assign htarget hvalue ih =>
    simp [Expr.problems, htarget, ih, hvalue.type_eq, Expr.operandProblem_eq_nil]
  | group _ ih => exact ih
  | negate hoperand ht ih =>
    simp [Expr.problems, ih, hoperand.type_eq, Expr.operandProblem_eq_nil, ht]
  | not hoperand ih => simp [Expr.problems, ih, hoperand.type_eq, Expr.operandProblem_eq_nil]
  | @arithmetic op left right t hop hleft hright ihleft ihright =>
    have ht := hleft.ne_unknown hknown
    rw [Expr.problems, ihleft, ihright, hleft.type_eq, hright.type_eq, List.append_nil,
      List.nil_append, Expr.operationProblems_eq_nil ht ht]
    refine ⟨fun _ => rfl, fun hlogical => ?_⟩
    cases op <;> simp_all [BinaryOp.isLogical]
  | @comparison op left right t u hop hleft hright ihleft ihright =>
    rw [Expr.problems, ihleft, ihright, hleft.type_eq, hright.type_eq, List.append_nil,
      List.nil_append,
      Expr.operationProblems_eq_nil (hleft.ne_unknown hknown) (hright.ne_unknown hknown)]
    cases op <;> simp_all [BinaryOp.isLogical, BinaryOp.isArithmetic]
  | @logical op left right hop hleft hright ihleft ihright =>
    rw [Expr.problems, ihleft, ihright, hleft.type_eq, hright.type_eq, List.append_nil,
      List.nil_append, Expr.operationProblems_eq_nil (by decide) (by decide)]
    exact ⟨fun _ => rfl, fun _ => ⟨rfl, rfl⟩⟩

end HasType

/-- An expression of the grammar with which nothing is wrong has the type that the checker gives
it. -/
theorem hasType_type {scopes : Scopes Ty} (hknown : Known scopes) {e : Expr} (hwf : e.WellFormed)
    (h : e.problems scopes = []) : HasType scopes e (e.type scopes) := by
  induction e with
  | absent => exact hwf.elim
  | literal kind text =>
    cases kind with
    | int => exact .int text
    | float => exact .float text
    | bool => exact .bool text
    | string => exact .string text
    | other => exact hwf.elim
  | name n =>
    cases hn : scopes.lookup n with
    | none => simp [Expr.problems, hn] at h
    | some t =>
      rw [Expr.type, hn]
      exact .name hn
  | assign target value ih =>
    cases htarget : scopes.lookup target with
    | none => simp [Expr.problems, htarget] at h
    | some t =>
      simp only [Expr.problems, htarget, List.append_eq_nil_iff, Expr.operandProblem_eq_nil,
        List.mem_singleton] at h
      have hvalue := ih hwf h.1
      rw [h.2.resolve_left (hvalue.ne_unknown hknown)] at hvalue
      rw [Expr.type, htarget]
      exact .assign htarget hvalue
  | group inner ih => exact .group (ih hwf h)
  | unary op operand ih =>
    obtain ⟨hop, hoperand, -⟩ := hwf
    obtain ⟨hnil, hproblem⟩ := List.append_eq_nil_iff.mp h
    have htyped := ih hoperand hnil
    have hne := htyped.ne_unknown hknown
    rcases hop with rfl | rfl
    · rw [Expr.operandProblem_eq_nil] at hproblem
      have hnumber : operand.type scopes = .int ∨ operand.type scopes = .float := by
        simpa using hproblem.resolve_left hne
      exact .negate htyped hnumber
    · rw [Expr.operandProblem_eq_nil, List.mem_singleton] at hproblem
      rw [hproblem.resolve_left hne] at htyped
      exact .not htyped
  | binary op left right ihleft ihright =>
    obtain ⟨hrank, hleft, hright, -⟩ := hwf
    simp only [Expr.problems, List.append_eq_nil_iff] at h
    obtain ⟨⟨hleftNil, hrightNil⟩, hproblem⟩ := h
    have htl := ihleft hleft hleftNil
    have htr := ihright hright hrightNil
    rw [Expr.operationProblems_eq_nil (htl.ne_unknown hknown) (htr.ne_unknown hknown)] at hproblem
    rcases BinaryOp.kind_cases hrank with hop | hop | hop
    · rw [← hproblem.1 hop] at htr
      rw [Expr.type, if_pos hop]
      exact .arithmetic (BinaryOp.isArithmetic_iff.mp hop) htl htr
    · have hcomparison := HasType.comparison (BinaryOp.isComparison_iff.mp hop) htl htr
      rwa [hcomparison.type_eq]
    · obtain ⟨hl, hr⟩ := hproblem.2 hop
      rw [hl] at htl
      rw [hr] at htr
      have hlogical := HasType.logical (BinaryOp.isLogical_iff.mp hop) htl htr
      rwa [hlogical.type_eq]

/-- The types of the rules are those that the checker finds. -/
theorem hasType_iff {scopes : Scopes Ty} (hknown : Known scopes) {e : Expr} (hwf : e.WellFormed)
    {t : Ty} : HasType scopes e t ↔ e.problems scopes = [] ∧ e.type scopes = t := by
  constructor
  · exact fun h => ⟨h.problems_nil hknown, h.type_eq⟩
  · rintro ⟨h, rfl⟩
    exact hasType_type hknown hwf h

theorem conditionProblems_eq_nil {scopes : Scopes Ty} (hknown : Known scopes) {e : Expr}
    (hwf : e.WellFormed) (statement : Conditioned) :
    e.conditionProblems scopes statement = [] ↔ HasType scopes e .bool := by
  rw [hasType_iff hknown hwf, Expr.conditionProblems, List.append_eq_nil_iff]
  simp

theorem optionalCondition_eq_nil {scopes : Scopes Ty} (hknown : Known scopes) {e : Expr}
    (hwf : e.OptionalWellFormed) (statement : Conditioned) :
    (if e.isAbsent then [] else e.conditionProblems scopes statement) = [] ↔
      e = .absent ∨ HasType scopes e .bool := by
  rcases hwf with rfl | hwf
  · simp [Expr.isAbsent]
  · rw [hwf.isAbsent, if_neg (by simp), conditionProblems_eq_nil hknown hwf]
    refine ⟨.inr, fun h => h.resolve_left ?_⟩
    rintro rfl
    exact hwf.elim

theorem optionalProblems_eq_nil {scopes : Scopes Ty} (hknown : Known scopes) {e : Expr}
    (hwf : e.OptionalWellFormed) :
    e.problems scopes = [] ↔ e = .absent ∨ ∃ t, HasType scopes e t := by
  rcases hwf with rfl | hwf
  · simp [Expr.problems]
  · constructor
    · exact fun h => .inr ⟨_, hasType_type hknown hwf h⟩
    · rintro (rfl | ⟨t, h⟩)
      · exact hwf.elim
      · exact h.problems_nil hknown

/-! ### Scopes around statements -/

mutual

/-- A statement changes no frame but the innermost. -/
theorem Stmt.check_outer (scopes : Scopes Ty) : (s : Stmt) → (s.check scopes).1.outer = scopes.outer
  | .absent => by rw [Stmt.check]
  | .declare type name initial => by
    rw [Stmt.check, Scopes.declare?]
    split
    · rfl
    · next hdeclare =>
      split at hdeclare
      · cases hdeclare
      · cases hdeclare
        rfl
  | .print _ => by rw [Stmt.check]
  | .expression _ => by rw [Stmt.check]
  | .block body => by
    rw [Stmt.check, Scopes.pop_of_outer (Stmt.checkAll_outer scopes.push body)]
  | .ifElse _ consequent alternative => by
    rw [Stmt.check, Stmt.check_outer _ alternative, Stmt.check_outer _ consequent]
  | .whileLoop _ body => by rw [Stmt.check, Stmt.check_outer _ body]
  | .forLoop initial _ _ body => by
    rw [Stmt.check, Scopes.pop_of_outer]
    rw [Stmt.check_outer _ body, Stmt.check_outer _ initial]
    rfl

theorem Stmt.checkAll_outer (scopes : Scopes Ty) :
    (ss : List Stmt) → (Stmt.checkAll scopes ss).1.outer = scopes.outer
  | [] => by rw [Stmt.checkAll]
  | s :: ss => by rw [Stmt.checkAll, Stmt.checkAll_outer _ ss, Stmt.check_outer _ s]

end

/-- A statement that is no declaration leaves the scopes as they are. -/
theorem Stmt.check_of_not_declare (scopes : Scopes Ty) :
    (s : Stmt) → s.WellFormed → s.isDeclare = false → (s.check scopes).1 = scopes
  | .absent, hwf, _ => by simp [Stmt.WellFormed] at hwf
  | .declare _ _ _, _, hs => by cases hs
  | .print _, _, _ => by rw [Stmt.check]
  | .expression _, _, _ => by rw [Stmt.check]
  | .block body, _, _ => by
    rw [Stmt.check]
    exact Scopes.pop_of_outer (Stmt.checkAll_outer scopes.push body)
  | .ifElse _ consequent alternative, hwf, _ => by
    rw [Stmt.WellFormed] at hwf
    obtain ⟨-, hconsequent, hnot, halternative⟩ := hwf
    rw [Stmt.check, Stmt.check_of_not_declare scopes consequent hconsequent hnot]
    rcases halternative with rfl | ⟨halternative, hnot', -⟩
    · rw [Stmt.check]
    · exact Stmt.check_of_not_declare scopes alternative halternative hnot'
  | .whileLoop _ body, hwf, _ => by
    rw [Stmt.WellFormed] at hwf
    rw [Stmt.check]
    exact Stmt.check_of_not_declare scopes body hwf.2.1 hwf.2.2
  | .forLoop initial _ _ body, _, _ => by
    rw [Stmt.check]
    exact Scopes.pop_of_outer (by rw [Stmt.check_outer _ body, Stmt.check_outer _ initial]; rfl)

/-- A declared name has a known type. -/
theorem Stmt.check_known {scopes : Scopes Ty} (hknown : Known scopes) {s : Stmt}
    (hwf : s.WellFormed) : Known (s.check scopes).1 := by
  by_cases hs : s.isDeclare = true
  · cases s with
    | declare type name initial =>
      rw [Stmt.WellFormed] at hwf
      rw [Stmt.check, Scopes.declare?]
      by_cases hfree : scopes.innermost.binds name
      · rw [if_pos hfree]
        exact hknown
      · rw [if_neg hfree]
        exact hknown.bind (Ty.ofWord_ne_unknown hwf.1) name
    | _ => cases hs
  · rw [Stmt.check_of_not_declare scopes s hwf (by simpa using hs)]
    exact hknown

/-! ### The checker decides the rules -/

theorem Stmt.declare_wellTyped_iff {scopes after : Scopes Ty} (hknown : Known scopes)
    {type name : String} {initial : Expr} (hwf : (Stmt.declare type name initial).WellFormed) :
    (Stmt.declare type name initial).WellTyped scopes after ↔
      (Stmt.declare type name initial).check scopes = (after, []) := by
  rw [Stmt.WellFormed] at hwf
  obtain ⟨htype, hinitial⟩ := hwf
  have hinside := hknown.bind (Ty.ofWord_ne_unknown htype) name
  rw [Stmt.check, Scopes.declare?]
  by_cases hfree : scopes.innermost.binds name = true
  · rw [if_pos hfree]
    constructor
    · intro h
      obtain ⟨-, hnone, -⟩ := h.of_declare
      simp [Frame.binds, hnone] at hfree
    · intro h
      cases h
  · rw [if_neg hfree]
    have hnone : scopes.innermost.get? name = none := by simpa [Frame.binds] using hfree
    simp only [Prod.mk.injEq, List.append_eq_nil_iff, Expr.operandProblem_eq_nil,
      List.mem_singleton]
    constructor
    · intro h
      obtain ⟨rfl, -, rfl | hvalue⟩ := h.of_declare
      · exact ⟨rfl, rfl, .inl rfl⟩
      · exact ⟨rfl, hvalue.problems_nil hinside, .inr hvalue.type_eq⟩
    · rintro ⟨rfl, hproblems, hmatch⟩
      rcases hinitial with rfl | hinitial
      · exact .declare (isWordFor_ofWord htype) hnone
      · have hvalue := hasType_type hinside hinitial hproblems
        rw [hmatch.resolve_left (hvalue.ne_unknown hinside)] at hvalue
        exact .declareAs (isWordFor_ofWord htype) hnone hvalue

theorem Stmt.absent_clauseWellTyped_iff {scopes after : Scopes Ty} :
    Stmt.ClauseWellTyped scopes .absent after ↔ Stmt.absent.check scopes = (after, []) := by
  rw [Stmt.check, Prod.mk.injEq]
  constructor
  · intro h
    cases h with
    | absent => exact ⟨rfl, rfl⟩
    | present hs => cases hs
  · rintro ⟨rfl, -⟩
    exact .absent scopes

theorem Stmt.clauseWellTyped_iff {scopes after : Scopes Ty} {s : Stmt} (hwf : s.WellFormed) :
    Stmt.ClauseWellTyped scopes s after ↔ s.WellTyped scopes after := by
  constructor
  · intro h
    cases h with
    | absent => simp [Stmt.WellFormed] at hwf
    | present hs => exact hs
  · exact .present

theorem Stmt.wellTyped_iff_of_same {scopes : Scopes Ty} {s : Stmt}
    (hsame : (s.check scopes).1 = scopes)
    (h : s.WellTyped scopes scopes ↔ s.check scopes = (scopes, [])) :
    s.WellTyped scopes scopes ↔ (s.check scopes).2 = [] := by
  rw [h]
  exact ⟨congrArg Prod.snd, fun hnil => Prod.ext hsame hnil⟩

mutual

/-- A statement of the grammar is well typed exactly if the checker finds nothing wrong with it; the
scopes behind it are those that the checker goes on with. -/
theorem Stmt.wellTyped_iff {scopes after : Scopes Ty} (hknown : Known scopes) :
    (s : Stmt) → s.WellFormed → (s.WellTyped scopes after ↔ s.check scopes = (after, []))
  | .absent, hwf => by simp [Stmt.WellFormed] at hwf
  | .declare type name initial, hwf => Stmt.declare_wellTyped_iff hknown hwf
  | .print value, hwf => by
    rw [Stmt.WellFormed] at hwf
    rw [Stmt.check, Prod.mk.injEq]
    constructor
    · rintro (_ | _)
      exact ⟨rfl, HasType.problems_nil hknown ‹_›⟩
    · rintro ⟨rfl, h⟩
      exact .print (hasType_type hknown hwf h)
  | .expression value, hwf => by
    rw [Stmt.WellFormed] at hwf
    rw [Stmt.check, Prod.mk.injEq]
    constructor
    · rintro (_ | _)
      exact ⟨rfl, HasType.problems_nil hknown ‹_›⟩
    · rintro ⟨rfl, h⟩
      exact .expression (hasType_type hknown hwf h)
  | .block body, hwf => by
    rw [Stmt.WellFormed] at hwf
    rw [Stmt.check, Scopes.pop_of_outer (Stmt.checkAll_outer scopes.push body), Prod.mk.injEq]
    constructor
    · rintro (_ | _)
      next hbody =>
      rw [(Stmt.wellTypedAll_iff hknown.push body hwf).mp hbody]
      exact ⟨rfl, rfl⟩
    · rintro ⟨rfl, h⟩
      exact .block ((Stmt.wellTypedAll_iff hknown.push body hwf).mpr (Prod.ext rfl h))
  | .ifElse condition consequent alternative, hwf => by
    rw [Stmt.WellFormed] at hwf
    obtain ⟨hcondition, hconsequent, hnot, halternative⟩ := hwf
    have hsame := Stmt.check_of_not_declare scopes consequent hconsequent hnot
    have hfirst :=
      Stmt.wellTyped_iff_of_same hsame (Stmt.wellTyped_iff hknown consequent hconsequent)
    rw [Stmt.check, hsame, Prod.mk.injEq, List.append_eq_nil_iff, List.append_eq_nil_iff,
      conditionProblems_eq_nil hknown hcondition, ← hfirst]
    rcases halternative with rfl | ⟨halternative, hnot', -⟩
    · rw [Stmt.check]
      constructor
      · intro h
        cases h with
        | ifThen hc hthen => exact ⟨rfl, ⟨hc, hthen⟩, rfl⟩
        | ifElse _ _ helse => cases helse
      · rintro ⟨rfl, ⟨hc, hthen⟩, -⟩
        exact .ifThen hc hthen
    · have hsame' := Stmt.check_of_not_declare scopes alternative halternative hnot'
      have hsecond :=
        Stmt.wellTyped_iff_of_same hsame' (Stmt.wellTyped_iff hknown alternative halternative)
      rw [hsame', ← hsecond]
      constructor
      · intro h
        cases h with
        | ifThen _ _ => simp [Stmt.WellFormed] at halternative
        | ifElse hc hthen helse => exact ⟨rfl, ⟨hc, hthen⟩, helse⟩
      · rintro ⟨rfl, ⟨hc, hthen⟩, helse⟩
        exact .ifElse hc hthen helse
  | .whileLoop condition body, hwf => by
    rw [Stmt.WellFormed] at hwf
    obtain ⟨hcondition, hbody, hnot⟩ := hwf
    have hsame := Stmt.check_of_not_declare scopes body hbody hnot
    rw [Stmt.check, hsame, Prod.mk.injEq, List.append_eq_nil_iff,
      conditionProblems_eq_nil hknown hcondition,
      ← Stmt.wellTyped_iff_of_same hsame (Stmt.wellTyped_iff hknown body hbody)]
    constructor
    · intro h
      cases h with
      | whileLoop hc hb => exact ⟨rfl, hc, hb⟩
    · rintro ⟨rfl, hc, hb⟩
      exact .whileLoop hc hb
  | .forLoop initial condition increment body, hwf => by
    rw [Stmt.WellFormed] at hwf
    obtain ⟨hinitial, hcondition, hincrement, hbody, hnot⟩ := hwf
    have hclause : ∀ inner, Stmt.ClauseWellTyped scopes.push initial inner ↔
        initial.check scopes.push = (inner, []) := by
      intro inner
      rcases hinitial with rfl | ⟨hinitial, -⟩
      · exact Stmt.absent_clauseWellTyped_iff
      · rw [Stmt.clauseWellTyped_iff hinitial, Stmt.wellTyped_iff hknown.push initial hinitial]
    have hinner : Known (initial.check scopes.push).1 := by
      rcases hinitial with rfl | ⟨hinitial, -⟩
      · rw [Stmt.check]
        exact hknown.push
      · exact Stmt.check_known hknown.push hinitial
    have hsame := Stmt.check_of_not_declare (initial.check scopes.push).1 body hbody hnot
    have hbodyTyped := Stmt.wellTyped_iff_of_same hsame (Stmt.wellTyped_iff hinner body hbody)
    have hpop : (initial.check scopes.push).1.pop = scopes :=
      Scopes.pop_of_outer (Stmt.check_outer _ initial)
    rw [Stmt.check, hsame, hpop, Prod.mk.injEq]
    simp only [List.append_eq_nil_iff]
    rw [optionalCondition_eq_nil hinner hcondition, ← hbodyTyped,
      optionalProblems_eq_nil hinner hincrement]
    constructor
    · intro h
      cases h with
      | forLoop hi hc hb hn =>
        rw [(hclause _).mp hi]
        exact ⟨rfl, ⟨⟨rfl, hc⟩, hb⟩, hn⟩
    · rintro ⟨rfl, ⟨⟨hi, hc⟩, hb⟩, hn⟩
      exact .forLoop ((hclause _).mpr (Prod.ext rfl hi)) hc hb hn

theorem Stmt.wellTypedAll_iff {scopes after : Scopes Ty} (hknown : Known scopes) :
    (ss : List Stmt) → Stmt.AllWellFormed ss →
      (Stmt.WellTypedAll scopes ss after ↔ Stmt.checkAll scopes ss = (after, []))
  | [], _ => by
    rw [Stmt.checkAll, Prod.mk.injEq]
    constructor
    · rintro (_ | _)
      exact ⟨rfl, rfl⟩
    · rintro ⟨rfl, -⟩
      exact .nil scopes
  | s :: ss, hwf => by
    obtain ⟨hs, hss⟩ := hwf
    have hbetween := Stmt.check_known hknown hs
    have hothers : ∀ after, Stmt.WellTypedAll (s.check scopes).1 ss after ↔
        Stmt.checkAll (s.check scopes).1 ss = (after, []) :=
      fun _ => Stmt.wellTypedAll_iff hbetween ss hss
    rw [Stmt.checkAll, Prod.mk.injEq, List.append_eq_nil_iff]
    constructor
    · intro h
      cases h with
      | cons hfirst hmore =>
        have hcheck := (Stmt.wellTyped_iff hknown s hs).mp hfirst
        rw [hcheck] at hothers ⊢
        rw [(hothers _).mp hmore]
        exact ⟨rfl, rfl, rfl⟩
    · rintro ⟨rfl, hfirst, hmore⟩
      exact .cons ((Stmt.wellTyped_iff hknown s hs).mpr (Prod.ext rfl hfirst))
        ((hothers _).mpr (Prod.ext rfl hmore))

end

/-- Reporting an undeclared name only once does not silence a problem altogether. -/
theorem reportOnce_eq_nil {ps : List Problem} : reportOnce [] ps = [] ↔ ps = [] := by
  cases ps with
  | nil => simp [reportOnce]
  | cons p ps => cases p <;> simp [reportOnce]

theorem analyze_eq_nil {p : Program} : analyze p = [] ↔ (Stmt.checkAll .initial p).2 = [] := by
  rw [analyze, List.map_eq_nil_iff, problems, reportOnce_eq_nil]

/-- Nothing is reported about a parsed program exactly if it is well typed. -/
theorem analyze_eq_nil_iff_wellTyped {ts : List Token} {p : Program} (h : parse ts = .ok p) :
    analyze p = [] ↔ WellTyped p := by
  have hiff : ∀ after, Stmt.WellTypedAll .initial p after ↔
      Stmt.checkAll .initial p = (after, []) :=
    fun _ => Stmt.wellTypedAll_iff Known.initial p (parse_wellFormed h)
  rw [analyze_eq_nil]
  constructor
  · exact fun hnil => ⟨_, (hiff _).mpr (Prod.ext rfl hnil)⟩
  · rintro ⟨after, htyped⟩
    rw [(hiff after).mp htyped]

/-- `lutaw x; alang (tibuok x = 0; x < 3; x = x + 1) { lutaw x = -x; imprentaGawas x == 1; }` is
well typed, each name having the type of its innermost declaration; `ug (y) y + y;` is not, although
nothing is said about the operands of unknown type. -/
theorem analyze_shadowing_loop :
    let p : Program :=
      [.declare "lutaw" "x" .absent,
        .forLoop (.declare "tibuok" "x" (.literal .int "0"))
          (.binary .less (.name "x") (.literal .int "3"))
          (.assign "x" (.binary .add (.name "x") (.literal .int "1")))
          (.block [.declare "lutaw" "x" (.unary .negate (.name "x")),
            .print (.binary .equal (.name "x") (.literal .int "1"))])]
    let q : Program :=
      [.ifElse (.name "y") (.expression (.binary .add (.name "y") (.name "y"))) .absent]
    let tokens (r : Program) : List Token := (unparse r).map fun l => ⟨l.1, l.2, some .start⟩
    parse (tokens p) = .ok p ∧ analyze p = [] ∧ WellTyped p ∧
      parse (tokens q) = .ok q ∧ analyze q ≠ [] ∧ ¬WellTyped q := by
  intro p q tokens
  have hp : parse (tokens p) = .ok p := by rfl
  have hq : parse (tokens q) = .ok q := by rfl
  have hclean : analyze p = [] := by decide
  have hreported : analyze q ≠ [] := by decide
  exact ⟨hp, hclean, (analyze_eq_nil_iff_wellTyped hp).mp hclean, hq, hreported,
    fun htyped => hreported ((analyze_eq_nil_iff_wellTyped hq).mpr htyped)⟩

end Binisaya
