import Binisaya.Proofs.Lowering.Growth
import Binisaya.Proofs.Typing.Judgement

/-!
# Lowering well-typed expressions

Where the variables have the types that the checker knows, the code of an expression has the type of
the expression.  It may still be that there is no such code: the types admit operations on texts and
truth values that have none.  `Unsupported` are the failures that this leaves; not among them are an
unknown name and a store in a slot of another type.
-/

namespace Binisaya

open Llvm

theorem Ty.zero_type {t : Ty} (h : t ≠ .unknown) : t.zero.type = t.valueType := by
  cases t with
  | unknown => exact absurd rfl h
  | _ => rfl

/-- The failures that are due to an operation or a literal without code. -/
def LoweringFailure.Unsupported : LoweringFailure → Prop
  | .error (.unsupportedArithmetic _ _) => True
  | .error .stringComparison => True
  | .error (.incomparable _ _) => True
  | .error (.floatLiteral _ _) => True
  | _ => False

namespace Lowering

/-- From every state, these steps give a result as described or fail for want of code. -/
def Yields {α : Type} (f : Lower α) (result : α → Prop) : Prop :=
  ∀ b, match f b with
    | .ok (a, _) => result a
    | .error e => e.Unsupported

namespace Yields

variable {α β : Type}

theorem pure {result : α → Prop} {a : α} (h : result a) : Yields (Pure.pure a : Lower α) result :=
  fun _ => h

theorem fail {result : α → Prop} {cause : LoweringError}
    (h : (LoweringFailure.error cause).Unsupported) :
    Yields (Lowering.fail cause : Lower α) result :=
  fun _ => h

theorem bind {f : Lower α} {g : α → Lower β} {first : α → Prop} {second : β → Prop}
    (hf : Yields f first) (hg : ∀ a, first a → Yields (g a) second) : Yields (f >>= g) second := by
  intro b
  have hfb := hf b
  cases hrun : f b with
  | error e =>
    rw [hrun] at hfb
    rw [Lower.bind_of_error hrun]
    exact hfb
  | ok x =>
    rw [hrun] at hfb
    rw [Lower.bind_of_ok hrun]
    exact hg x.1 hfb x.2

theorem mono {f : Lower α} {first second : α → Prop} (hf : Yields f first)
    (h : ∀ a, first a → second a) : Yields f second := by
  intro b
  have hfb := hf b
  cases hrun : f b with
  | error e =>
    rw [hrun] at hfb
    exact hfb
  | ok x =>
    rw [hrun] at hfb
    exact h x.1 hfb

theorem of_ok {f : Lower α} {result : α → Prop} (hf : Yields f result) {b b' : Builder} {a : α}
    (h : f b = .ok (a, b')) : result a := by
  have hfb := hf b
  rw [h] at hfb
  exact hfb

theorem of_error {f : Lower α} {result : α → Prop} (hf : Yields f result) {b : Builder}
    {e : LoweringFailure} (h : f b = .error e) : e.Unsupported := by
  have hfb := hf b
  rw [h] at hfb
  exact hfb

end Yields

theorem emit_yields (ins : Instr) (type : ValueType) :
    Yields (emit ins type) fun v => v.type = type :=
  fun _ => rfl

theorem perform_yields (ins : Instr) : Yields (perform ins) fun _ => True := fun _ => trivial

theorem addBlock_yields (role : Role) : Yields (addBlock role) fun _ => True := fun _ => trivial

theorem leave_yields {g : Guard} (t : Terminator) (next : Nat) :
    Yields (leave g t next) fun _ => True :=
  fun _ => trivial

theorem store_yields {value slot : Operand} (h : slot.type = .pointer value.type) :
    Yields (store value slot) fun _ => True := by
  unfold store
  rw [if_pos h]
  exact perform_yields _

/-! ### Expressions -/

/-- A value of a type. -/
def Typed.HasType (v : Typed) (t : Ty) : Prop := v.type = t ∧ v.operand.type = t.valueType

/-- Where types agree nothing is widened. -/
theorem widen_of_type_eq {v : Typed} {target : Ty} (h : v.type = target) :
    widen v target = pure v.operand := by
  subst h
  unfold widen
  cases v.type <;> rfl

theorem compute_yields (op : Operation) (left right : Operand) {t : Ty}
    (h : left.type = t.valueType) : Yields (compute op left right t) (·.HasType t) :=
  (emit_yields _ _).bind fun _ hv => .pure ⟨rfl, hv.trans h⟩

theorem widen_yields (v : Typed) (target : Ty) : Yields (widen v target) fun _ => True := by
  unfold widen
  split
  · exact (emit_yields _ _).mono fun _ _ => trivial
  · exact (emit_yields _ _).mono fun _ _ => trivial
  · exact (emit_yields _ _).mono fun _ _ => trivial
  · exact .pure trivial

theorem compare_yields (how : Comparison) (left right : Typed) :
    Yields (compare how left right) (·.HasType .bool) := by
  unfold compare
  split
  · split
    · exact (widen_yields _ _).bind fun _ _ => (widen_yields _ _).bind fun _ _ =>
        (emit_yields _ _).bind fun _ hv => .pure ⟨rfl, hv⟩
    · exact .fail trivial
  · split
    · exact .fail trivial
    · split
      · exact (emit_yields _ _).bind fun _ hv => .pure ⟨rfl, hv⟩
      · split
        · exact (widen_yields _ _).bind fun _ _ => (widen_yields _ _).bind fun _ _ =>
            (emit_yields _ _).bind fun _ hv => .pure ⟨rfl, hv⟩
        · exact .fail trivial

theorem arithmetic_yields (op : BinaryOp) {left right : Typed} {t : Ty} (hleft : left.HasType t)
    (hright : right.HasType t) : Yields (arithmetic op left right) (·.HasType t) := by
  unfold arithmetic
  rw [if_neg (by simp [hleft.1, hright.1]), hleft.1]
  split
  · exact compute_yields _ _ _ hleft.2
  · exact .fail trivial

theorem binary_of_arithmetic {op : BinaryOp} (h : op ∈ [.add, .subtract, .multiply, .divide])
    (left right : Typed) : binary op left right = arithmetic op left right := by
  cases op <;> simp at h <;> rfl

theorem binary_of_comparison {op : BinaryOp}
    (h : op ∈ [.equal, .notEqual, .less, .lessEqual, .greater, .greaterEqual]) :
    ∃ how, comparison? op = some how ∧
      ∀ left right, binary op left right = compare how left right := by
  cases op <;> simp at h <;> exact ⟨_, rfl, fun _ _ => rfl⟩

/-- The operation that an operator on truth values stands for. -/
theorem binary_of_logical {op : BinaryOp} (h : op ∈ [.and, .or]) {left right : Typed}
    (hleft : left.type = .bool) (hright : right.type = .bool) :
    binary op left right =
      compute (if op = .and then .and else .or) left.operand right.operand .bool := by
  unfold binary
  cases op <;> simp at h <;> simp [comparison?, BinaryOp.isArithmetic, hleft, hright]

/-- Every name that the checker knows stands for a variable of the type that the checker knows. -/
def EnvTyped (env : Environment) (types : Scopes Ty) : Prop :=
  ∀ name t, types.lookup name = some t →
    ∃ v, env.lookup name = some v ∧ v.type = t ∧ v.slot.type = .pointer t.valueType

theorem resolve_yields {env : Environment} {types : Scopes Ty} (henv : EnvTyped env types)
    {name : String} {t : Ty} (h : types.lookup name = some t) :
    Yields (resolve env name) fun v => v.type = t ∧ v.slot.type = .pointer t.valueType := by
  obtain ⟨v, hv, htype⟩ := henv name t h
  unfold resolve
  rw [hv]
  exact .pure htype

/-- The code of a well-typed expression has the type of the expression. -/
theorem lower_yields {env : Environment} {types : Scopes Ty} (henv : EnvTyped env types) {e : Expr}
    {t : Ty} (htype : Binisaya.HasType types e t) (hwf : e.WellFormed) :
    Yields (e.lower env) (·.HasType t) := by
  induction htype with
  | int text =>
    simp only [Expr.lower, literal]
    simp only [Expr.WellFormed, Expr.LiteralAllowed] at hwf
    split
    · exact .pure ⟨rfl, rfl⟩
    · next hread =>
      rw [hread] at hwf
      cases hwf
  | float text =>
    simp only [Expr.lower, literal]
    split
    · exact .pure ⟨rfl, rfl⟩
    · exact .fail trivial
  | bool text => exact .pure ⟨rfl, rfl⟩
  | string text => exact fun _ => ⟨rfl, rfl⟩
  | name hn =>
    refine (resolve_yields henv hn).bind fun v hv => (emit_yields _ _).bind fun w hw => .pure ?_
    exact ⟨hv.1, hv.1 ▸ hw⟩
  | assign htarget _ ih =>
    refine (resolve_yields henv htarget).bind fun v hv => (ih hwf).bind fun given hgiven => ?_
    rw [widen_of_type_eq (hgiven.1.trans hv.1.symm), pure_bind]
    refine (store_yields ?_).bind fun _ _ => .pure ⟨hv.1, hgiven.2⟩
    rw [hv.2, hgiven.2]
  | group _ ih => exact ih hwf
  | negate _ ht ih =>
    refine (ih hwf.2.1).bind fun v hv => ?_
    unfold unary
    rcases ht with rfl | rfl
    · rw [hv.1]
      exact compute_yields _ _ _ rfl
    · rw [hv.1]
      exact compute_yields _ _ _ rfl
  | not _ ih =>
    refine (ih hwf.2.1).bind fun v hv => ?_
    unfold unary
    rw [hv.1]
    exact compute_yields _ _ _ hv.2
  | arithmetic hop _ _ ihleft ihright =>
    refine (ihleft hwf.2.1).bind fun l hl => (ihright hwf.2.2.1).bind fun r hr => ?_
    rw [binary_of_arithmetic hop]
    exact arithmetic_yields _ hl hr
  | comparison hop _ _ ihleft ihright =>
    refine (ihleft hwf.2.1).bind fun l _ => (ihright hwf.2.2.1).bind fun r _ => ?_
    obtain ⟨how, -, hbinary⟩ := binary_of_comparison hop
    rw [hbinary]
    exact compare_yields how l r
  | logical hop _ _ ihleft ihright =>
    refine (ihleft hwf.2.1).bind fun l hl => (ihright hwf.2.2.1).bind fun r hr => ?_
    rw [binary_of_logical hop hl.1 hr.1]
    exact compute_yields _ _ _ hl.2

/-! ### Parts of statements -/

theorem initialValue_yields {env : Environment} {types : Scopes Ty} (henv : EnvTyped env types)
    {t : Ty} (ht : t ≠ .unknown) {initial : Expr} (hwf : initial.OptionalWellFormed)
    (htype : initial = .absent ∨ Binisaya.HasType types initial t) :
    Yields (initialValue env t initial) fun v => v.type = t.valueType := by
  unfold initialValue
  rcases hwf with rfl | hwf
  · exact .pure (Ty.zero_type ht)
  · rw [hwf.isAbsent, if_neg (by simp)]
    have htype' : Binisaya.HasType types initial t := by
      refine htype.resolve_left ?_
      rintro rfl
      exact hwf
    refine (lower_yields henv htype' hwf).bind fun v hv => ?_
    rw [widen_of_type_eq hv.1]
    exact .pure hv.2

theorem print_yields {v : Typed} {t : Ty} (hv : v.HasType t) (ht : t ≠ .unknown) :
    Yields (print v) fun _ => True := by
  unfold print
  rw [hv.1]
  cases t with
  | unknown => exact absurd rfl ht
  | bool => exact (emit_yields _ _).bind fun _ _ => perform_yields _
  | _ => exact perform_yields _

theorem openArms_yields {env : Environment} {types : Scopes Ty} (henv : EnvTyped env types)
    {condition : Expr} (hwf : condition.WellFormed) (htype : Binisaya.HasType types condition .bool)
    (hasAlternative : Bool) : Yields (openArms env condition hasAlternative) fun _ => True := by
  unfold openArms
  refine (lower_yields henv htype hwf).bind fun _ _ => (addBlock_yields _).bind fun _ _ =>
    (addBlock_yields _).bind fun endBlock _ => ?_
  have helse : Yields (if hasAlternative then addBlock .ifElse else pure endBlock)
      fun _ => True := by
    split
    · exact addBlock_yields _
    · exact .pure trivial
  exact helse.bind fun _ _ => (leave_yields _ _).bind fun _ _ => .pure trivial

theorem branchOnOptional_yields {env : Environment} {types : Scopes Ty} (henv : EnvTyped env types)
    {condition : Expr} (hwf : condition.OptionalWellFormed)
    (htype : condition = .absent ∨ Binisaya.HasType types condition .bool) (whenTrue whenFalse : Nat) :
    Yields (branchOnOptional env condition whenTrue whenFalse) fun _ => True := by
  unfold branchOnOptional
  rcases hwf with rfl | hwf
  · exact leave_yields _ _
  · rw [hwf.isAbsent, if_neg (by simp)]
    have htype' : Binisaya.HasType types condition .bool := by
      refine htype.resolve_left ?_
      rintro rfl
      exact hwf
    exact (lower_yields henv htype' hwf).bind fun _ _ => leave_yields _ _

theorem openFor_yields {env : Environment} {types : Scopes Ty} (henv : EnvTyped env types)
    {condition : Expr} (hwf : condition.OptionalWellFormed)
    (htype : condition = .absent ∨ Binisaya.HasType types condition .bool) :
    Yields (openFor env condition) fun _ => True := by
  unfold openFor
  exact (addBlock_yields _).bind fun _ _ => (addBlock_yields _).bind fun _ _ =>
    (addBlock_yields _).bind fun _ _ => (addBlock_yields _).bind fun _ _ =>
    (leave_yields _ _).bind fun _ _ =>
    (branchOnOptional_yields henv hwf htype _ _).bind fun _ _ => .pure trivial

theorem openWhile_yields {env : Environment} {types : Scopes Ty} (henv : EnvTyped env types)
    {condition : Expr} (hwf : condition.WellFormed) (htype : Binisaya.HasType types condition .bool) :
    Yields (openWhile env condition) fun _ => True := by
  unfold openWhile branchOn
  exact (addBlock_yields _).bind fun _ _ => (addBlock_yields _).bind fun _ _ =>
    (addBlock_yields _).bind fun _ _ => (leave_yields _ _).bind fun _ _ =>
    ((lower_yields henv htype hwf).bind fun _ _ => leave_yields _ _).bind fun _ _ => .pure trivial

theorem evaluateOptional_yields {env : Environment} {types : Scopes Ty} (henv : EnvTyped env types)
    {e : Expr} (hwf : e.OptionalWellFormed) (htype : e = .absent ∨ ∃ t, Binisaya.HasType types e t) :
    Yields (evaluateOptional env e) fun _ => True := by
  unfold evaluateOptional
  rcases hwf with rfl | hwf
  · exact .pure trivial
  · rw [hwf.isAbsent, if_neg (by simp)]
    rcases htype with rfl | ⟨t, htype⟩
    · exact hwf.elim
    · exact (lower_yields henv htype hwf).bind fun _ _ => .pure trivial

end Lowering

end Binisaya
