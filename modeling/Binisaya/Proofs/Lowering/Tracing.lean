import Binisaya.Proofs.Lowering.Logged
import Binisaya.Proofs.Lowering.ModuleTyping
import Binisaya.Proofs.Lowering.Resolution
import Binisaya.Proofs.Numeral.Pointed

/-!
# Lowering expressions part by part

`Traces` describes steps of lowering with a log against a list of occurrences: if all of them have
code, the steps succeed, leave the main function well typed and log each occurrence with the type
that the checker gives it; otherwise they fail at the first one without code, and have logged those
before it.  Main statement: the lowering of a well-typed expression is so described by the
occurrences of its parts, and its value has the type of the expression.
-/

namespace Binisaya

open Llvm

namespace Lowering

/-! ### Operations on values -/

/-- A value of a type in a module. -/
structure Typed.Fits (v : Typed) (t : Ty) (m : Module) : Prop where
  type : v.type = t
  operand : v.operand.type = t.valueType
  typedIn : v.operand.TypedIn m

theorem Typed.Fits.mono {v : Typed} {t : Ty} {m m' : Module} (h : v.Fits t m) (hgrows : Grows m m') :
    v.Fits t m' :=
  ⟨h.type, h.operand, hgrows.typedIn h.typedIn⟩

section

variable {b : Builder}

/-- A number is widened to any type of larger numbers. -/
theorem widen_succeeds {v : Typed} {t target : Ty} (hv : v.Fits t b.module)
    (h : t = target ∨ (t.isNumeric = true ∧ target = .float) ∨ (t = .char ∧ target = .int)) :
    Succeeds (widen v target) b fun w b' => w.type = target.valueType ∧ w.TypedIn b'.module := by
  by_cases heq : t = target
  · rw [widen_of_type_eq (hv.type.trans heq)]
    exact .pure ⟨heq ▸ hv.operand, hv.typedIn⟩
  · unfold widen
    rw [hv.type]
    rcases h.resolve_left heq with ⟨ht, rfl⟩ | ⟨rfl, rfl⟩
    · cases t with
      | int => exact emit_succeeds ⟨hv.typedIn, by rw [hv.operand]; rfl⟩ rfl
      | char => exact emit_succeeds ⟨hv.typedIn, by rw [hv.operand]; rfl⟩ rfl
      | float => exact absurd rfl heq
      | string | bool | unknown => simp [Ty.isNumeric] at ht
    · exact emit_succeeds ⟨hv.typedIn, by rw [hv.operand]; rfl⟩ rfl

theorem compute_succeeds {op : Operation} {left right : Operand} {t : Ty}
    (hleft : left.TypedIn b.module) (hright : right.TypedIn b.module)
    (hleftType : left.type = t.valueType) (hrightType : right.type = t.valueType)
    (hop : op.accepts t.valueType = true) :
    Succeeds (compute op left right t) b fun v b' => v.Fits t b'.module := by
  have hins : (Instr.operate op left right).WellTyped b.module :=
    ⟨hleft, hright, hleftType.trans hrightType.symm, by rwa [hleftType]⟩
  exact (emit_succeeds hins rfl).bind fun v b' _ hv => .pure ⟨rfl, hv.1.trans hleftType, hv.2⟩

/-- There is an operation for arithmetic on numbers of any type. -/
theorem exists_arithmeticOperation {op : BinaryOp} (hop : op ∈ [.add, .subtract, .multiply, .divide])
    {t : Ty} (ht : t.isNumeric = true) :
    ∃ operation, arithmeticOperation? op t = some operation ∧
      operation.accepts t.valueType = true := by
  cases t with
  | string | bool | unknown => simp [Ty.isNumeric] at ht
  | _ => cases op <;> simp at hop <;> exact ⟨_, rfl, rfl⟩

theorem arithmetic_succeeds {op : BinaryOp} (hop : op ∈ [.add, .subtract, .multiply, .divide])
    {left right : Typed} {t : Ty} (hleft : left.Fits t b.module) (hright : right.Fits t b.module)
    (ht : t.isNumeric = true) :
    Succeeds (arithmetic op left right) b fun v b' => v.Fits t b'.module := by
  obtain ⟨operation, hoperation, haccepts⟩ := exists_arithmeticOperation hop ht
  unfold arithmetic
  rw [if_neg (by simp [hleft.type, hright.type]), hleft.type, hoperation]
  exact compute_succeeds hleft.typedIn hright.typedIn hleft.operand hright.operand haccepts

theorem arithmetic_fails (op : BinaryOp) {left right : Typed} {t : Ty} (hleft : left.type = t)
    (hright : right.type = t) (ht : t = .string ∨ t = .bool) (b : Builder) :
    arithmetic op left right b = .error (.error (.unsupportedArithmetic op t)) := by
  unfold arithmetic
  rw [if_neg (by simp [hleft, hright]), hleft]
  rcases ht with rfl | rfl <;> rfl

/-- Numbers compare, and truth values do. -/
theorem compare_succeeds (how : Comparison) {left right : Typed} {t u : Ty}
    (hleft : left.Fits t b.module) (hright : right.Fits u b.module)
    (h : (t.isNumeric = true ∧ u.isNumeric = true) ∨ (t = .bool ∧ u = .bool)) :
    Succeeds (compare how left right) b fun v b' => v.Fits .bool b'.module := by
  unfold compare
  rw [hleft.type, hright.type]
  by_cases hfloat : t = .float ∨ u = .float
  · have hnumeric : t.isNumeric = true ∧ u.isNumeric = true := by
      rcases h with h | ⟨rfl, rfl⟩
      · exact h
      · simp at hfloat
    rw [if_pos hfloat, if_pos hnumeric]
    refine (widen_succeeds hleft (.inr (.inl ⟨hnumeric.1, rfl⟩))).bind fun l b₁ hgrows₁ hl => ?_
    refine (widen_succeeds (hright.mono hgrows₁) (.inr (.inl ⟨hnumeric.2, rfl⟩))).bind
      fun r b₂ hgrows₂ hr => ?_
    have hins : (Instr.fcmp how l r).WellTyped b₂.module :=
      ⟨hgrows₂.typedIn hl.2, hr.2, hl.1.trans hr.1.symm, hl.1⟩
    exact (emit_succeeds hins rfl).bind fun v b' _ hv => .pure ⟨rfl, hv.1, hv.2⟩
  · have hstring : ¬(t = .string ∨ u = .string) := by
      rcases h with ⟨ht, hu⟩ | ⟨rfl, rfl⟩
      · rintro (rfl | rfl)
        · simp [Ty.isNumeric] at ht
        · simp [Ty.isNumeric] at hu
      · simp
    rw [if_neg hfloat, if_neg hstring]
    by_cases heq : t = u
    · subst heq
      have hinteger : left.operand.type.isInteger = true := by
        rw [hleft.operand]
        cases t with
        | int | char | bool => rfl
        | float => simp at hfloat
        | string => simp at hstring
        | unknown => simp [Ty.isNumeric] at h
      have hins : (Instr.icmp how left.operand right.operand).WellTyped b.module :=
        ⟨hleft.typedIn, hright.typedIn, hleft.operand.trans hright.operand.symm, hinteger⟩
      rw [if_pos rfl]
      exact (emit_succeeds hins rfl).bind fun v b' _ hv => .pure ⟨rfl, hv.1, hv.2⟩
    · have hnumeric : t.isNumeric = true ∧ u.isNumeric = true := by
        rcases h with h | ⟨rfl, rfl⟩
        · exact h
        · exact absurd rfl heq
      have hwidens : ∀ {w : Ty}, w.isNumeric = true → w ≠ .float →
          w = .int ∨ (w.isNumeric = true ∧ Ty.int = .float) ∨ (w = .char ∧ Ty.int = .int) := by
        intro w hw hne
        cases w <;> simp_all [Ty.isNumeric]
      rw [if_neg heq, if_pos hnumeric]
      refine (widen_succeeds hleft (hwidens hnumeric.1 fun ht => hfloat (.inl ht))).bind
        fun l b₁ hgrows₁ hl => ?_
      refine (widen_succeeds (hright.mono hgrows₁)
        (hwidens hnumeric.2 fun hu => hfloat (.inr hu))).bind fun r b₂ hgrows₂ hr => ?_
      have hins : (Instr.icmp how l r).WellTyped b₂.module :=
        ⟨hgrows₂.typedIn hl.2, hr.2, hl.1.trans hr.1.symm, by rw [hl.1]; rfl⟩
      exact (emit_succeeds hins rfl).bind fun v b' _ hv => .pure ⟨rfl, hv.1, hv.2⟩

/-- Texts do not compare, and truth values do not compare with numbers. -/
theorem compare_fails (how : Comparison) {left right : Typed} {t u : Ty} (hleft : left.type = t)
    (hright : right.type = u)
    (h : t = .string ∨ u = .string ∨ (t = .bool ∧ u.isNumeric = true) ∨
      (t.isNumeric = true ∧ u = .bool)) (b : Builder) :
    ∃ e, compare how left right b = .error e ∧ e.Unsupported := by
  have hnumeric : ¬(t.isNumeric = true ∧ u.isNumeric = true) := by
    rintro ⟨ht, hu⟩
    rcases h with rfl | rfl | ⟨rfl, -⟩ | ⟨-, rfl⟩
    · simp [Ty.isNumeric] at ht
    · simp [Ty.isNumeric] at hu
    · simp [Ty.isNumeric] at ht
    · simp [Ty.isNumeric] at hu
  unfold compare
  rw [hleft, hright]
  by_cases hfloat : t = .float ∨ u = .float
  · rw [if_pos hfloat, if_neg hnumeric]
    exact ⟨_, rfl, trivial⟩
  · rw [if_neg hfloat]
    by_cases hstring : t = .string ∨ u = .string
    · rw [if_pos hstring]
      exact ⟨_, rfl, trivial⟩
    · have hne : t ≠ u := by
        rintro rfl
        rcases h with h | h | ⟨rfl, hu⟩ | ⟨ht, rfl⟩
        · exact hstring (.inl h)
        · exact hstring (.inr h)
        · simp [Ty.isNumeric] at hu
        · simp [Ty.isNumeric] at ht
      rw [if_neg hstring, if_neg hne, if_neg hnumeric]
      exact ⟨_, rfl, trivial⟩

end

/-! ### Names -/

/-- If the checker takes a name for a variable, lowering takes it for one of the same type, with a
slot in the module. -/
def Reaches (env : Environment) (types : Scopes Ty) (m : Module) (name : String) : Prop :=
  ∀ t, types.lookup name = some t →
    ∃ v, env.lookup name = some v ∧ v.type = t ∧ v.slot.type = .pointer t.valueType ∧
      v.slot.TypedIn m

theorem Reaches.mono {env : Environment} {types : Scopes Ty} {m m' : Module} {name : String}
    (h : Reaches env types m name) (hgrows : Grows m m') : Reaches env types m' name := by
  intro t ht
  obtain ⟨v, hv, htype, hslot, htyped⟩ := h t ht
  exact ⟨v, hv, htype, hslot, hgrows.typedIn htyped⟩

theorem resolve_succeeds {env : Environment} {types : Scopes Ty} {b : Builder} {name : String}
    (h : Reaches env types b.module name) {t : Ty} (ht : types.lookup name = some t) :
    Succeeds (resolve env name) b fun v b' =>
      v.type = t ∧ v.slot.type = .pointer t.valueType ∧ v.slot.TypedIn b'.module := by
  obtain ⟨v, hv, htype⟩ := h t ht
  unfold resolve
  rw [hv]
  exact .pure htype

/-! ### Steps with a log -/

/-- What the log should hold of some occurrences: those in front of the first without code, each with
the type that the checker gives it. -/
def logged (os : List Occurrence) : Log :=
  (os.takeWhile fun o => !o.lacksCode).map fun o => (o.expr, o.type)

theorem logged_append (os os' : List Occurrence) :
    logged (os ++ os') =
      if os.any Occurrence.lacksCode then logged os else logged os ++ logged os' := by
  induction os with
  | nil => rfl
  | cons o os ih =>
    by_cases ho : o.lacksCode = true
    · simp [logged, ho]
    · simp only [logged, List.cons_append, List.takeWhile_cons, ho, List.any_cons, Bool.not_false,
        if_true, List.map_cons, Bool.false_or] at ih ⊢
      rw [ih]
      split <;> rfl

/-- Taken in a main function that is well typed so far, these steps lower the given occurrences. -/
def Traces {α : Type} (g : Logged α) (os : List Occurrence) (b : Builder)
    (done : α → Builder → Prop) : Prop :=
  b.Sound → ∀ log, ∃ r, g b log = (r, log ++ logged os) ∧
    if os.any Occurrence.lacksCode then ∃ e, r = .error e ∧ e.Unsupported
    else ∃ a b', r = .ok (a, b') ∧ b'.Sound ∧ Grows b.module b'.module ∧ done a b'

namespace Traces

variable {α β : Type} {b : Builder}

theorem pure {a : α} {done : α → Builder → Prop} (h : done a b) :
    Traces (Pure.pure a : Logged α) [] b done := by
  intro hsound log
  refine ⟨.ok (a, b), ?_, a, b, rfl, hsound, .refl _, h⟩
  simp only [logged, List.takeWhile_nil, List.map_nil, List.append_nil]
  rfl

theorem lift {f : Lower α} {done : α → Builder → Prop} (h : Succeeds f b done) :
    Traces (liftM f : Logged α) [] b done := by
  intro hsound log
  obtain ⟨a, b', hrun, hsound', hgrows, hdone⟩ := h hsound
  refine ⟨.ok (a, b'), ?_, a, b', rfl, hsound', hgrows, hdone⟩
  rw [Logged.lift_run, hrun]
  simp [logged]

theorem bind {g : Logged α} {k : α → Logged β} {os os' : List Occurrence}
    {first : α → Builder → Prop} {second : β → Builder → Prop} (hg : Traces g os b first)
    (hk : ∀ a b', Grows b.module b'.module → first a b' → Traces (k a) os' b' second) :
    Traces (g >>= k) (os ++ os') b second := by
  intro hsound log
  obtain ⟨r, hrun, hr⟩ := hg hsound log
  rw [logged_append, List.any_append]
  by_cases hlacks : os.any Occurrence.lacksCode = true
  · rw [if_pos hlacks] at hr ⊢
    obtain ⟨e, rfl, he⟩ := hr
    refine ⟨.error e, Logged.bind_of_error hrun k, ?_⟩
    rw [hlacks, Bool.true_or, if_pos rfl]
    exact ⟨e, rfl, he⟩
  · rw [if_neg hlacks] at hr ⊢
    obtain ⟨a, b₁, rfl, hsound₁, hgrows₁, ha⟩ := hr
    obtain ⟨r', hrun', hr'⟩ := hk a b₁ hgrows₁ ha hsound₁ (log ++ logged os)
    refine ⟨r', ?_, ?_⟩
    · rw [Logged.bind_of_ok hrun k, hrun', List.append_assoc]
    · rw [(Bool.not_eq_true _).mp hlacks, Bool.false_or]
      by_cases hlacks' : os'.any Occurrence.lacksCode = true
      · rw [if_pos hlacks'] at hr' ⊢
        exact hr'
      · rw [if_neg hlacks'] at hr' ⊢
        obtain ⟨c, b₂, hok, hsound₂, hgrows₂, hc⟩ := hr'
        exact ⟨c, b₂, hok, hsound₂, hgrows₁.trans hgrows₂, hc⟩

/-- Behind the last occurrence there may be more to do. -/
theorem bind_last {g : Logged α} {k : α → Logged β} {os : List Occurrence}
    {first : α → Builder → Prop} {second : β → Builder → Prop} (hg : Traces g os b first)
    (hk : ∀ a b', Grows b.module b'.module → first a b' → Traces (k a) [] b' second) :
    Traces (g >>= k) os b second := by
  have hbind := hg.bind hk
  rwa [List.append_nil] at hbind

section

variable {types : Scopes Ty} {e : Expr} {done : Typed → Builder → Prop}

/-- An expression with code is noted with the type that the checker gives it. -/
theorem note (hcode : Occurrence.lacksCode ⟨types, e⟩ = false) {v : Typed}
    (htype : v.type = e.type types) (h : done v b) :
    Traces (Observed.yield logger e v) [⟨types, e⟩] b done := by
  intro hsound log
  refine ⟨.ok (v, b), ?_, ?_⟩
  · simp [Logged.yield_run, logged, hcode, htype, Occurrence.type]
  · simp only [List.any_cons, hcode, List.any_nil, Bool.or_self, Bool.false_eq_true, if_false]
    exact ⟨v, b, rfl, hsound, .refl _, h⟩

/-- An expression with code is lowered and noted. -/
theorem lower {f : Lower Typed} (hcode : Occurrence.lacksCode ⟨types, e⟩ = false)
    (h : Succeeds f b fun v b' => v.type = e.type types ∧ done v b') :
    Traces (liftM f >>= Observed.yield logger e) [⟨types, e⟩] b done :=
  (Traces.lift h).bind fun _ _ _ hv => .note hcode hv.1 hv.2

/-- An expression without code stops the lowering and is not noted. -/
theorem fail {f : Lower Typed} (hlacks : Occurrence.lacksCode ⟨types, e⟩ = true)
    (h : ∃ failure, f b = .error failure ∧ failure.Unsupported) :
    Traces (liftM f >>= Observed.yield logger e) [⟨types, e⟩] b done := by
  intro _ log
  obtain ⟨failure, hrun, hfailure⟩ := h
  refine ⟨.error failure, ?_, ?_⟩
  · rw [Logged.bind_of_error (by rw [Logged.lift_run, hrun])]
    simp [logged, hlacks]
  · rw [List.any_cons, hlacks, Bool.true_or, if_pos rfl]
    exact ⟨failure, rfl, hfailure⟩

end

end Traces

/-! ### Expressions -/

theorem name_traces {env : Environment} {types : Scopes Ty} {b : Builder} {n : String} {t : Ty}
    (hn : types.lookup n = some t) (henv : Reaches env types b.module n) :
    Traces ((Expr.name n).lowerObserved logger env) ((Expr.name n).occurrences types) b fun v b' =>
      v.Fits t b'.module := by
  refine .lower rfl ?_
  refine (resolve_succeeds henv hn).bind fun v b₁ _ hv => ?_
  have hins : (Instr.load v.type.valueType v.slot).WellTyped b₁.module := by
    refine ⟨hv.2.2, ?_⟩
    rw [hv.2.1, hv.1]
  refine (emit_succeeds hins rfl).bind fun w b₂ _ hw => .pure ⟨?_, hv.1, ?_, hw.2⟩
  · rw [hv.1]
    simp [Expr.type, hn]
  · rw [hw.1, hv.1]

theorem float_traces {env : Environment} {types : Scopes Ty} {b : Builder} {text : String}
    (hlegible : Lexeme.Legible (.double, text)) :
    Traces ((Expr.literal .float text).lowerObserved logger env)
      ((Expr.literal .float text).occurrences types) b fun v b' => v.Fits .float b'.module := by
  rcases readDouble_pointed hlegible.isPointed with hread | ⟨x, hread, -⟩
  · refine .fail (by simp [Occurrence.lacksCode, hread]) ?_
    simp only [Lowering.literal, hread]
    exact ⟨_, rfl, trivial⟩
  · refine .lower (by simp [Occurrence.lacksCode, hread]) ?_
    simp only [Lowering.literal, hread]
    exact .pure ⟨rfl, rfl, rfl, trivial⟩

theorem int_traces {env : Environment} {types : Scopes Ty} {b : Builder} {text : String}
    (hallowed : (readInt 32 text).isOk = true) :
    Traces ((Expr.literal .int text).lowerObserved logger env)
      ((Expr.literal .int text).occurrences types) b fun v b' => v.Fits .int b'.module := by
  refine .lower rfl ?_
  cases hread : readInt 32 text with
  | ok n =>
    simp only [Lowering.literal, hread]
    exact .pure ⟨rfl, rfl, rfl, trivial⟩
  | error reason =>
    rw [hread] at hallowed
    cases hallowed

/-- The value of an assignment is stored and is the value of the whole. -/
theorem assign_traces {types : Scopes Ty} {b : Builder} {target : String} {value : Expr} {t : Ty}
    (htarget : types.lookup target = some t) {v : Variable} (hv : v.type = t)
    (hslot : v.slot.type = .pointer t.valueType) (hin : v.slot.TypedIn b.module) {given : Typed}
    (hgiven : given.Fits t b.module) :
    Traces (do
        let widened ← widen given v.type
        store widened v.slot
        Observed.yield logger (.assign target value) ⟨widened, v.type⟩)
      [⟨types, .assign target value⟩] b fun w b' => w.Fits t b'.module := by
  subst hv
  refine (Traces.lift (widen_succeeds hgiven (.inl rfl))).bind fun w b₁ hgrows₁ hw => ?_
  have hstore := store_succeeds hw.2 (hgrows₁.typedIn hin) (by rw [hslot, hw.1])
  refine (Traces.lift hstore).bind fun _ b₂ hgrows₂ _ => .note rfl ?_ ?_
  · simp [Expr.type, htarget]
  · exact ⟨rfl, hw.1, hgrows₂.typedIn hw.2⟩

theorem unary_traces {types : Scopes Ty} {b : Builder} {op : UnaryOp} {operand : Expr} {t : Ty}
    (htype : Binisaya.HasType types (.unary op operand) t) {v : Typed} (hv : v.Fits t b.module) :
    Traces (liftM (unary op v) >>= Observed.yield logger (.unary op operand))
      [⟨types, .unary op operand⟩] b fun w b' => w.Fits t b'.module := by
  refine .lower rfl ?_
  have hfits : Succeeds (unary op v) b fun w b' => w.Fits t b'.module := by
    unfold unary
    rw [hv.type]
    cases htype with
    | negate _ ht =>
      rcases ht with rfl | rfl
      · exact compute_succeeds trivial hv.typedIn rfl hv.operand rfl
      · exact compute_succeeds trivial hv.typedIn rfl hv.operand rfl
    | not _ => exact compute_succeeds hv.typedIn trivial hv.operand rfl rfl
  exact hfits.mono fun w b' hw => ⟨hw.type.trans htype.type_eq.symm, hw⟩

/-- Arithmetic has code on numbers. -/
theorem arithmetic_traces {types : Scopes Ty} {b : Builder} {op : BinaryOp} {left right : Expr}
    {t : Ty} (hop : op ∈ [.add, .subtract, .multiply, .divide]) (ht : t ≠ .unknown)
    (hleft : Binisaya.HasType types left t) (hright : Binisaya.HasType types right t) {l r : Typed}
    (hl : l.Fits t b.module) (hr : r.Fits t b.module) :
    Traces (liftM (binary op l r) >>= Observed.yield logger (.binary op left right))
      [⟨types, .binary op left right⟩] b fun v b' => v.Fits t b'.module := by
  have hlacks : Occurrence.lacksCode ⟨types, .binary op left right⟩ =
      decide (t = .string ∨ t = .bool) := by
    simp only [Occurrence.lacksCode, BinaryOp.isArithmetic_iff.mpr hop, if_true, hleft.type_eq,
      hright.type_eq]
    cases t <;> rfl
  rw [binary_of_arithmetic hop]
  by_cases hcode : t = .string ∨ t = .bool
  · exact .fail (by simp [hlacks, hcode]) ⟨_, arithmetic_fails op hl.type hr.type hcode b, trivial⟩
  · have hnumeric : t.isNumeric = true := by
      cases t <;> simp_all [Ty.isNumeric]
    have htype := (Binisaya.HasType.arithmetic hop hleft hright).type_eq
    exact .lower (by simp [hlacks, hcode])
      ((arithmetic_succeeds hop hl hr hnumeric).mono fun v b' hv => ⟨hv.type.trans htype.symm, hv⟩)

/-- A comparison has code on numbers and on truth values. -/
theorem comparison_traces {types : Scopes Ty} {b : Builder} {op : BinaryOp} {left right : Expr}
    {t u : Ty} (hop : op ∈ [.equal, .notEqual, .less, .lessEqual, .greater, .greaterEqual])
    (ht : t ≠ .unknown) (hu : u ≠ .unknown) (hleft : Binisaya.HasType types left t)
    (hright : Binisaya.HasType types right u) {l r : Typed} (hl : l.Fits t b.module)
    (hr : r.Fits u b.module) :
    Traces (liftM (binary op l r) >>= Observed.yield logger (.binary op left right))
      [⟨types, .binary op left right⟩] b fun v b' => v.Fits .bool b'.module := by
  have hlacks : Occurrence.lacksCode ⟨types, .binary op left right⟩ =
      decide (t = .string ∨ u = .string ∨ (t = .bool ∧ u.isNumeric = true) ∨
        (t.isNumeric = true ∧ u = .bool)) := by
    have harithmetic : op.isArithmetic = false := by
      cases op <;> simp at hop <;> rfl
    simp only [Occurrence.lacksCode, harithmetic, BinaryOp.isComparison_iff.mpr hop, if_true,
      hleft.type_eq, hright.type_eq, Bool.false_eq_true, if_false]
    simp [Bool.or_assoc]
  obtain ⟨how, -, hbinary⟩ := binary_of_comparison hop
  rw [hbinary]
  by_cases hcode : t = .string ∨ u = .string ∨ (t = .bool ∧ u.isNumeric = true) ∨
      (t.isNumeric = true ∧ u = .bool)
  · exact .fail (by simp [hlacks, hcode]) (compare_fails how hl.type hr.type hcode b)
  · have hcompare : (t.isNumeric = true ∧ u.isNumeric = true) ∨ (t = .bool ∧ u = .bool) := by
      cases t <;> cases u <;> simp_all [Ty.isNumeric]
    have htype := (Binisaya.HasType.comparison hop hleft hright).type_eq
    exact .lower (by simp [hlacks, hcode])
      ((compare_succeeds how hl hr hcompare).mono fun v b' hv => ⟨hv.type.trans htype.symm, hv⟩)

theorem logical_traces {types : Scopes Ty} {b : Builder} {op : BinaryOp} {left right : Expr}
    (hop : op ∈ [.and, .or]) {l r : Typed} (hl : l.Fits .bool b.module)
    (hr : r.Fits .bool b.module) :
    Traces (liftM (binary op l r) >>= Observed.yield logger (.binary op left right))
      [⟨types, .binary op left right⟩] b fun v b' => v.Fits .bool b'.module := by
  have hlacks : Occurrence.lacksCode ⟨types, .binary op left right⟩ = false := by
    cases op <;> simp at hop <;> rfl
  have htype : (Expr.binary op left right).type types = .bool := by
    cases op <;> simp at hop <;> rfl
  rw [binary_of_logical hop hl.type hr.type]
  refine .lower hlacks ?_
  refine (compute_succeeds hl.typedIn hr.typedIn hl.operand hr.operand ?_).mono
    fun v b' hv => ⟨hv.type.trans htype.symm, hv⟩
  split <;> rfl

/-- An expression in a checked text, where it is lowered: it follows the grammar, its pieces come from
the text, and its names stand for variables. -/
structure Lowerable (env : Environment) (types : Scopes Ty) (m : Module) (e : Expr) : Prop where
  wellFormed : e.WellFormed
  legible : ∀ l ∈ e.unparse, l.Legible
  reaches : ∀ n ∈ e.mentions, Reaches env types m n

namespace Lowerable

variable {env : Environment} {types : Scopes Ty} {m m' : Module} {e e' : Expr}

theorem mono (h : Lowerable env types m e) (hgrows : Grows m m') : Lowerable env types m' e :=
  ⟨h.wellFormed, h.legible, fun n hn => (h.reaches n hn).mono hgrows⟩

theorem value {target : String} (h : Lowerable env types m (.assign target e)) :
    Lowerable env types m e :=
  ⟨h.wellFormed, fun l hl => h.legible l (by simp [Expr.unparse, hl]),
    fun n hn => h.reaches n (by simp [Expr.mentions, hn])⟩

theorem inner (h : Lowerable env types m (.group e)) : Lowerable env types m e :=
  ⟨h.wellFormed, fun l hl => h.legible l (by simp [Expr.unparse, hl]), h.reaches⟩

theorem operand {op : UnaryOp} (h : Lowerable env types m (.unary op e)) :
    Lowerable env types m e :=
  ⟨h.wellFormed.2.1, fun l hl => h.legible l (by simp [Expr.unparse, hl]), h.reaches⟩

theorem left {op : BinaryOp} (h : Lowerable env types m (.binary op e e')) :
    Lowerable env types m e :=
  ⟨h.wellFormed.2.1, fun l hl => h.legible l (by simp [Expr.unparse, hl]),
    fun n hn => h.reaches n (by simp [Expr.mentions, hn])⟩

theorem right {op : BinaryOp} (h : Lowerable env types m (.binary op e e')) :
    Lowerable env types m e' :=
  ⟨h.wellFormed.2.2.1, fun l hl => h.legible l (by simp [Expr.unparse, hl]),
    fun n hn => h.reaches n (by simp [Expr.mentions, hn])⟩

end Lowerable

/-- Both operands are lowered in front of their operation. -/
theorem binary_traces {env : Environment} {types : Scopes Ty} {b : Builder} {op : BinaryOp}
    {left right : Expr} {t u w : Ty}
    (hleft : Traces (left.lowerObserved logger env) (left.occurrences types) b fun v b' =>
      v.Fits t b'.module)
    (hright : ∀ b', Grows b.module b'.module →
      Traces (right.lowerObserved logger env) (right.occurrences types) b' fun v b'' =>
        v.Fits u b''.module)
    (hop : ∀ (b' : Builder) (l r : Typed), l.Fits t b'.module → r.Fits u b'.module →
      Traces (liftM (binary op l r) >>= Observed.yield logger (.binary op left right))
        [⟨types, .binary op left right⟩] b' fun v b'' => v.Fits w b''.module) :
    Traces ((Expr.binary op left right).lowerObserved logger env)
      ((Expr.binary op left right).occurrences types) b fun v b' => v.Fits w b'.module := by
  simp only [Expr.occurrences, Expr.parts, List.map_append, List.map_cons, List.map_nil]
  refine hleft.bind fun l b₁ hgrows₁ hl => (hright b₁ hgrows₁).bind fun r b₂ hgrows₂ hr => ?_
  exact hop b₂ l r (hl.mono hgrows₂) hr

/-- The parts of a well-typed expression are lowered to values of their types. -/
theorem lower_traces {env : Environment} {types : Scopes Ty} (hknown : Known types) {e : Expr}
    {t : Ty} (htype : Binisaya.HasType types e t) {b : Builder}
    (h : Lowerable env types b.module e) :
    Traces (e.lowerObserved logger env) (e.occurrences types) b fun v b' => v.Fits t b'.module := by
  induction htype generalizing b with
  | int text => exact int_traces h.wellFormed
  | float text => exact float_traces (h.legible _ (by simp [Expr.unparse, Expr.literalLexemes]))
  | bool text => exact .lower rfl (.pure ⟨rfl, rfl, rfl, trivial⟩)
  | string text =>
    exact .lower rfl ((addText_succeeds text).bind fun v b' _ hv => .pure ⟨rfl, rfl, hv.1, hv.2⟩)
  | name hn => exact name_traces hn (h.reaches _ (by simp [Expr.mentions]))
  | @assign target value t htarget hvalue ih =>
    simp only [Expr.occurrences, Expr.parts, List.map_append, List.map_cons, List.map_nil]
    have hreach := h.reaches target (by simp [Expr.mentions])
    refine (Traces.lift (resolve_succeeds hreach htarget)).bind fun v b₁ hgrows₁ hv => ?_
    refine (ih (h.value.mono hgrows₁)).bind fun given b₂ hgrows₂ hgiven => ?_
    exact assign_traces htarget hv.1 hv.2.1 (hgrows₂.typedIn hv.2.2) hgiven
  | group hinner ih =>
    simp only [Expr.occurrences, Expr.parts, List.map_append, List.map_cons, List.map_nil]
    refine (ih h.inner).bind fun v b₁ _ hv => ?_
    exact .note rfl (hv.type.trans hinner.type_eq.symm) hv
  | negate hoperand ht ih =>
    simp only [Expr.occurrences, Expr.parts, List.map_append, List.map_cons, List.map_nil]
    exact (ih h.operand).bind fun v b₁ _ hv => unary_traces (.negate hoperand ht) hv
  | not hoperand ih =>
    simp only [Expr.occurrences, Expr.parts, List.map_append, List.map_cons, List.map_nil]
    exact (ih h.operand).bind fun v b₁ _ hv => unary_traces (.not hoperand) hv
  | arithmetic hop hleft hright ihleft ihright =>
    refine binary_traces (ihleft h.left) (fun _ hgrows => ihright (h.right.mono hgrows)) ?_
    intro b' l r hl hr
    exact arithmetic_traces hop (hleft.ne_unknown hknown) hleft hright hl hr
  | comparison hop hleft hright ihleft ihright =>
    refine binary_traces (ihleft h.left) (fun _ hgrows => ihright (h.right.mono hgrows)) ?_
    intro b' l r hl hr
    exact comparison_traces hop (hleft.ne_unknown hknown) (hright.ne_unknown hknown) hleft hright hl
      hr
  | logical hop _ _ ihleft ihright =>
    refine binary_traces (ihleft h.left) (fun _ hgrows => ihright (h.right.mono hgrows)) ?_
    intro b' l r hl hr
    exact logical_traces hop hl hr

end Lowering

end Binisaya
