import Binisaya.Proofs.Lowering.Tracing

/-!
# Type soundness of lowering

Lowering goes through the occurrences of expressions in a checked program one after the other.  Main
statement: it gives each the type that the checker gives it, it fails exactly if there is an
occurrence without code, and the module of a program that it does not fail for is well typed.
-/

namespace Binisaya

open Llvm Lowering

theorem Ty.valueType_ne_void {t : Ty} (h : t ≠ .unknown) : t.valueType ≠ .void := by
  cases t with
  | unknown => exact absurd rfl h
  | _ => simp [Ty.valueType, ValueType.text]

namespace Lowering

/-! ### Parts of statements -/

section

variable {env : Environment} {types : Scopes Ty} {b : Builder}

/-- A clause that may be missing can be lowered if it is there. -/
theorem Lowerable.of_optional {m : Module} {e : Expr} {t : Ty} (hwf : e.OptionalWellFormed)
    (htype : e = .absent ∨ Binisaya.HasType types e t) (hlegible : ∀ l ∈ e.unparse, l.Legible)
    (hreaches : ∀ n ∈ e.mentions, Reaches env types m n) :
    e = .absent ∨ (Lowerable env types m e ∧ Binisaya.HasType types e t) := by
  rcases hwf with rfl | hwf
  · exact .inl rfl
  · exact htype.imp_right fun htype => ⟨⟨hwf, hlegible, hreaches⟩, htype⟩

theorem print_succeeds {v : Typed} {t : Ty} (hv : v.Fits t b.module) (ht : t ≠ .unknown) :
    Succeeds (print v) b fun _ _ => True := by
  unfold print
  rw [hv.type]
  cases t with
  | unknown => exact absurd rfl ht
  | bool =>
    have hins : (Instr.convert .zext v.operand .i32).WellTyped b.module :=
      ⟨hv.typedIn, by rw [hv.operand]; rfl⟩
    exact (emit_succeeds hins rfl).bind fun n b₁ _ hn => perform_succeeds ⟨hn.2, hn.1⟩
  | _ => exact perform_succeeds ⟨hv.typedIn, hv.operand⟩

theorem initialValue_traces (hknown : Known types) {t : Ty} (ht : t ≠ .unknown) {initial : Expr}
    (h : initial = .absent ∨
      (Lowerable env types b.module initial ∧ Binisaya.HasType types initial t)) :
    Traces (Observed.initialValue logger env t initial) (initial.occurrences types) b fun v b' =>
      v.type = t.valueType ∧ v.TypedIn b'.module := by
  unfold Observed.initialValue
  rcases h with rfl | ⟨h, htype⟩
  · refine Traces.pure ⟨Ty.zero_type ht, ?_⟩
    cases t <;> trivial
  · rw [h.wellFormed.isAbsent, if_neg (by simp)]
    exact (lower_traces hknown htype h).bind_last fun v b₁ _ hv =>
      .lift (widen_succeeds hv (.inl rfl))

theorem branchOn_traces (hknown : Known types) {condition : Expr}
    (h : Lowerable env types b.module condition)
    (htype : Binisaya.HasType types condition .bool) {whenTrue whenFalse : Nat}
    (htrue : whenTrue < b.blocks.length) (hfalse : whenFalse < b.blocks.length) :
    Traces (Observed.branchOn logger env condition whenTrue whenFalse)
      (condition.occurrences types) b fun _ _ => True := by
  rw [Observed.branchOn]
  simp only [logger_ignoresBlocks.leave_eq]
  refine (lower_traces hknown htype h).bind_last fun v b₁ hgrows hv => .lift ?_
  have hle := hgrows.length_le
  have htrue' : whenTrue < b₁.blocks.length := Nat.lt_of_lt_of_le htrue hle
  exact leave_succeeds ⟨hv.typedIn, hv.operand, htrue', Nat.lt_of_lt_of_le hfalse hle⟩ htrue'

theorem branchOnOptional_traces (hknown : Known types) {condition : Expr}
    (h : condition = .absent ∨
      (Lowerable env types b.module condition ∧ Binisaya.HasType types condition .bool))
    {whenTrue whenFalse : Nat} (htrue : whenTrue < b.blocks.length)
    (hfalse : whenFalse < b.blocks.length) :
    Traces (Observed.branchOnOptional logger env condition whenTrue whenFalse)
      (condition.occurrences types) b fun _ _ => True := by
  rw [Observed.branchOnOptional, logger_ignoresBlocks.leave_eq]
  rcases h with rfl | ⟨h, htype⟩
  · exact .lift (leave_succeeds htrue htrue)
  · rw [h.wellFormed.isAbsent, if_neg (by simp)]
    exact branchOn_traces hknown h htype htrue hfalse

theorem evaluateOptional_traces (hknown : Known types) {e : Expr} {t : Ty}
    (h : e = .absent ∨ (Lowerable env types b.module e ∧ Binisaya.HasType types e t)) :
    Traces (Observed.evaluateOptional logger env e) (e.occurrences types) b fun _ _ => True := by
  unfold Observed.evaluateOptional
  rcases h with rfl | ⟨h, htype⟩
  · exact .pure trivial
  · rw [h.wellFormed.isAbsent, if_neg (by simp)]
    exact (lower_traces hknown htype h).bind_last fun _ _ _ _ => .pure trivial

theorem openArms_traces (hknown : Known types) {condition : Expr}
    (h : Lowerable env types b.module condition)
    (htype : Binisaya.HasType types condition .bool) (hasAlternative : Bool) :
    Traces (Observed.openArms logger env condition hasAlternative) (condition.occurrences types) b
      fun arms b' => arms.elseBlock < b'.blocks.length ∧ arms.endBlock < b'.blocks.length := by
  rw [Observed.openArms]
  simp only [logger_ignoresBlocks.addBlock_eq, logger_ignoresBlocks.leave_eq]
  refine (lower_traces hknown htype h).bind_last fun v b₁ _ hv => ?_
  refine (Traces.lift (addBlock_succeeds _)).bind fun thenBlock b₂ hgrows₂ hthen => ?_
  refine (Traces.lift (addBlock_succeeds _)).bind fun endBlock b₃ hgrows₃ hend => ?_
  have helse : Traces (if hasAlternative then liftM (addBlock .ifElse) else pure endBlock) [] b₃
      fun n b' => n < b'.blocks.length := by
    split
    · exact .lift (addBlock_succeeds _)
    · exact .pure hend
  refine helse.bind fun elseBlock b₄ hgrows₄ helse => ?_
  have hgrows := (hgrows₂.trans hgrows₃).trans hgrows₄
  have hthen₄ : thenBlock < b₄.blocks.length :=
    Nat.lt_of_lt_of_le hthen (hgrows₃.trans hgrows₄).length_le
  have hleave := leave_succeeds (g := .always)
    (show (Terminator.branch v.operand thenBlock elseBlock).WellTyped b₄.module from
      ⟨hgrows.typedIn hv.typedIn, hv.operand, hthen₄, helse⟩) hthen₄
  refine (Traces.lift hleave).bind fun _ b₅ hgrows₅ _ => .pure ⟨?_, ?_⟩
  · exact Nat.lt_of_lt_of_le helse hgrows₅.length_le
  · exact Nat.lt_of_lt_of_le hend (hgrows₄.trans hgrows₅).length_le

/-- The blocks of a loop exist. -/
def Rounds.Exist (rounds : Rounds) (b : Builder) : Prop :=
  rounds.condBlock < b.blocks.length ∧ rounds.incBlock < b.blocks.length ∧
    rounds.endBlock < b.blocks.length

theorem Rounds.Exist.mono {rounds : Rounds} {b' : Builder} (h : rounds.Exist b)
    (hgrows : Grows b.module b'.module) : rounds.Exist b' := by
  have hle := hgrows.length_le
  exact ⟨Nat.lt_of_lt_of_le h.1 hle, Nat.lt_of_lt_of_le h.2.1 hle, Nat.lt_of_lt_of_le h.2.2 hle⟩

theorem openWhile_traces (hknown : Known types) {condition : Expr}
    (h : Lowerable env types b.module condition)
    (htype : Binisaya.HasType types condition .bool) :
    Traces (Observed.openWhile logger env condition) (condition.occurrences types) b
      Rounds.Exist := by
  rw [Observed.openWhile]
  simp only [logger_ignoresBlocks.addBlock_eq, logger_ignoresBlocks.leave_eq]
  refine (Traces.lift (addBlock_succeeds _)).bind fun condBlock b₁ hgrows₁ hcond => ?_
  refine (Traces.lift (addBlock_succeeds _)).bind fun bodyBlock b₂ hgrows₂ hbody => ?_
  refine (Traces.lift (addBlock_succeeds _)).bind fun endBlock b₃ hgrows₃ hend => ?_
  have hcond₃ := Nat.lt_of_lt_of_le hcond (hgrows₂.trans hgrows₃).length_le
  have hbody₃ := Nat.lt_of_lt_of_le hbody hgrows₃.length_le
  refine (Traces.lift (leave_succeeds (t := .jump condBlock) hcond₃ hcond₃)).bind
    fun _ b₄ hgrows₄ _ => ?_
  have hgrows := ((hgrows₁.trans hgrows₂).trans hgrows₃).trans hgrows₄
  refine (branchOn_traces hknown (h.mono hgrows) htype
    (Nat.lt_of_lt_of_le hbody₃ hgrows₄.length_le)
    (Nat.lt_of_lt_of_le hend hgrows₄.length_le)).bind_last fun _ b₅ hgrows₅ _ => .pure ?_
  exact Rounds.Exist.mono (b := b₃) ⟨hcond₃, hcond₃, hend⟩ (hgrows₄.trans hgrows₅)

theorem openFor_traces (hknown : Known types) {condition : Expr}
    (h : condition = .absent ∨
      (Lowerable env types b.module condition ∧ Binisaya.HasType types condition .bool)) :
    Traces (Observed.openFor logger env condition) (condition.occurrences types) b Rounds.Exist := by
  rw [Observed.openFor]
  simp only [logger_ignoresBlocks.addBlock_eq, logger_ignoresBlocks.leave_eq]
  refine (Traces.lift (addBlock_succeeds _)).bind fun condBlock b₁ hgrows₁ hcond => ?_
  refine (Traces.lift (addBlock_succeeds _)).bind fun bodyBlock b₂ hgrows₂ hbody => ?_
  refine (Traces.lift (addBlock_succeeds _)).bind fun incBlock b₃ hgrows₃ hinc => ?_
  refine (Traces.lift (addBlock_succeeds _)).bind fun endBlock b₄ hgrows₄ hend => ?_
  have hcond₄ := Nat.lt_of_lt_of_le hcond ((hgrows₂.trans hgrows₃).trans hgrows₄).length_le
  have hbody₄ := Nat.lt_of_lt_of_le hbody (hgrows₃.trans hgrows₄).length_le
  have hinc₄ := Nat.lt_of_lt_of_le hinc hgrows₄.length_le
  refine (Traces.lift (leave_succeeds (t := .jump condBlock) hcond₄ hcond₄)).bind
    fun _ b₅ hgrows₅ _ => ?_
  have hgrows := (((hgrows₁.trans hgrows₂).trans hgrows₃).trans hgrows₄).trans hgrows₅
  refine (branchOnOptional_traces hknown (h.imp_right fun h => ⟨h.1.mono hgrows, h.2⟩)
    (Nat.lt_of_lt_of_le hbody₄ hgrows₅.length_le)
    (Nat.lt_of_lt_of_le hend hgrows₅.length_le)).bind_last fun _ b₆ hgrows₆ _ => .pure ?_
  exact Rounds.Exist.mono (b := b₄) ⟨hcond₄, hinc₄, hend⟩ (hgrows₅.trans hgrows₆)

theorem Reaches.push {m : Module} {n : String} (h : Reaches env types m n) :
    Reaches env types.push m n := by
  intro t ht
  rw [Scopes.lookup_push] at ht
  exact h t ht

theorem Reaches.bind {m : Module} (h : ∀ n, Reaches env types m n) {slot : Operand} {t : Ty}
    (hslot : slot.type = .pointer t.valueType) (hin : slot.TypedIn m) (name : String) :
    ∀ n, Reaches ((name, ⟨slot, t⟩) :: env) (types.bind name t) m n := by
  intro n u hu
  rw [Scopes.lookup_bind] at hu
  by_cases hn : n = name
  · rw [if_pos hn] at hu
    cases hu
    exact ⟨⟨slot, t⟩, by simp [hn], rfl, hslot, hin⟩
  · rw [if_neg hn] at hu
    obtain ⟨v, hv, hrest⟩ := h n u hu
    refine ⟨v, ?_, hrest⟩
    rw [List.lookup_cons, beq_eq_false_iff_ne.mpr hn]
    exact hv

/-- A name that is not declared here stands for what it stood for before. -/
theorem Reaches.outside {m : Module} {n name : String} (h : Reaches env types m n) (hn : n ≠ name)
    (t : Ty) : Reaches env (types.bind name t) m n := by
  intro u hu
  rw [Scopes.lookup_bind, if_neg hn] at hu
  exact h u hu

theorem declaration_traces (hknown : Known types) {t : Ty} (ht : t ≠ .unknown) {name : String}
    {initial : Expr} (hwf : initial.OptionalWellFormed)
    (htype : initial = .absent ∨ Binisaya.HasType (types.bind name t) initial t)
    (hself : initial.mentions.contains name = false)
    (hlegible : ∀ l ∈ initial.unparse, l.Legible) (henv : ∀ n, Reaches env types b.module n) :
    Traces (Observed.declaration logger env t name initial)
      (initial.occurrences (types.bind name t)) b fun env' b' =>
        ∀ n, Reaches env' (types.bind name t) b'.module n := by
  rw [Observed.declaration]
  simp only [logger_ignoresNames _, pure_bind]
  refine (Traces.lift (reserve_succeeds (Ty.valueType_ne_void ht))).bind
    fun slot b₁ hgrows₁ hslot => ?_
  have hinitial : ∀ n ∈ initial.mentions, Reaches env (types.bind name t) b₁.module n := by
    intro n hn
    refine ((henv n).mono hgrows₁).outside ?_ t
    rintro rfl
    simp [hn] at hself
  refine (initialValue_traces (hknown.bind ht name) ht
    (Lowerable.of_optional hwf htype hlegible hinitial)).bind_last fun value b₂ hgrows₂ hvalue => ?_
  have hslot₂ := hgrows₂.typedIn hslot.2
  have hstore := store_succeeds hvalue.2 hslot₂ (by rw [hslot.1, hvalue.1])
  refine (Traces.lift hstore).bind fun _ b₃ hgrows₃ _ => .pure ?_
  have hgrows := (hgrows₁.trans hgrows₂).trans hgrows₃
  exact Reaches.bind (fun n => (henv n).mono hgrows) hslot.1 (hgrows₃.typedIn hslot₂) name

end

end Lowering

/-! ### Statements and programs -/

/-- The first clause of a counting loop is traced if it is there, and the scopes behind it are those
of the checker. -/
theorem Stmt.loopInitial_traces {env : Environment} {types inner : Scopes Ty} {b : Builder}
    (hknown : Known types) (henv : ∀ n, Reaches env types b.module n) {initial : Stmt}
    (hwf : initial = .absent ∨ initial.WellFormed)
    (hclause : Stmt.ClauseWellTyped types.push initial inner)
    (htraces : initial.WellFormed → initial.WellTyped types.push inner →
      Traces (initial.lowerObserved logger env) (initial.occurrences types.push) b fun env' b' =>
        ∀ n, Reaches env' inner b'.module n) :
    Known inner ∧ (initial.check types.push).1 = inner ∧
      Traces (if initial.isAbsent then pure env else initial.lowerObserved logger env)
        (initial.occurrences types.push) b fun env' b' => ∀ n, Reaches env' inner b'.module n := by
  rcases hwf with rfl | hwf
  · cases hclause with
    | absent =>
      refine ⟨hknown.push, by rw [Stmt.check], ?_⟩
      rw [Stmt.occurrences]
      exact .pure fun n => (henv n).push
    | present htyped => cases htyped
  · have htyped := (Stmt.clauseWellTyped_iff hwf).mp hclause
    refine ⟨hknown.push.check hwf htyped, ?_, ?_⟩
    · rw [(Stmt.wellTyped_iff hknown.push initial hwf).mp htyped]
    · rw [hwf.isAbsent, if_neg (by simp)]
      exact htraces hwf htyped

mutual

/-- The lowering of a well-typed statement goes through the occurrences in it. -/
theorem Stmt.lower_traces {env : Environment} {types after : Scopes Ty} {b : Builder}
    (hknown : Known types) (henv : ∀ n, Reaches env types b.module n) :
    (s : Stmt) → s.WellFormed → s.WellTyped types after → s.selfInitial = false →
      (∀ l ∈ s.unparse, l.Legible) →
      Traces (s.lowerObserved logger env) (s.occurrences types) b fun env' b' =>
        ∀ n, Reaches env' after b'.module n
  | .absent, hwf, _, _, _ => by simp [Stmt.WellFormed] at hwf
  | .declare type name initial, hwf, htyped, hself, hlegible => by
    have hcheck := (Stmt.wellTyped_iff hknown _ hwf).mp htyped
    rw [Stmt.WellFormed] at hwf
    rw [Stmt.lowerObserved, Stmt.occurrences, hcheck, logger_ignoresBlocks.within_eq]
    have hinitial : ∀ l ∈ initial.unparse, l.Legible := by
      intro l hl
      apply hlegible
      rw [Stmt.unparse]
      exact List.mem_cons_of_mem _ (List.mem_cons_of_mem _ (Stmt.mem_initialLexemes hl))
    have hne := Ty.ofWord_ne_unknown hwf.1
    obtain ⟨rfl, -, hvalue⟩ := htyped.of_declare
    exact declaration_traces hknown hne hwf.2 hvalue hself hinitial henv
  | .print value, hwf, htyped, _, hlegible => by
    rw [Stmt.WellFormed] at hwf
    rw [Stmt.lowerObserved, Stmt.occurrences, logger_ignoresBlocks.within_eq, logger_ignoresNames,
      pure_bind]
    cases htyped with
    | print hvalue =>
      have hlower : Lowerable env types b.module value :=
        ⟨hwf, fun l hl => hlegible l (by simp [Stmt.unparse, hl]), fun n _ => henv n⟩
      refine (Lowering.lower_traces hknown hvalue hlower).bind_last fun v b₁ hgrows₁ hv => ?_
      refine (Traces.lift (print_succeeds hv (hvalue.ne_unknown hknown))).bind
        fun _ b₂ hgrows₂ _ => .pure ?_
      exact fun n => (henv n).mono (hgrows₁.trans hgrows₂)
  | .expression value, hwf, htyped, _, hlegible => by
    rw [Stmt.WellFormed] at hwf
    rw [Stmt.lowerObserved, Stmt.occurrences, logger_ignoresBlocks.within_eq, logger_ignoresNames,
      pure_bind]
    cases htyped with
    | expression hvalue =>
      have hlower : Lowerable env types b.module value :=
        ⟨hwf, fun l hl => hlegible l (by simp [Stmt.unparse, hl]), fun n _ => henv n⟩
      refine (Lowering.lower_traces hknown hvalue hlower).bind_last fun v b₁ hgrows₁ hv => .pure ?_
      exact fun n => (henv n).mono hgrows₁
  | .block body, hwf, htyped, hself, hlegible => by
    rw [Stmt.WellFormed] at hwf
    rw [Stmt.selfInitial] at hself
    rw [Stmt.lowerObserved, Stmt.occurrences]
    simp only [logger_ignoresBlocks.within_eq, logger_ignoresNames _, pure_bind]
    cases htyped with
    | block hbody =>
      refine (Stmt.lowerAll_traces hknown.push (fun n => (henv n).push) body hwf hbody hself
        fun l hl => hlegible l (by simp [Stmt.unparse, hl])).bind_last fun _ b₁ hgrows₁ _ => .pure ?_
      exact fun n => (henv n).mono hgrows₁
  | .ifElse condition consequent alternative, hwf, htyped, hself, hlegible => by
    rw [Stmt.WellFormed] at hwf
    obtain ⟨hcondition, hconsequent, hnot, halternative⟩ := hwf
    rw [Stmt.selfInitial, Bool.or_eq_false_iff] at hself
    have hbool : HasType types condition .bool := by
      cases htyped <;> assumption
    have hthen : consequent.WellTyped types types := by
      cases htyped <;> assumption
    obtain rfl : after = types := by
      cases htyped <;> rfl
    rw [Stmt.lowerObserved, Stmt.occurrences,
      Stmt.check_of_not_declare after consequent hconsequent hnot]
    simp only [logger_ignoresBlocks.within_eq, logger_ignoresBlocks.leave_eq, logger_ignoresNames _,
      pure_bind]
    have hlower : Lowerable env after b.module condition :=
      ⟨hcondition, fun l hl => hlegible l (by simp [Stmt.unparse, hl]), fun n _ => henv n⟩
    refine (openArms_traces hknown hlower hbool _).bind fun arms b₁ hgrows₁ harms => ?_
    refine (Stmt.lower_traces hknown (fun n => (henv n).mono hgrows₁) consequent hconsequent hthen
      hself.1 fun l hl => hlegible l (by simp [Stmt.unparse, hl])).bind
      fun between b₂ hgrows₂ hbetween => ?_
    have helse := Nat.lt_of_lt_of_le harms.1 hgrows₂.length_le
    have hend := Nat.lt_of_lt_of_le harms.2 hgrows₂.length_le
    refine (Traces.lift (leave_succeeds (t := .jump arms.endBlock) hend helse)).bind
      fun _ b₃ hgrows₃ _ => ?_
    rcases halternative with rfl | ⟨halternative, hnot', -⟩
    · exact .pure fun n => (hbetween n).mono hgrows₃
    · rw [halternative.isAbsent, if_neg (by simp)]
      have htyped' : alternative.WellTyped after after := by
        cases htyped with
        | ifThen => simp [Stmt.WellFormed] at halternative
        | ifElse _ _ helse => exact helse
      refine (Stmt.lower_traces hknown (fun n => (hbetween n).mono hgrows₃) alternative halternative
        htyped' hself.2 fun l hl =>
          hlegible l (by simp [Stmt.unparse, halternative.isAbsent, hl])).bind_last
        fun last b₄ hgrows₄ hlast => ?_
      have hend₄ := Nat.lt_of_lt_of_le hend (hgrows₃.trans hgrows₄).length_le
      refine (Traces.lift (leave_succeeds (t := .jump arms.endBlock) hend₄ hend₄)).bind
        fun _ b₅ hgrows₅ _ => .pure ?_
      exact fun n => (hlast n).mono hgrows₅
  | .whileLoop condition body, hwf, htyped, hself, hlegible => by
    rw [Stmt.WellFormed] at hwf
    obtain ⟨hcondition, hbody, hnot⟩ := hwf
    rw [Stmt.selfInitial] at hself
    rw [Stmt.lowerObserved, Stmt.occurrences]
    simp only [logger_ignoresBlocks.within_eq, logger_ignoresBlocks.leave_eq, logger_ignoresNames _,
      pure_bind]
    cases htyped with
    | whileLoop hbool hbodyTyped =>
      have hlower : Lowerable env types b.module condition :=
        ⟨hcondition, fun l hl => hlegible l (by simp [Stmt.unparse, hl]), fun n _ => henv n⟩
      refine (openWhile_traces hknown hlower hbool).bind fun rounds b₁ hgrows₁ hrounds => ?_
      refine (Stmt.lower_traces hknown (fun n => (henv n).mono hgrows₁) body hbody hbodyTyped hself
        fun l hl => hlegible l (by simp [Stmt.unparse, hl])).bind_last
        fun last b₂ hgrows₂ hlast => ?_
      have hrounds₂ := hrounds.mono hgrows₂
      refine (Traces.lift (leave_succeeds (t := .jump rounds.condBlock) hrounds₂.1
        hrounds₂.2.2)).bind fun _ b₃ hgrows₃ _ => .pure ?_
      exact fun n => (hlast n).mono hgrows₃
  | .forLoop initial condition increment body, hwf, htyped, hself, hlegible => by
    rw [Stmt.WellFormed] at hwf
    obtain ⟨hinitial, hcondition, hincrement, hbody, hnot⟩ := hwf
    rw [Stmt.selfInitial, Bool.or_eq_false_iff] at hself
    rw [Stmt.lowerObserved, Stmt.occurrences]
    simp only [logger_ignoresBlocks.within_eq, logger_ignoresBlocks.leave_eq, logger_ignoresNames _,
      pure_bind]
    cases htyped with
    | @forLoop _ inner _ _ _ _ hclause hbool hbodyTyped hincTyped =>
      obtain ⟨hinner, hcheck, hfirst⟩ := Stmt.loopInitial_traces hknown henv
        (hinitial.imp_right And.left) hclause fun hwf htyped =>
          Stmt.lower_traces hknown.push (fun n => (henv n).push) initial hwf htyped hself.1
            fun l hl => hlegible l (by simp [Stmt.unparse, hwf.isAbsent, hl])
      simp only [hcheck, Stmt.check_of_not_declare inner body hbody hnot]
      refine hfirst.bind fun env₁ b₁ hgrows₁ henv₁ => ?_
      have hcondition₁ := Lowerable.of_optional hcondition hbool
        (fun l hl => hlegible l (by simp [Stmt.unparse, hl])) fun n _ => henv₁ n
      refine (openFor_traces hinner hcondition₁).bind fun rounds b₂ hgrows₂ hrounds => ?_
      refine (Stmt.lower_traces hinner (fun n => (henv₁ n).mono hgrows₂) body hbody hbodyTyped
        hself.2 fun l hl => hlegible l (by simp [Stmt.unparse, hl])).bind
        fun env₃ b₃ hgrows₃ henv₃ => ?_
      have hrounds₃ := hrounds.mono hgrows₃
      refine (Traces.lift (leave_succeeds (t := .jump rounds.incBlock) hrounds₃.2.1
        hrounds₃.2.1)).bind fun _ b₄ hgrows₄ _ => ?_
      have hincrement₄ : Traces (Observed.evaluateOptional logger env₃ increment)
          (increment.occurrences inner) b₄ fun _ _ => True := by
        have hlegible' : ∀ l ∈ increment.unparse, l.Legible := fun l hl =>
          hlegible l (by simp [Stmt.unparse, hl])
        rcases hincTyped with rfl | ⟨t, ht⟩
        · exact evaluateOptional_traces (t := .int) hinner (.inl rfl)
        · exact evaluateOptional_traces hinner (Lowerable.of_optional hincrement (.inr ht) hlegible'
            fun n _ => (henv₃ n).mono hgrows₄)
      refine hincrement₄.bind_last fun _ b₅ hgrows₅ _ => ?_
      have hrounds₅ := hrounds₃.mono (hgrows₄.trans hgrows₅)
      refine (Traces.lift (leave_succeeds (t := .jump rounds.condBlock) hrounds₅.1
        hrounds₅.2.2)).bind fun _ b₆ hgrows₆ _ => .pure fun n => (henv n).mono ?_
      exact ((((hgrows₁.trans hgrows₂).trans hgrows₃).trans hgrows₄).trans hgrows₅).trans hgrows₆

theorem Stmt.lowerAll_traces {env : Environment} {types after : Scopes Ty} {b : Builder}
    (hknown : Known types) (henv : ∀ n, Reaches env types b.module n) :
    (ss : List Stmt) → Stmt.AllWellFormed ss → Stmt.WellTypedAll types ss after →
      Stmt.anySelfInitial ss = false → (∀ l ∈ Stmt.unparseAll ss, l.Legible) →
      Traces (Stmt.lowerAllObserved logger env ss) (Stmt.allOccurrences types ss) b fun _ _ => True
  | [], _, _, _, _ => by
    rw [Stmt.lowerAllObserved, Stmt.allOccurrences]
    exact .pure trivial
  | s :: ss, hwf, htyped, hself, hlegible => by
    obtain ⟨hs, hss⟩ := hwf
    rw [Stmt.anySelfInitial, Bool.or_eq_false_iff] at hself
    rw [Stmt.lowerAllObserved, Stmt.allOccurrences]
    cases htyped with
    | cons hfirst hothers =>
      rw [(Stmt.wellTyped_iff hknown s hs).mp hfirst]
      refine (Stmt.lower_traces hknown henv s hs hfirst hself.1
        fun l hl => hlegible l (by simp [Stmt.unparseAll, hl])).bind fun env' b₁ _ henv' => ?_
      exact Stmt.lowerAll_traces (hknown.check hs hfirst) henv' ss hss hothers hself.2
        fun l hl => hlegible l (by simp [Stmt.unparseAll, hl])

end

/-- A checked program is lowered occurrence by occurrence, up to the end. -/
theorem lowerObserved_traces {text : List Char} {p : Program}
    (hparse : parse (tokenize text) = .ok p) (hclean : analyze p = [])
    (hself : Stmt.anySelfInitial p = false) :
    Traces (lowerObserved logger p) (occurrences p) .initial fun _ _ => True := by
  have hwf := parse_wellFormed hparse
  have htyped : Stmt.WellTypedAll .initial p (Stmt.checkAll .initial p).1 :=
    (Stmt.wellTypedAll_iff Known.initial p hwf).mpr (Prod.ext rfl (analyze_eq_nil.mp hclean))
  have hnone : ∀ n, Reaches [] .initial Builder.initial.module n := by
    intro n t ht
    simp at ht
  rw [lowerObserved, logger_ignoresBlocks.finish_eq]
  exact (Stmt.lowerAll_traces Known.initial hnone p hwf htyped hself
    (unparse_legible hparse)).bind_last fun _ _ _ _ => .lift (finish_succeeds trivial)

/-- If the checker has nothing to report about a program and no declaration mentions its own name in
its initial value, then each expression that is lowered yields a value of the type that the checker
gives the expression.  Lowering comes to all of them or stops at the first without code, so it fails
exactly if there is one, and for no other reason; else all that it has built is well typed. -/
theorem lower_types_as_checked {text : List Char} {p : Program}
    (hparse : parse (tokenize text) = .ok p) (hclean : analyze p = [])
    (hself : Stmt.anySelfInitial p = false) :
    lowerLogged p = (lower p, ((occurrences p).takeWhile fun o => !o.lacksCode).map fun o =>
      (o.expr, o.type)) ∧
    ((∃ e, lower p = .error e) ↔ ∃ o ∈ occurrences p, o.lacksCode = true) ∧
    (∀ e, lower p = .error e → e.Unsupported) ∧
    ∀ m, lower p = .ok m → m.WellTyped := by
  obtain ⟨r, hrun, hr⟩ :=
    lowerObserved_traces hparse hclean hself Builder.Sound.initial []
  have hlogged : lowerLogged p = (r.map fun x => x.2.module, logged (occurrences p)) := by
    unfold lowerLogged
    rw [hrun]
    rfl
  have hlower : lower p = r.map fun x => x.2.module := by
    rw [← lowerLogged_fst, hlogged]
  refine ⟨by rw [hlogged, hlower]; rfl, ?_⟩
  rw [hlower, ← List.any_eq_true]
  by_cases hlacks : (occurrences p).any Occurrence.lacksCode = true
  · rw [if_pos hlacks] at hr
    obtain ⟨e, rfl, he⟩ := hr
    refine ⟨iff_of_true ⟨e, rfl⟩ hlacks, ?_, nofun⟩
    rintro e' heq
    cases heq
    exact he
  · rw [if_neg hlacks] at hr
    obtain ⟨u, b, rfl, hsound, -⟩ := hr
    refine ⟨iff_of_false (by rintro ⟨e, he⟩; cases he) hlacks, nofun, ?_⟩
    rintro m heq
    cases heq
    exact hsound.wellTyped

/-- The loop `alang (tibuok i = 0; i < x; i = i + 1) imprenta_gawas -i;` compares an integer with a
floating point number and is lowered to a well-typed module.  Behind it `x == "a"` stops the lowering
after its operands, although the checker lets it pass. -/
theorem lower_types_mixed_loop :
    let loop : Program :=
      [.declare "lutaw" "x" (.literal .float "1.5"),
        .forLoop (.declare "tibuok" "i" (.literal .int "0"))
          (.binary .less (.name "i") (.name "x"))
          (.assign "i" (.binary .add (.name "i") (.literal .int "1")))
          (.print (.unary .negate (.name "i")))]
    let last : Expr := .binary .equal (.name "x") (.literal .string "a")
    let front := "lutaw x = 1.5; alang (tibuok i = 0; i < x; i = i + 1) imprenta_gawas -i;".toList
    let text := front ++ " x == \"a\";".toList
    parse (tokenize front) = .ok loop ∧ analyze loop = [] ∧ Stmt.anySelfInitial loop = false ∧
      (∃ m, lower loop = .ok m ∧ m.WellTyped) ∧
      parse (tokenize text) = .ok (loop ++ [.expression last]) ∧
      analyze (loop ++ [.expression last]) = [] ∧
      Stmt.anySelfInitial (loop ++ [.expression last]) = false ∧
      (∃ e, lower (loop ++ [.expression last]) = .error e ∧ e.Unsupported) ∧
      (lowerLogged (loop ++ [.expression last])).2 =
        (lowerLogged loop).2 ++ [(.name "x", .float), (.literal .string "a", .string)] := by
  intro loop last front text
  have hparse : parse (tokenize front) = .ok loop := by
    refine parse_of_spelled ?_ ?_
    · simp only [loop, WellFormed, Stmt.AllWellFormed, Stmt.WellFormed, reduceCtorEq, false_or]
      decide
    · simp only [front]
      decide +kernel
  have hparse' : parse (tokenize text) = .ok (loop ++ [.expression last]) := by
    refine parse_of_spelled ?_ ?_
    · simp only [loop, last, List.cons_append, List.nil_append, WellFormed, Stmt.AllWellFormed,
        Stmt.WellFormed, reduceCtorEq, false_or]
      decide
    · simp only [text, front]
      decide +kernel
  have hclean : analyze loop = [] := by decide
  have hclean' : analyze (loop ++ [.expression last]) = [] := by decide
  have hself : Stmt.anySelfInitial loop = false := by decide
  have hself' : Stmt.anySelfInitial (loop ++ [.expression last]) = false := by decide
  have hcode : ¬∃ o ∈ occurrences loop, o.lacksCode = true := by decide +kernel
  have hlacks : ∃ o ∈ occurrences (loop ++ [.expression last]), o.lacksCode = true := by
    decide +kernel
  obtain ⟨hlog, hfails, -, htyped⟩ := lower_types_as_checked hparse hclean hself
  obtain ⟨hlog', hfails', hunsupported, -⟩ := lower_types_as_checked hparse' hclean' hself'
  have hbuilt : ∃ m, lower loop = .ok m ∧ m.WellTyped := by
    cases hlower : lower loop with
    | error e => exact absurd (hfails.mp ⟨e, hlower⟩) hcode
    | ok m => exact ⟨m, rfl, htyped m hlower⟩
  obtain ⟨e, he⟩ := hfails'.mpr hlacks
  refine ⟨hparse, hclean, hself, hbuilt, hparse', hclean', hself', ⟨e, he, hunsupported e he⟩, ?_⟩
  rw [hlog, hlog']
  decide +kernel

end Binisaya
