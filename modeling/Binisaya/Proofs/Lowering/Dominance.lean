import Binisaya.Proofs.Lowering.Availability
import Binisaya.Proofs.Typing.Restoration

/-!
# Definitions and uses in the main function

Statements leave a main function ordered, and reserve one slot for each declaration in them.  Main
statement: the module of a program reserves its slots in the entry, one for each declaration, and
every result is defined on all ways to its uses.
-/

namespace Binisaya

open Llvm

namespace Lowering

/-! ### Code for statements -/

section Statements

variable {b : Builder} {env : Environment}

theorem reserve_provides (type : ValueType) :
    Provides (reserve type) b fun slot b' => slot.IsSlot b'.module := by
  intro hordered _ b' hrun
  cases hrun
  have hpos : 0 < b.blocks.length := Nat.lt_of_le_of_lt (Nat.zero_le _) hordered.current_lt
  refine ⟨hordered.add (by simp [Instr.operands]) nofun fun _ => rfl,
    .modify _ _ _ fun _ => List.prefix_append _ _, rfl, _, type, rfl, ?_⟩
  exact instr?_endOf hpos (.alloca type)

theorem initialValue_provides (henv : env.Reserved b.module) (type : Ty) (initial : Expr) :
    Provides (initialValue env type initial) b fun v b' => b'.AtHand v := by
  unfold initialValue
  split
  · refine .pure ?_
    cases type <;> exact nofun
  · exact (lower_provides henv initial).bind fun v b₁ _ _ hv => widen_provides hv type

theorem declaration_provides (henv : env.Reserved b.module) (type : Ty) (name : String)
    (initial : Expr) :
    Provides (declaration env type name initial) b fun env' b' => env'.Reserved b'.module := by
  refine (reserve_provides _).bind fun slot b₁ hgrows₁ _ hslot => ?_
  refine (initialValue_provides (henv.mono hgrows₁) type initial).bind
    fun value b₂ hgrows₂ _ hvalue => ?_
  refine (store_provides hvalue (hgrows₂.isSlot hslot)).bind fun _ b₃ hgrows₃ _ _ => .pure ?_
  rintro e (_ | ⟨_, he⟩)
  · exact hgrows₃.isSlot (hgrows₂.isSlot hslot)
  · exact hgrows₃.isSlot (hgrows₂.isSlot (hgrows₁.isSlot (henv e he)))

theorem print_provides {v : Typed} (hv : b.AtHand v.operand) :
    Provides (print v) b fun _ _ => True := by
  have hcall : ∀ {b' : Builder} (helper : Helper) (o : Operand), b'.AtHand o →
      Provides (perform (.call helper o)) b' fun _ _ => True := by
    intro b' helper o ho
    exact perform_provides ⟨by simpa [Instr.operands] using ho, nofun, rfl⟩
  unfold print
  split
  · exact hcall _ _ hv
  · exact (convert_provides hv).bind fun n _ _ _ hn => hcall _ n hn
  · exact hcall _ _ hv
  · exact hcall _ _ hv
  · exact hcall _ _ hv
  · exact .stop

theorem evaluateOptional_provides (henv : env.Reserved b.module) (e : Expr) :
    Provides (evaluateOptional env e) b fun _ _ => True := by
  unfold evaluateOptional
  split
  · exact .pure trivial
  · exact (lower_provides henv e).bind fun _ _ _ _ _ => .pure trivial

theorem addBlock_provides (role : Role) :
    Provides (addBlock role) b fun n b' => n < b'.blocks.length := by
  intro hordered _ b' hrun
  cases hrun
  exact ⟨hordered.addBlock role, .addBlock _ _ _, rfl, by simp⟩

theorem leave_orders {g : Guard} {t : Terminator} {next : Nat} (ht : ∀ o ∈ t.operands, b.AtHand o)
    (hnext : next < b.blocks.length) : Orders (leave g t next) b fun _ _ => True := by
  intro hordered _ b' hrun
  cases hrun
  exact ⟨(hordered.finish ht).continueIn (by simpa using hnext), .modify _ _ _ fun _ => by simp,
    trivial⟩

theorem jump_orders {g : Guard} {target next : Nat} (hnext : next < b.blocks.length) :
    Orders (leave g (.jump target) next) b fun _ _ => True :=
  leave_orders nofun hnext

theorem branchOn_orders (henv : env.Reserved b.module) (condition : Expr) {whenTrue : Nat}
    (whenFalse : Nat) (hnext : whenTrue < b.blocks.length) :
    Orders (branchOn env condition whenTrue whenFalse) b fun _ _ => True := by
  refine Orders.bind (lower_provides henv condition) fun v b₁ hgrows₁ ⟨_, hv⟩ => ?_
  exact leave_orders (by simpa [Terminator.operands] using hv)
    (Nat.lt_of_lt_of_le hnext hgrows₁.length_le)

theorem branchOnOptional_orders (henv : env.Reserved b.module) (condition : Expr) {whenTrue : Nat}
    (whenFalse : Nat) (hnext : whenTrue < b.blocks.length) :
    Orders (branchOnOptional env condition whenTrue whenFalse) b fun _ _ => True := by
  unfold branchOnOptional
  split
  · exact jump_orders hnext
  · exact branchOn_orders henv condition whenFalse hnext

theorem openArms_orders (henv : env.Reserved b.module) (condition : Expr) (hasAlternative : Bool) :
    Orders (openArms env condition hasAlternative) b fun arms b' =>
      arms.elseBlock < b'.blocks.length ∧ arms.endBlock < b'.blocks.length := by
  refine Orders.bind (lower_provides henv condition) fun v b₁ _ ⟨_, hv⟩ => ?_
  refine Orders.bind (addBlock_provides _) fun thenBlock b₂ hgrows₂ ⟨hcurrent₂, hthen⟩ => ?_
  refine Orders.bind (addBlock_provides _) fun endBlock b₃ hgrows₃ ⟨hcurrent₃, hend⟩ => ?_
  have helse : Provides (if hasAlternative then addBlock .ifElse else pure endBlock) b₃
      fun n b' => n < b'.blocks.length := by
    split
    · exact addBlock_provides _
    · exact .pure hend
  refine Orders.bind helse fun elseBlock b₄ hgrows₄ ⟨hcurrent₄, helse⟩ => ?_
  have hv₄ := ((hv.mono hgrows₂ hcurrent₂).mono hgrows₃ hcurrent₃).mono hgrows₄ hcurrent₄
  have hthen₄ := Nat.lt_of_lt_of_le hthen (hgrows₃.trans hgrows₄).length_le
  refine (leave_orders (by simpa [Terminator.operands] using hv₄) hthen₄).bind
    fun _ b₅ hgrows₅ _ => .pure ⟨?_, ?_⟩
  · exact Nat.lt_of_lt_of_le helse hgrows₅.length_le
  · exact Nat.lt_of_lt_of_le hend (hgrows₄.trans hgrows₅).length_le

theorem openWhile_orders (henv : env.Reserved b.module) (condition : Expr) :
    Orders (openWhile env condition) b fun rounds b' => rounds.endBlock < b'.blocks.length := by
  refine Orders.bind (addBlock_provides _) fun condBlock b₁ hgrows₁ ⟨_, hcond⟩ => ?_
  refine Orders.bind (addBlock_provides _) fun bodyBlock b₂ hgrows₂ ⟨_, hbody⟩ => ?_
  refine Orders.bind (addBlock_provides _) fun endBlock b₃ hgrows₃ ⟨_, hend⟩ => ?_
  refine (jump_orders (Nat.lt_of_lt_of_le hcond (hgrows₂.trans hgrows₃).length_le)).bind
    fun _ b₄ hgrows₄ _ => ?_
  have henv₄ := henv.mono (((hgrows₁.trans hgrows₂).trans hgrows₃).trans hgrows₄)
  have hbody₄ := Nat.lt_of_lt_of_le hbody (hgrows₃.trans hgrows₄).length_le
  refine (branchOn_orders henv₄ condition endBlock hbody₄).bind fun _ b₅ hgrows₅ _ => .pure ?_
  exact Nat.lt_of_lt_of_le hend (hgrows₄.trans hgrows₅).length_le

theorem openFor_orders (henv : env.Reserved b.module) (condition : Expr) :
    Orders (openFor env condition) b fun rounds b' =>
      rounds.incBlock < b'.blocks.length ∧ rounds.endBlock < b'.blocks.length := by
  refine Orders.bind (addBlock_provides _) fun condBlock b₁ hgrows₁ ⟨_, hcond⟩ => ?_
  refine Orders.bind (addBlock_provides _) fun bodyBlock b₂ hgrows₂ ⟨_, hbody⟩ => ?_
  refine Orders.bind (addBlock_provides _) fun incBlock b₃ hgrows₃ ⟨_, hinc⟩ => ?_
  refine Orders.bind (addBlock_provides _) fun endBlock b₄ hgrows₄ ⟨_, hend⟩ => ?_
  have hgrows := (hgrows₂.trans hgrows₃).trans hgrows₄
  refine (jump_orders (Nat.lt_of_lt_of_le hcond hgrows.length_le)).bind fun _ b₅ hgrows₅ _ => ?_
  have henv₅ := henv.mono ((hgrows₁.trans hgrows).trans hgrows₅)
  have hbody₅ := Nat.lt_of_lt_of_le hbody ((hgrows₃.trans hgrows₄).trans hgrows₅).length_le
  refine (branchOnOptional_orders henv₅ condition endBlock hbody₅).bind
    fun _ b₆ hgrows₆ _ => .pure ⟨?_, ?_⟩
  · exact Nat.lt_of_lt_of_le hinc ((hgrows₄.trans hgrows₅).trans hgrows₆).length_le
  · exact Nat.lt_of_lt_of_le hend (hgrows₅.trans hgrows₆).length_le

end Statements

end Lowering

open Lowering

mutual

/-- The code of a statement leaves the main function ordered. -/
theorem Stmt.lower_orders {env : Environment} {b : Builder} (henv : env.Reserved b.module) :
    (s : Stmt) → Orders (s.lower env) b fun env' b' => env'.Reserved b'.module
  | .absent => by
    rw [Stmt.lower]
    intro _ _ _ hrun
    cases hrun
  | .declare type name initial => by
    rw [Stmt.lower]
    exact Orders.weaken (declaration_provides henv _ name initial) fun _ _ h => h.2
  | .print value => by
    rw [Stmt.lower]
    refine Orders.bind (lower_provides henv value) fun v b₁ hgrows₁ ⟨_, hv⟩ => ?_
    exact Orders.bind (print_provides hv) fun _ b₂ hgrows₂ _ =>
      .pure (henv.mono (hgrows₁.trans hgrows₂))
  | .expression value => by
    rw [Stmt.lower]
    exact Orders.bind (lower_provides henv value) fun _ b₁ hgrows₁ _ => .pure (henv.mono hgrows₁)
  | .block body => by
    rw [Stmt.lower]
    exact (Stmt.lowerAll_orders henv body).bind fun _ b₁ hgrows₁ _ => .pure (henv.mono hgrows₁)
  | .ifElse condition consequent alternative => by
    rw [Stmt.lower]
    refine (openArms_orders henv condition _).bind fun arms b₁ hgrows₁ ⟨helse, hend⟩ => ?_
    refine (Stmt.lower_orders (henv.mono hgrows₁) consequent).bind
      fun between b₂ hgrows₂ hbetween => ?_
    refine (jump_orders (Nat.lt_of_lt_of_le helse hgrows₂.length_le)).bind
      fun _ b₃ hgrows₃ _ => ?_
    have hbetween₃ := hbetween.mono hgrows₃
    split
    · exact .pure hbetween₃
    · refine (Stmt.lower_orders hbetween₃ alternative).bind fun after b₄ hgrows₄ hafter => ?_
      have hend₄ := Nat.lt_of_lt_of_le hend ((hgrows₂.trans hgrows₃).trans hgrows₄).length_le
      exact (jump_orders hend₄).bind fun _ b₅ hgrows₅ _ => .pure (hafter.mono hgrows₅)
  | .whileLoop condition body => by
    rw [Stmt.lower]
    refine (openWhile_orders henv condition).bind fun rounds b₁ hgrows₁ hend => ?_
    refine (Stmt.lower_orders (henv.mono hgrows₁) body).bind fun after b₂ hgrows₂ hafter => ?_
    exact (jump_orders (Nat.lt_of_lt_of_le hend hgrows₂.length_le)).bind fun _ b₃ hgrows₃ _ =>
      .pure (hafter.mono hgrows₃)
  | .forLoop initial condition increment body => by
    rw [Stmt.lower]
    have hinitial : Orders (if initial.isAbsent then pure env else initial.lower env) b
        fun env' b' => env'.Reserved b'.module := by
      split
      · exact .pure henv
      · exact Stmt.lower_orders henv initial
    refine hinitial.bind fun inner b₁ hgrows₁ hinner => ?_
    refine (openFor_orders hinner condition).bind fun rounds b₂ hgrows₂ ⟨hinc, hend⟩ => ?_
    refine (Stmt.lower_orders (hinner.mono hgrows₂) body).bind fun after b₃ hgrows₃ hafter => ?_
    refine (jump_orders (Nat.lt_of_lt_of_le hinc hgrows₃.length_le)).bind fun _ b₄ hgrows₄ _ => ?_
    refine Orders.bind (evaluateOptional_provides (hafter.mono hgrows₄) increment)
      fun _ b₅ hgrows₅ _ => ?_
    have hgrows := (hgrows₃.trans hgrows₄).trans hgrows₅
    refine (jump_orders (Nat.lt_of_lt_of_le hend hgrows.length_le)).bind fun _ b₆ hgrows₆ _ => ?_
    exact .pure (henv.mono (((hgrows₁.trans hgrows₂).trans hgrows).trans hgrows₆))

theorem Stmt.lowerAll_orders {env : Environment} {b : Builder} (henv : env.Reserved b.module) :
    (ss : List Stmt) → Orders (Stmt.lowerAll env ss) b fun env' b' => env'.Reserved b'.module
  | [] => by
    rw [Stmt.lowerAll]
    exact .pure henv
  | s :: ss => by
    rw [Stmt.lowerAll]
    exact (Stmt.lower_orders henv s).bind fun _ _ _ hafter => Stmt.lowerAll_orders hafter ss

end

/-! ### The number of slots -/

/-- The number of instructions that reserve a slot. -/
def Llvm.Module.slotCount (m : Module) : Nat :=
  (m.blocks.flatMap Block.instrs).countP Instr.isAlloca

namespace Lowering

/-- These steps reserve `n` slots. -/
def Reserves {α : Type} (f : Lower α) (n : Nat) : Prop :=
  ∀ b a b', 0 < b.blocks.length → f b = .ok (a, b') →
    0 < b'.blocks.length ∧ b'.module.slotCount = b.module.slotCount + n

theorem countP_flatMap_modify {f : Block → Block}
    (hf : ∀ x, (f x).instrs.countP Instr.isAlloca = x.instrs.countP Instr.isAlloca)
    (blocks : List Block) (n : Nat) :
    ((blocks.modify n f).flatMap Block.instrs).countP Instr.isAlloca =
      (blocks.flatMap Block.instrs).countP Instr.isAlloca := by
  induction blocks generalizing n with
  | nil => simp
  | cons x xs ih =>
    cases n with
    | zero => simp [hf]
    | succ n => simp [ih]

namespace Reserves

variable {α β : Type}

theorem pure (a : α) : Reserves (Pure.pure a : Lower α) 0 := by
  intro b _ b' hpos hrun
  cases hrun
  exact ⟨hpos, rfl⟩

theorem bind {f : Lower α} {g : α → Lower β} {n k : Nat} (hf : Reserves f n)
    (hg : ∀ a, Reserves (g a) k) : Reserves (f >>= g) (n + k) := by
  intro b c b' hpos hrun
  obtain ⟨a, mid, hfirst, hsecond⟩ := Lower.bind_eq_ok hrun
  obtain ⟨hpos₁, hcount₁⟩ := hf b a mid hpos hfirst
  obtain ⟨hpos₂, hcount₂⟩ := hg a mid c b' hpos₁ hsecond
  exact ⟨hpos₂, by omega⟩

theorem cast {f : Lower α} {n k : Nat} (h : Reserves f n) (heq : n = k) : Reserves f k := heq ▸ h

theorem modify {b : Builder} {f : Block → Block}
    (hf : ∀ x, (f x).instrs.countP Instr.isAlloca = x.instrs.countP Instr.isAlloca) (n : Nat)
    (hpos : 0 < b.blocks.length) : 0 < (b.blocks.modify n f).length ∧
      Module.slotCount ⟨b.texts, b.blocks.modify n f⟩ = b.module.slotCount :=
  ⟨by simpa using hpos, countP_flatMap_modify hf b.blocks n⟩

theorem of_inline {f : Lower α} (h : Inline f) : Reserves f 0 := by
  induction h with
  | pure a => exact .pure a
  | stop e =>
    intro b _ b' _ hrun
    cases hrun
  | bind _ _ ihf ihg => exact ihf.bind ihg
  | emit ins type hins =>
    intro b _ b' hpos hrun
    cases hrun
    exact modify (by simp [Block.add, hins]) _ hpos
  | perform ins hins =>
    intro b _ b' hpos hrun
    cases hrun
    exact modify (by simp [Block.add, hins]) _ hpos
  | addText text =>
    intro b _ b' hpos hrun
    cases hrun
    exact ⟨hpos, rfl⟩

end Reserves

theorem reserve_reserves (type : ValueType) : Reserves (reserve type) 1 := by
  intro b _ b' hpos hrun
  cases hrun
  refine ⟨by simpa using hpos, ?_⟩
  obtain ⟨x, xs, hblocks⟩ := List.exists_cons_of_length_pos hpos
  simp only [Module.slotCount, Builder.module, hblocks, List.modify_zero_cons, List.flatMap_cons,
    Block.add, List.countP_append, List.countP_singleton, Instr.isAlloca, if_true]
  omega

theorem addBlock_reserves (role : Role) : Reserves (addBlock role) 0 := by
  intro b _ b' hpos hrun
  cases hrun
  exact ⟨by simp, by simp [Module.slotCount, Builder.module]⟩

theorem leave_reserves {g : Guard} (t : Terminator) (next : Nat) : Reserves (leave g t next) 0 := by
  intro b _ b' hpos hrun
  cases hrun
  exact Reserves.modify (f := Block.finish g t) (fun _ => by simp) _ hpos

theorem declaration_reserves (env : Environment) (type : Ty) (name : String) (initial : Expr) :
    Reserves (declaration env type name initial) 1 :=
  (reserve_reserves _).bind fun _ =>
    .of_inline ((initialValue_inline env type initial).bind fun _ =>
      (store_inline _ _).bind fun _ => .pure _)

theorem branchOn_reserves (env : Environment) (condition : Expr) (whenTrue whenFalse : Nat) :
    Reserves (branchOn env condition whenTrue whenFalse) 0 :=
  (Reserves.of_inline (lower_inline env condition)).bind fun _ => leave_reserves _ _

theorem branchOnOptional_reserves (env : Environment) (condition : Expr)
    (whenTrue whenFalse : Nat) :
    Reserves (branchOnOptional env condition whenTrue whenFalse) 0 := by
  unfold branchOnOptional
  split
  · exact leave_reserves _ _
  · exact branchOn_reserves env condition whenTrue whenFalse

theorem openArms_reserves (env : Environment) (condition : Expr) (hasAlternative : Bool) :
    Reserves (openArms env condition hasAlternative) 0 := by
  have helse : ∀ endBlock,
      Reserves (if hasAlternative then addBlock .ifElse else pure endBlock) 0 := by
    intro endBlock
    split
    · exact addBlock_reserves _
    · exact .pure _
  exact (Reserves.of_inline (lower_inline env condition)).bind fun _ =>
    (addBlock_reserves _).bind fun _ => (addBlock_reserves _).bind fun endBlock =>
    (helse endBlock).bind fun _ => (leave_reserves _ _).bind fun _ => .pure _

theorem openWhile_reserves (env : Environment) (condition : Expr) :
    Reserves (openWhile env condition) 0 :=
  (addBlock_reserves _).bind fun _ => (addBlock_reserves _).bind fun _ =>
    (addBlock_reserves _).bind fun _ => (leave_reserves _ _).bind fun _ =>
    (branchOn_reserves env condition _ _).bind fun _ => .pure _

theorem openFor_reserves (env : Environment) (condition : Expr) :
    Reserves (openFor env condition) 0 :=
  (addBlock_reserves _).bind fun _ => (addBlock_reserves _).bind fun _ =>
    (addBlock_reserves _).bind fun _ => (addBlock_reserves _).bind fun _ =>
    (leave_reserves _ _).bind fun _ =>
    (branchOnOptional_reserves env condition _ _).bind fun _ => .pure _

end Lowering

theorem Stmt.parts_of_isAbsent {s : Stmt} (h : s.isAbsent = true) : s.parts = [] := by
  cases s with
  | absent => rw [Stmt.parts]
  | _ => cases h

mutual

/-- A statement reserves a slot for each declaration in it, however deep. -/
theorem Stmt.lower_reserves (env : Environment) :
    (s : Stmt) → Reserves (s.lower env) (s.parts.countP Stmt.isDeclare)
  | .absent => by
    rw [Stmt.lower]
    exact .of_inline (.stop _)
  | .declare type name initial => by
    rw [Stmt.lower]
    exact declaration_reserves env _ name initial
  | .print value => by
    rw [Stmt.lower]
    exact .of_inline ((lower_inline env value).bind fun v => (print_inline v).bind fun _ => .pure _)
  | .expression value => by
    rw [Stmt.lower]
    exact .of_inline ((lower_inline env value).bind fun _ => .pure _)
  | .block body => by
    rw [Stmt.lower, Stmt.parts, List.countP_cons_of_neg (by simp [Stmt.isDeclare])]
    exact (Stmt.lowerAll_reserves env body).bind fun _ => .pure _
  | .ifElse condition consequent alternative => by
    rw [Stmt.lower, Stmt.parts, List.countP_cons_of_neg (by simp [Stmt.isDeclare]),
      List.countP_append]
    have halternative : ∀ (between : Environment) (arms : Arms), Reserves
        (if alternative.isAbsent then pure between
         else do
          let after ← alternative.lower between
          leave .unlessEnded (.jump arms.endBlock) arms.endBlock
          pure after) (alternative.parts.countP Stmt.isDeclare) := by
      intro between arms
      split
      · next habsent =>
        rw [Stmt.parts_of_isAbsent habsent]
        exact .pure between
      · exact (Stmt.lower_reserves between alternative).bind fun _ =>
          (leave_reserves _ _).bind fun _ => .pure _
    exact ((openArms_reserves env condition _).bind fun arms =>
      (Stmt.lower_reserves env consequent).bind fun between => (leave_reserves _ _).bind fun _ =>
      halternative between arms).cast (by omega)
  | .whileLoop condition body => by
    rw [Stmt.lower, Stmt.parts, List.countP_cons_of_neg (by simp [Stmt.isDeclare])]
    exact ((openWhile_reserves env condition).bind fun _ =>
      (Stmt.lower_reserves env body).bind fun _ =>
      (leave_reserves _ _).bind fun _ => .pure _).cast (by omega)
  | .forLoop initial condition increment body => by
    rw [Stmt.lower, Stmt.parts, List.countP_cons_of_neg (by simp [Stmt.isDeclare]),
      List.countP_append]
    have hinitial : Reserves (if initial.isAbsent then pure env else initial.lower env)
        (initial.parts.countP Stmt.isDeclare) := by
      split
      · next habsent =>
        rw [Stmt.parts_of_isAbsent habsent]
        exact .pure env
      · exact Stmt.lower_reserves env initial
    exact (hinitial.bind fun inner => (openFor_reserves inner condition).bind fun _ =>
      (Stmt.lower_reserves inner body).bind fun after => (leave_reserves _ _).bind fun _ =>
      (Reserves.of_inline (evaluateOptional_inline after increment)).bind fun _ =>
      (leave_reserves _ _).bind fun _ => .pure _).cast (by omega)

theorem Stmt.lowerAll_reserves (env : Environment) :
    (ss : List Stmt) → Reserves (Stmt.lowerAll env ss) ((Stmt.allParts ss).countP Stmt.isDeclare)
  | [] => by
    rw [Stmt.lowerAll]
    exact .pure _
  | s :: ss => by
    rw [Stmt.lowerAll, Stmt.allParts, List.countP_append]
    exact (Stmt.lower_reserves env s).bind fun after => Stmt.lowerAll_reserves after ss

end

/-! ### Programs -/

theorem Lowering.Builder.Ordered.initial : Builder.initial.Ordered := by
  have hnone : ∀ use, Builder.initial.module.instr? use = none := by
    intro use
    cases hi : Builder.initial.module.instr? use with
    | none => rfl
    | some i =>
      obtain ⟨x, hx, hinstr⟩ := Option.bind_eq_some_iff.mp hi
      obtain rfl := List.mem_singleton.mp (List.mem_of_getElem? hx)
      simp at hinstr
  refine ⟨by decide, ?_, by simp [hnone], by simp [hnone]⟩
  rintro use o (⟨hi, -⟩ | ⟨hx, -, ht, -⟩)
  · simp [hnone] at hi
  · obtain rfl := List.mem_singleton.mp (List.mem_of_getElem? hx)
    cases ht

theorem Lowering.Accounted.entry_label {unended : List Nat} {record : List Moment} {b : Builder}
    (h : Accounted unended record b) (hpos : 0 < b.blocks.length) :
    b.module.labels[0]? = some "entry" := by
  have hx : b.module.blocks[0]? = some b.blocks[0] := List.getElem?_eq_getElem hpos
  have hrole := (h.entry_iff 0 _ hx).mpr rfl
  rw [Module.labels_getElem?, hx, Option.map_some, (Role.label_eq_entry_iff _ 0).mpr hrole]

/-- Where the slots and the other results of a program's main function are defined and used. -/
theorem lower_dominates_uses {p : Program} {m : Module} (h : lower p = .ok m) :
    m.slotCount = (Stmt.allParts p).countP Stmt.isDeclare ∧
      m.labels[0]? = some "entry" ∧
      (∀ place type, m.instr? place = some (.alloca type) → place.block = 0) ∧
      (∀ use o, m.Uses use o → o.Available m use) ∧
      (∀ use place type, m.Uses use (.result place type) → place.Dominates m use) ∧
      ∀ use i o, m.instr? use = some i → i.pointer? = some o → o.IsSlotFor m use := by
  have hentry : m.labels[0]? = some "entry" := by
    obtain ⟨b, record, -, rfl, haccounted, hcurrent, -⟩ := exists_accounted_of_lower h
    exact haccounted.entry_label (Nat.lt_of_le_of_lt (Nat.zero_le _) hcurrent)
  have henv : Environment.Reserved [] Builder.initial.module := nofun
  rw [lower_eq] at h
  cases hrun : (Stmt.lowerAll [] p >>= fun _ => finish .unlessEnded .ret) Builder.initial with
  | error e =>
    rw [hrun] at h
    cases h
  | ok x =>
    rw [hrun] at h
    cases h
    obtain ⟨_, b⟩ := x
    obtain ⟨env, mid, hbody, hfinish⟩ := Lower.bind_eq_ok hrun
    obtain ⟨hordered, -, -⟩ := Stmt.lowerAll_orders henv p .initial _ _ hbody
    obtain ⟨hpos, hcount⟩ := Stmt.lowerAll_reserves [] p _ _ _ (by decide) hbody
    cases hfinish
    have hfinal := hordered.finish (g := .unlessEnded) (t := .ret) nofun
    have hslots := (Reserves.modify (f := Block.finish .unlessEnded .ret)
      (fun _ => by simp) mid.current hpos).2
    refine ⟨hslots.trans (hcount.trans (Nat.zero_add _)), hentry, hfinal.hoisted, hfinal.available,
      fun use place type huse => (hfinal.available use _ huse).dominates, hfinal.pointers⟩

/-- A declaration in a conditional in a loop: its slot joins the entry, which has ended by then, and
dominates the block in which it is first written to. -/
theorem dominates_nested_declaration :
    let p : Program :=
      [.whileLoop (.literal .bool "true")
        (.block [.declare "tibuok" "x" (.literal .int "1"),
          .ifElse (.binary .less (.name "x") (.literal .int "2"))
            (.block [.declare "lutaw" "y" (.name "x")]) .absent])]
    let slot : Operand := .result ⟨0, 1⟩ (.pointer .double)
    ∃ m, lower p = .ok m ∧ m.slotCount = 2 ∧
      m.instr? ⟨4, 2⟩ = some (.store (.result ⟨4, 1⟩ .double) slot) ∧
      slot.IsSlotFor m ⟨4, 2⟩ ∧ (Place.mk 0 1).Dominates m ⟨4, 2⟩ ∧
      (Place.mk 4 1).Dominates m ⟨4, 2⟩ ∧ ∀ use o, m.Uses use o → o.Available m use := by
  intro p slot
  have hstore : (lower p).map (fun m => m.instr? ⟨4, 2⟩) =
      .ok (some (.store (.result ⟨4, 1⟩ .double) slot)) := by
    decide +kernel
  cases hlower : lower p with
  | error e =>
    rw [hlower] at hstore
    cases hstore
  | ok m =>
    rw [hlower] at hstore
    replace hstore := Except.ok.inj hstore
    obtain ⟨hcount, -, -, havailable, hdominates, hpointers⟩ := lower_dominates_uses hlower
    refine ⟨m, rfl, hcount.trans (by decide +kernel), hstore, hpointers _ _ _ hstore rfl,
      hdominates _ _ (.pointer .double) (.instr hstore ?_),
      hdominates _ _ .double (.instr hstore ?_), havailable⟩
    · simp [Instr.operands, slot]
    · simp [Instr.operands]

end Binisaya
