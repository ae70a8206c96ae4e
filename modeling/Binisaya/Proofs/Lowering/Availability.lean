import Binisaya.Proofs.Lowering.ControlFlow
import Binisaya.Proofs.Lowering.ModuleTyping

/-!
# What instructions may use

An instruction works on constants, on results of earlier instructions of its own block, and on the
slots of the entry.  `Builder.Ordered` says so of a main function under construction.  Every step of
lowering keeps it; slots may be added to the entry at any time, since nothing that stands there
moves.  Main statement: behind the code of an expression its value may be used.
-/

namespace Binisaya

namespace Llvm

/-- What an instruction works on. -/
def Instr.operands : Instr → List Operand
  | .alloca _ => []
  | .store value slot => [value, slot]
  | .load _ slot => [slot]
  | .operate _ left right => [left, right]
  | .icmp _ left right => [left, right]
  | .fcmp _ left right => [left, right]
  | .convert _ value _ => [value]
  | .call _ argument => [argument]

/-- The address that an instruction reads from or writes to. -/
def Instr.pointer? : Instr → Option Operand
  | .store _ slot => some slot
  | .load _ slot => some slot
  | _ => none

/-- A kind of instruction that compares two operands. -/
structure Instr.IsTest (i : Operand → Operand → Instr) : Prop where
  operands : ∀ left right, (i left right).operands = [left, right]
  pointer : ∀ left right, (i left right).pointer? = none
  isAlloca : ∀ left right, (i left right).isAlloca = false
  resultType : ∀ left right, (i left right).resultType = some .i1

/-- What the end of a block works on. -/
def Terminator.operands : Terminator → List Operand
  | .branch condition _ _ => [condition]
  | _ => []

/-- An operand is used by the instruction at a place, or by the end of a block, whose place is
behind all instructions. -/
inductive Module.Uses (m : Module) (use : Place) (o : Operand) : Prop where
  | instr {i : Instr} (hi : m.instr? use = some i) (ho : o ∈ i.operands)
  | terminator {x : Block} {t : Terminator} (hx : m.blocks[use.block]? = some x)
      (hindex : use.index = x.instrs.length) (ht : x.terminator = some t) (ho : o ∈ t.operands)

/-- The address of a slot of the entry. -/
def Operand.IsSlot (m : Module) (o : Operand) : Prop :=
  ∃ index type, o = .result ⟨0, index⟩ (.pointer type) ∧ m.instr? ⟨0, index⟩ = some (.alloca type)

/-- The address of a slot of the entry that has been reserved where it is used. -/
def Operand.IsSlotFor (m : Module) (use : Place) (o : Operand) : Prop :=
  ∃ index type, o = .result ⟨0, index⟩ (.pointer type) ∧
    m.instr? ⟨0, index⟩ = some (.alloca type) ∧ (use.block = 0 → index < use.index)

/-- If an operand is a result, an earlier instruction of the block where it is used has produced it,
or it is a slot of the entry. -/
def Operand.Available (m : Module) (use : Place) (o : Operand) : Prop :=
  ∀ place type, o = .result place type →
    place.block = use.block ∧ place.index < use.index ∧
      (m.instr? place).bind Instr.resultType = some type ∨ o.IsSlotFor m use

/-- The ways through a main function: the blocks that are passed, the latest first. -/
inductive Module.Walk (m : Module) : List Nat → Prop where
  | entry : Walk m [0]
  | step {n next : Nat} {passed : List Nat} {x : Block} {t : Terminator} (h : Walk m (n :: passed))
      (hx : m.blocks[n]? = some x) (ht : x.terminator = some t) (hnext : next ∈ t.targets) :
      Walk m (next :: n :: passed)

/-- On every way to `use` the place `d` is passed before. -/
def Place.Dominates (m : Module) (d use : Place) : Prop :=
  ∀ passed, m.Walk (use.block :: passed) →
    d.block ∈ passed ∨ d.block = use.block ∧ d.index < use.index

theorem Module.Walk.entry_mem {m : Module} {blocks : List Nat} (h : m.Walk blocks) :
    0 ∈ blocks := by
  induction h with
  | entry => exact List.mem_singleton_self 0
  | step _ _ _ _ ih => exact List.mem_cons_of_mem _ ih

theorem Operand.IsSlotFor.dominates {m : Module} {use place : Place} {type : ValueType}
    (h : (Operand.result place type).IsSlotFor m use) : place.Dominates m use := by
  obtain ⟨index, target, hresult, -, hbefore⟩ := h
  obtain ⟨rfl, -⟩ := Operand.result.inj hresult
  intro passed hwalk
  by_cases huse : use.block = 0
  · exact .inr ⟨huse.symm, hbefore huse⟩
  · rcases List.mem_cons.mp hwalk.entry_mem with hzero | hzero
    · exact absurd hzero.symm huse
    · exact .inl hzero

theorem Operand.IsSlotFor.available {m : Module} {use : Place} {o : Operand}
    (h : o.IsSlotFor m use) : o.Available m use := fun _ _ _ => .inr h

theorem Operand.Available.dominates {m : Module} {use place : Place} {type : ValueType}
    (h : (Operand.result place type).Available m use) : place.Dominates m use := by
  rcases h place type rfl with ⟨hblock, hindex, -⟩ | hslot
  · exact fun _ _ => .inr ⟨hblock, hindex⟩
  · exact hslot.dominates

end Llvm

open Llvm

namespace Lowering

/-! ### Growing main functions -/

namespace Grows

variable {m m' : Module} {o : Operand} {use use' : Place}

theorem isSlot (h : Grows m m') (ho : o.IsSlot m) : o.IsSlot m' := by
  obtain ⟨index, type, rfl, hi⟩ := ho
  exact ⟨index, type, rfl, h.instr? hi⟩

/-- A slot can be used further on, and in a main function with more code. -/
theorem isSlotFor (h : Grows m m') (ho : o.IsSlotFor m use) (hblock : use'.block = use.block)
    (hindex : use.index ≤ use'.index) : o.IsSlotFor m' use' := by
  obtain ⟨index, type, rfl, hi, hbefore⟩ := ho
  refine ⟨index, type, rfl, h.instr? hi, ?_⟩
  intro hzero
  exact Nat.lt_of_lt_of_le (hbefore (hblock ▸ hzero)) hindex

theorem available (h : Grows m m') (ho : o.Available m use) (hblock : use'.block = use.block)
    (hindex : use.index ≤ use'.index) : o.Available m' use' := by
  intro place type heq
  rcases ho place type heq with ⟨hplace, hbefore, htype⟩ | hslot
  · obtain ⟨i, hi, htype⟩ := Option.bind_eq_some_iff.mp htype
    exact .inl ⟨hplace.trans hblock.symm, Nat.lt_of_lt_of_le hbefore hindex,
      Option.bind_eq_some_iff.mpr ⟨i, h.instr? hi, htype⟩⟩
  · exact .inr (h.isSlotFor hslot hblock hindex)

end Grows

/-- What has been built uses results only where they are available. -/
structure Builder.Ordered (b : Builder) : Prop where
  current_lt : b.current < b.blocks.length
  available : ∀ use o, b.module.Uses use o → o.Available b.module use
  pointers : ∀ use i o, b.module.instr? use = some i → i.pointer? = some o →
    o.IsSlotFor b.module use
  hoisted : ∀ use type, b.module.instr? use = some (.alloca type) → use.block = 0

/-- The place behind all instructions of a block. -/
def Builder.endOf (b : Builder) (n : Nat) : Place := ⟨n, b.length n⟩

/-- What has been computed can be used at the end of the block that is being filled. -/
def Builder.AtHand (b : Builder) (o : Operand) : Prop := o.Available b.module (b.endOf b.current)

section Steps

variable {b b' : Builder}

theorem Builder.lt_length_of_instr? {place : Place} {i : Instr}
    (h : b.module.instr? place = some i) : place.index < b.length place.block := by
  obtain ⟨x, hx, hi⟩ := Option.bind_eq_some_iff.mp h
  have hlt := (List.getElem?_eq_some_iff.mp hi).1
  simpa [Builder.length, show b.blocks[place.block]? = some x from hx] using hlt

/-- A slot can be used at the end of any block. -/
theorem Builder.isSlotFor_endOf {o : Operand} (h : o.IsSlot b.module) (n : Nat) :
    o.IsSlotFor b.module (b.endOf n) := by
  obtain ⟨index, type, rfl, hi⟩ := h
  refine ⟨index, type, rfl, hi, ?_⟩
  rintro rfl
  exact Builder.lt_length_of_instr? hi

theorem Grows.length_le_of (h : Grows b.module b'.module) (n : Nat) : b.length n ≤ b'.length n := by
  unfold Builder.length
  cases hx : b.blocks[n]? with
  | none => simp
  | some x =>
    obtain ⟨y, hy, hprefix⟩ := h.blocks n x hx
    rw [show b'.blocks[n]? = some y from hy]
    exact hprefix.length_le

/-- What is at hand stays at hand in code that stays in its block. -/
theorem Builder.AtHand.mono {o : Operand} (h : b.AtHand o) (hgrows : Grows b.module b'.module)
    (hcurrent : b'.current = b.current) : b'.AtHand o :=
  hgrows.available h hcurrent (by rw [hcurrent]; exact hgrows.length_le_of _)

/-- An instruction in a block that has got one more at its end. -/
theorem instr?_modify_add {n : Nat} {i j : Instr} {use : Place}
    (h : Module.instr? ⟨b.texts, b.blocks.modify n (Block.add i)⟩ use = some j) :
    b.module.instr? use = some j ∨ use = b.endOf n ∧ j = i := by
  obtain ⟨y, hy, hj⟩ := Option.bind_eq_some_iff.mp h
  rw [getElem?_modify_block] at hy
  obtain ⟨x, hx, rfl⟩ := Option.map_eq_some_iff.mp hy
  split at hj
  · next hn =>
    subst hn
    simp only [Block.add, List.getElem?_append, List.getElem?_singleton] at hj
    split at hj
    · exact .inl (Option.bind_eq_some_iff.mpr ⟨x, hx, hj⟩)
    · split at hj
      · refine .inr ⟨?_, (Option.some.inj hj).symm⟩
        have hindex : use.index = b.length use.block := by
          simp only [Builder.length, hx, Option.map_some, Option.getD_some]
          omega
        rw [Builder.endOf, ← hindex]
      · cases hj
  · exact .inl (Option.bind_eq_some_iff.mpr ⟨x, hx, hj⟩)

namespace Builder.Ordered

theorem add (h : b.Ordered) {n : Nat} {i : Instr}
    (hoperands : ∀ o ∈ i.operands, o.Available b.module (b.endOf n))
    (hpointer : ∀ o, i.pointer? = some o → o.IsSlotFor b.module (b.endOf n))
    (halloca : i.isAlloca = true → n = 0) :
    Builder.Ordered { b with blocks := b.blocks.modify n (Block.add i) } := by
  have hgrows : Grows b.module ⟨b.texts, b.blocks.modify n (Block.add i)⟩ :=
    .modify _ _ _ fun _ => List.prefix_append _ _
  refine ⟨by simpa using h.current_lt, ?_, ?_, ?_⟩
  · rintro use o (⟨hj, ho⟩ | ⟨hy, hindex, ht, ho⟩)
    · rcases instr?_modify_add hj with hj | ⟨rfl, rfl⟩
      · exact hgrows.available (h.available use o (.instr hj ho)) rfl (Nat.le_refl _)
      · exact hgrows.available (hoperands o ho) rfl (Nat.le_refl _)
    · -- the end of the block may have moved, but only away from what it uses
      replace hy := (getElem?_modify_block _ _ _ _).symm.trans hy
      obtain ⟨x, hx, rfl⟩ := Option.map_eq_some_iff.mp hy
      have hold := h.available ⟨use.block, x.instrs.length⟩ o
        (.terminator hx rfl (by split at ht <;> exact ht) ho)
      refine hgrows.available hold rfl ?_
      rw [hindex]
      split
      · simp [Block.add]
      · exact Nat.le_refl _
  · intro use j o hj ho
    rcases instr?_modify_add hj with hj | ⟨rfl, rfl⟩
    · exact hgrows.isSlotFor (h.pointers use j o hj ho) rfl (Nat.le_refl _)
    · exact hgrows.isSlotFor (hpointer o ho) rfl (Nat.le_refl _)
  · intro use type hj
    rcases instr?_modify_add hj with hj | ⟨rfl, rfl⟩
    · exact h.hoisted use type hj
    · exact halloca rfl

/-- Nothing but the ends of blocks has changed, and those use what is available. -/
theorem of_same_instrs (h : b.Ordered) {blocks : List Block}
    (hgrows : Grows b.module ⟨b.texts, blocks⟩)
    (hinstrs : ∀ use, Module.instr? ⟨b.texts, blocks⟩ use = b.module.instr? use)
    (hends : ∀ (n : Nat) (y : Block) (t : Terminator), blocks[n]? = some y →
      y.terminator = some t → ∀ o ∈ t.operands, o.Available b.module ⟨n, y.instrs.length⟩) :
    Builder.Ordered { b with blocks := blocks } := by
  refine ⟨Nat.lt_of_lt_of_le h.current_lt hgrows.length_le, ?_, ?_, ?_⟩
  · rintro use o (⟨hi, ho⟩ | ⟨hy, hindex, ht, ho⟩)
    · exact hgrows.available (h.available use o (.instr ((hinstrs use).symm.trans hi) ho)) rfl
        (Nat.le_refl _)
    · exact hgrows.available (hends use.block _ _ hy ht o ho) rfl (Nat.le_of_eq hindex.symm)
  · intro use i o hi ho
    exact hgrows.isSlotFor (h.pointers use i o ((hinstrs use).symm.trans hi) ho) rfl
      (Nat.le_refl _)
  · intro use type hi
    exact h.hoisted use type ((hinstrs use).symm.trans hi)

theorem finish (h : b.Ordered) {g : Guard} {t : Terminator} (ht : ∀ o ∈ t.operands, b.AtHand o) :
    Builder.Ordered { b with blocks := b.blocks.modify b.current (Block.finish g t) } := by
  refine h.of_same_instrs (.modify _ _ _ fun _ => by simp) ?_ ?_
  · intro use
    simp only [Module.instr?, Builder.module, getElem?_modify_block]
    cases b.blocks[use.block]? with
    | none => rfl
    | some x =>
      simp only [Option.map_some, Option.bind_some]
      split <;> simp
  · intro n y u hy hu o ho
    rw [getElem?_modify_block] at hy
    obtain ⟨x, hx, rfl⟩ := Option.map_eq_some_iff.mp hy
    have hold : ∀ v, x.terminator = some v → o ∈ v.operands →
        o.Available b.module ⟨n, x.instrs.length⟩ :=
      fun v hv hmem => h.available ⟨n, _⟩ o (.terminator hx rfl hv hmem)
    by_cases hn : b.current = n
    · subst hn
      rw [if_pos rfl] at hu ⊢
      rcases Block.finish_terminator hu with hend | rfl
      · simpa using hold u hend ho
      · have hhere := ht o ho
        simpa [Builder.AtHand, Builder.endOf, Builder.length, hx] using hhere
    · rw [if_neg hn] at hu ⊢
      exact hold u hu ho

theorem addBlock (h : b.Ordered) (role : Role) :
    Builder.Ordered { b with blocks := b.blocks ++ [⟨role, [], none⟩] } := by
  have hgrows := Grows.addBlock b.texts b.blocks ⟨role, [], none⟩
  refine h.of_same_instrs hgrows ?_ ?_
  · intro use
    cases hi : b.module.instr? use with
    | some i => exact hgrows.instr? hi
    | none =>
      -- the new block is empty, so an instruction would have to be in an old one
      by_contra hne
      obtain ⟨i, hi'⟩ := Option.ne_none_iff_exists'.mp hne
      obtain ⟨y, hy, hj⟩ := Option.bind_eq_some_iff.mp hi'
      rcases getElem?_concat_block hy with hy | ⟨-, rfl⟩
      · rw [show b.module.instr? use = some i from Option.bind_eq_some_iff.mpr ⟨y, hy, hj⟩] at hi
        cases hi
      · simp at hj
  · intro n y t hy ht o ho
    rcases getElem?_concat_block hy with hy | ⟨-, rfl⟩
    · exact h.available ⟨n, _⟩ o (.terminator hy rfl ht ho)
    · cases ht

theorem continueIn (h : b.Ordered) {next : Nat} (hnext : next < b.blocks.length) :
    Builder.Ordered { b with current := next } :=
  ⟨hnext, h.available, h.pointers, h.hoisted⟩

end Builder.Ordered

end Steps

/-! ### Steps -/

/-- Taken in a main function that is ordered, these steps leave it ordered, and their result is as
described. -/
def Orders {α : Type} (f : Lower α) (b : Builder) (done : α → Builder → Prop) : Prop :=
  b.Ordered → ∀ a b', f b = .ok (a, b') → b'.Ordered ∧ Grows b.module b'.module ∧ done a b'

/-- The same of steps that stay in the block that is being filled. -/
def Provides {α : Type} (f : Lower α) (b : Builder) (done : α → Builder → Prop) : Prop :=
  Orders f b fun a b' => b'.current = b.current ∧ done a b'

namespace Orders

variable {α β : Type} {b : Builder}

theorem pure {a : α} {done : α → Builder → Prop} (h : done a b) :
    Orders (Pure.pure a : Lower α) b done := by
  intro hordered _ b' hrun
  cases hrun
  exact ⟨hordered, .refl _, h⟩

theorem bind {f : Lower α} {g : α → Lower β} {first : α → Builder → Prop}
    {second : β → Builder → Prop} (hf : Orders f b first)
    (hg : ∀ a b', Grows b.module b'.module → first a b' → Orders (g a) b' second) :
    Orders (f >>= g) b second := by
  intro hordered c b₂ hrun
  obtain ⟨a, b₁, hfirst, hsecond⟩ := Lower.bind_eq_ok hrun
  obtain ⟨hordered₁, hgrows₁, ha⟩ := hf hordered a b₁ hfirst
  obtain ⟨hordered₂, hgrows₂, hc⟩ := hg a b₁ hgrows₁ ha hordered₁ c b₂ hsecond
  exact ⟨hordered₂, hgrows₁.trans hgrows₂, hc⟩

theorem weaken {f : Lower α} {first second : α → Builder → Prop} (hf : Orders f b first)
    (h : ∀ a b', first a b' → second a b') : Orders f b second := by
  intro hordered a b' hrun
  obtain ⟨hordered', hgrows, ha⟩ := hf hordered a b' hrun
  exact ⟨hordered', hgrows, h a b' ha⟩

end Orders

namespace Provides

variable {α β : Type} {b : Builder}

theorem pure {a : α} {done : α → Builder → Prop} (h : done a b) :
    Provides (Pure.pure a : Lower α) b done := Orders.pure ⟨rfl, h⟩

theorem stop {e : LoweringFailure} {done : α → Builder → Prop} :
    Provides (throw e : Lower α) b done := by
  intro _ a b' hrun
  cases hrun

theorem bind {f : Lower α} {g : α → Lower β} {first : α → Builder → Prop}
    {second : β → Builder → Prop} (hf : Provides f b first)
    (hg : ∀ a b', Grows b.module b'.module → b'.current = b.current → first a b' →
      Provides (g a) b' second) : Provides (f >>= g) b second := by
  refine Orders.bind hf fun a b₁ hgrows ⟨hcurrent, ha⟩ => ?_
  exact (hg a b₁ hgrows hcurrent ha).weaken fun _ _ h => ⟨h.1.trans hcurrent, h.2⟩

end Provides

section Operands

variable {b : Builder}

/-- Instructions that may be added to the block that is being filled: their operands are at hand,
and an address that they use is that of a slot. -/
structure Builder.Accepts (b : Builder) (i : Instr) : Prop where
  operands : ∀ o ∈ i.operands, b.AtHand o
  pointer : ∀ o, i.pointer? = some o → o.IsSlot b.module
  isAlloca : i.isAlloca = false

theorem Builder.atHand_of_isSlot {o : Operand} (h : o.IsSlot b.module) : b.AtHand o :=
  (Builder.isSlotFor_endOf h _).available

theorem Builder.Accepts.ordered {i : Instr} (h : b.Accepts i) (hordered : b.Ordered) :
    Builder.Ordered { b with blocks := b.blocks.modify b.current (Block.add i) } := by
  refine hordered.add h.operands (fun o ho => Builder.isSlotFor_endOf (h.pointer o ho) _) ?_
  rw [h.isAlloca]
  nofun

theorem perform_provides {i : Instr} (h : b.Accepts i) :
    Provides (perform i) b fun _ _ => True := by
  intro hordered _ b' hrun
  cases hrun
  exact ⟨h.ordered hordered, .modify _ _ _ fun _ => List.prefix_append _ _, rfl, trivial⟩

/-- The instruction that has been added to a block is at its former end. -/
theorem instr?_endOf {n : Nat} (hn : n < b.blocks.length) (i : Instr) :
    Module.instr? ⟨b.texts, b.blocks.modify n (Block.add i)⟩ (b.endOf n) = some i := by
  have hx := List.getElem?_eq_getElem hn
  simp [Module.instr?, Builder.endOf, Builder.length, hx, Block.add]

/-- The result of an instruction is at hand behind it. -/
theorem emit_provides {i : Instr} {type : ValueType} (h : b.Accepts i)
    (htype : i.resultType = some type) :
    Provides (emit i type) b fun v b' => b'.AtHand v := by
  intro hordered _ b' hrun
  cases hrun
  refine ⟨h.ordered hordered, .modify _ _ _ fun _ => List.prefix_append _ _, rfl, ?_⟩
  intro place type' heq
  obtain ⟨rfl, rfl⟩ := Operand.result.inj heq
  have hi := instr?_endOf hordered.current_lt i
  exact .inl ⟨rfl, Builder.lt_length_of_instr? hi, Option.bind_eq_some_iff.mpr ⟨i, hi, htype⟩⟩

theorem addText_provides (text : String) : Provides (addText text) b fun v b' => b'.AtHand v := by
  intro hordered _ b' hrun
  cases hrun
  have hgrows := Grows.addText b.texts b.blocks text
  refine ⟨⟨hordered.current_lt, ?_, ?_, hordered.hoisted⟩, hgrows, rfl, nofun⟩
  · rintro use o (⟨hi, ho⟩ | ⟨hx, hindex, ht, ho⟩)
    · exact hgrows.available (hordered.available use o (.instr hi ho)) rfl (Nat.le_refl _)
    · exact hgrows.available (hordered.available use o (.terminator hx hindex ht ho)) rfl
        (Nat.le_refl _)
  · intro use i o hi ho
    exact hgrows.isSlotFor (hordered.pointers use i o hi ho) rfl (Nat.le_refl _)

/-! ### Code for expressions -/

/-- All variables have their slots in the entry. -/
def Environment.Reserved (env : Environment) (m : Module) : Prop :=
  ∀ e ∈ env, e.2.slot.IsSlot m

theorem Environment.Reserved.mono {env : Environment} {m m' : Module}
    (h : Environment.Reserved env m) (hgrows : Grows m m') : Environment.Reserved env m' :=
  fun e he => hgrows.isSlot (h e he)

theorem store_provides {value slot : Operand} (hvalue : b.AtHand value)
    (hslot : slot.IsSlot b.module) : Provides (store value slot) b fun _ _ => True := by
  unfold store
  split
  · refine perform_provides ⟨?_, ?_, rfl⟩
    · simpa [Instr.operands] using ⟨hvalue, Builder.atHand_of_isSlot hslot⟩
    · rintro o ⟨⟩
      exact hslot
  · exact .stop

theorem convert_provides {op : Conversion} {value : Operand} {type : ValueType}
    (hvalue : b.AtHand value) :
    Provides (emit (.convert op value type) type) b fun v b' => b'.AtHand v :=
  emit_provides ⟨by simpa [Instr.operands] using hvalue, nofun, rfl⟩ rfl

theorem widen_provides {v : Typed} (hv : b.AtHand v.operand) (target : Ty) :
    Provides (widen v target) b fun o b' => b'.AtHand o := by
  unfold widen
  split
  · exact convert_provides hv
  · exact convert_provides hv
  · exact convert_provides hv
  · exact .pure hv

theorem literal_provides (kind : LiteralKind) (text : String) :
    Provides (literal kind text) b fun v b' => b'.AtHand v.operand := by
  unfold literal
  split
  · split
    · exact .pure nofun
    · exact .stop
  · split
    · exact .pure nofun
    · exact .stop
  · exact .pure nofun
  · exact (addText_provides text).bind fun _ _ _ _ haddress => .pure haddress
  · exact .stop

theorem compute_provides (op : Operation) {left right : Operand} (type : Ty)
    (hleft : b.AtHand left) (hright : b.AtHand right) :
    Provides (compute op left right type) b fun v b' => b'.AtHand v.operand := by
  have haccepts : b.Accepts (.operate op left right) :=
    ⟨by simpa [Instr.operands] using ⟨hleft, hright⟩, nofun, rfl⟩
  exact (emit_provides haccepts rfl).bind fun _ _ _ _ hv => .pure hv

theorem unary_provides (op : UnaryOp) {v : Typed} (hv : b.AtHand v.operand) :
    Provides (unary op v) b fun v b' => b'.AtHand v.operand := by
  unfold unary
  split
  · exact compute_provides _ _ hv nofun
  · exact compute_provides _ _ nofun hv
  · exact compute_provides _ _ nofun hv
  · exact .stop

theorem arithmetic_provides (op : BinaryOp) {left right : Typed} (hleft : b.AtHand left.operand)
    (hright : b.AtHand right.operand) :
    Provides (arithmetic op left right) b fun v b' => b'.AtHand v.operand := by
  unfold arithmetic
  split
  · exact .stop
  · split
    · exact compute_provides _ _ hleft hright
    · exact .stop

theorem test_provides {i : Operand → Operand → Instr} (hi : Instr.IsTest i)
    {left right : Operand} (hleft : b.AtHand left) (hright : b.AtHand right) :
    Provides (do let v ← emit (i left right) .i1; pure (⟨v, .bool⟩ : Typed)) b
      fun v b' => b'.AtHand v.operand := by
  have haccepts : b.Accepts (i left right) :=
    ⟨by simpa [hi.operands] using ⟨hleft, hright⟩, by simp [hi.pointer], hi.isAlloca _ _⟩
  exact (emit_provides haccepts (hi.resultType _ _)).bind fun _ _ _ _ hv => .pure hv

theorem widenedTest_provides {i : Operand → Operand → Instr} (hi : Instr.IsTest i)
    (target : Ty) {left right : Typed} (hleft : b.AtHand left.operand)
    (hright : b.AtHand right.operand) :
    Provides (do
      let l ← widen left target
      let r ← widen right target
      let v ← emit (i l r) .i1
      pure (⟨v, .bool⟩ : Typed)) b fun v b' => b'.AtHand v.operand := by
  refine (widen_provides hleft target).bind fun l b₁ hgrows₁ hcurrent₁ hl => ?_
  refine (widen_provides (hright.mono hgrows₁ hcurrent₁) target).bind
    fun r b₂ hgrows₂ hcurrent₂ hr => ?_
  exact test_provides hi (hl.mono hgrows₂ hcurrent₂) hr

theorem compare_provides (how : Comparison) {left right : Typed} (hleft : b.AtHand left.operand)
    (hright : b.AtHand right.operand) :
    Provides (compare how left right) b fun v b' => b'.AtHand v.operand := by
  have hicmp : Instr.IsTest (.icmp how) :=
    ⟨fun _ _ => rfl, fun _ _ => rfl, fun _ _ => rfl, fun _ _ => rfl⟩
  have hfcmp : Instr.IsTest (.fcmp how) :=
    ⟨fun _ _ => rfl, fun _ _ => rfl, fun _ _ => rfl, fun _ _ => rfl⟩
  unfold compare
  split
  · split
    · exact widenedTest_provides hfcmp .float hleft hright
    · exact .stop
  · split
    · exact .stop
    · split
      · exact test_provides hicmp hleft hright
      · split
        · exact widenedTest_provides hicmp .int hleft hright
        · exact .stop

theorem binary_provides (op : BinaryOp) {left right : Typed} (hleft : b.AtHand left.operand)
    (hright : b.AtHand right.operand) :
    Provides (binary op left right) b fun v b' => b'.AtHand v.operand := by
  unfold binary
  split
  · exact compare_provides _ hleft hright
  · split
    · exact arithmetic_provides _ hleft hright
    · split
      · exact compute_provides _ _ hleft hright
      · exact compute_provides _ _ hleft hright
      · exact .stop

theorem resolve_provides {env : Environment} (henv : env.Reserved b.module) (name : String) :
    Provides (resolve env name) b fun v b' => v.slot.IsSlot b'.module := by
  unfold resolve
  split
  · next v hv =>
    obtain ⟨newer, older, rfl, -⟩ := List.lookup_eq_some_iff.mp hv
    exact .pure (henv (name, v) (by simp))
  · exact .stop

/-- The value of an expression is at hand behind its code. -/
theorem lower_provides {env : Environment} (henv : env.Reserved b.module) (e : Expr) :
    Provides (e.lower env) b fun v b' => b'.AtHand v.operand := by
  induction e generalizing b with
  | absent => exact .stop
  | literal kind text => exact literal_provides kind text
  | name n =>
    refine (resolve_provides henv n).bind fun v b₁ hgrows₁ _ hslot => ?_
    have haccepts : b₁.Accepts (.load v.type.valueType v.slot) := by
      refine ⟨by simpa [Instr.operands] using Builder.atHand_of_isSlot hslot, ?_, rfl⟩
      rintro o ⟨⟩
      exact hslot
    exact (emit_provides haccepts rfl).bind fun _ _ _ _ hv => .pure hv
  | assign target value ih =>
    refine (resolve_provides henv target).bind fun v b₁ hgrows₁ _ hslot => ?_
    refine (ih (henv.mono hgrows₁)).bind fun given b₂ hgrows₂ _ hgiven => ?_
    refine (widen_provides hgiven v.type).bind fun widened b₃ hgrows₃ _ hwidened => ?_
    refine (store_provides hwidened (hgrows₃.isSlot (hgrows₂.isSlot hslot))).bind
      fun _ b₄ hgrows₄ hcurrent₄ _ => .pure ?_
    exact hwidened.mono hgrows₄ hcurrent₄
  | group inner ih => exact ih henv
  | unary op operand ih => exact (ih henv).bind fun v b₁ _ _ hv => unary_provides op hv
  | binary op left right ihleft ihright =>
    refine (ihleft henv).bind fun l b₁ hgrows₁ _ hl => ?_
    refine (ihright (henv.mono hgrows₁)).bind fun r b₂ hgrows₂ hcurrent₂ hr => ?_
    exact binary_provides op (hl.mono hgrows₂ hcurrent₂) hr

end Operands

end Lowering

end Binisaya
