import Binisaya.Proofs.Lowering.Typing
import Binisaya.Proofs.Semantics.Machine

/-!
# Types in modules

The typing rules of modules: operands carry the types of what they stand for, and instructions and
the ends of blocks have operands of the right types.  `Succeeds` says that steps of lowering, taken
in a main function that is well typed so far, give a result and leave the main function well typed.
Each step is described by it once; that a step is not taken with the wrong operands is a hypothesis
there.
-/

namespace Binisaya

namespace Llvm

/-! ### Typing rules -/

/-- An operand stands for what its type says: for the result of an instruction that has one of this
type, for the address of a text of this size. -/
def Operand.TypedIn (m : Module) : Operand → Prop
  | .result place type => (m.instr? place).bind Instr.resultType = some type
  | .text index size => (m.texts[index]?).map textSize = some size
  | _ => True

/-- The types on which there is an operation. -/
def Operation.accepts (type : ValueType) : Operation → Bool
  | add | sub | mul | sdiv => type = .i8 || type = .i32
  | fadd | fsub | fmul | fdiv => type = .double
  | and | or | xor => type = .i1

/-- The types from which and to which there is a conversion. -/
def Conversion.accepts (source target : ValueType) : Conversion → Bool
  | sext => source = .i8 && target = .i32
  | zext => source = .i1 && target = .i32
  | sitofp => (source = .i8 || source = .i32) && target = .double

/-- The types of integers. -/
def ValueType.isInteger : ValueType → Bool
  | i1 | i8 | i32 => true
  | _ => false

/-- The typing rule of each instruction. -/
def Instr.WellTyped (m : Module) : Instr → Prop
  | .alloca type => type ≠ .void
  | .store value slot => value.TypedIn m ∧ slot.TypedIn m ∧ slot.type = .pointer value.type
  | .load type slot => slot.TypedIn m ∧ slot.type = .pointer type
  | .operate op left right =>
    left.TypedIn m ∧ right.TypedIn m ∧ left.type = right.type ∧ op.accepts left.type
  | .icmp _ left right =>
    left.TypedIn m ∧ right.TypedIn m ∧ left.type = right.type ∧ left.type.isInteger
  | .fcmp _ left right =>
    left.TypedIn m ∧ right.TypedIn m ∧ left.type = right.type ∧ left.type = .double
  | .convert op value type => value.TypedIn m ∧ op.accepts value.type type
  | .call helper argument => argument.TypedIn m ∧ argument.type = helper.argument

/-- The typing rule of each way to end a block. -/
def Terminator.WellTyped (m : Module) : Terminator → Prop
  | .jump target => target < m.blocks.length
  | .branch condition whenTrue whenFalse =>
    condition.TypedIn m ∧ condition.type = .i1 ∧ whenTrue < m.blocks.length ∧
      whenFalse < m.blocks.length
  | .ret => True

/-- All that a block holds is well typed. -/
def Block.WellTyped (m : Module) (x : Block) : Prop :=
  (∀ i ∈ x.instrs, i.WellTyped m) ∧ ∀ t ∈ x.terminator, t.WellTyped m

/-- All that a module holds is well typed. -/
def Module.WellTyped (m : Module) : Prop := ∀ x ∈ m.blocks, x.WellTyped m

instance Operand.decidableTypedIn (m : Module) : (o : Operand) → Decidable (o.TypedIn m)
  | .result place type =>
    inferInstanceAs (Decidable ((m.instr? place).bind Instr.resultType = some type))
  | .text index size => inferInstanceAs (Decidable ((m.texts[index]?).map textSize = some size))
  | .i32 _ | .i8 _ | .i1 _ | .double _ | .null => inferInstanceAs (Decidable True)

instance Instr.decidableWellTyped (m : Module) : (i : Instr) → Decidable (i.WellTyped m)
  | .alloca _ => instDecidableNot
  | .store _ _ | .load _ _ | .operate _ _ _ | .icmp _ _ _ | .fcmp _ _ _ | .convert _ _ _
  | .call _ _ => instDecidableAnd

instance Terminator.decidableWellTyped (m : Module) : (t : Terminator) → Decidable (t.WellTyped m)
  | .jump target => inferInstanceAs (Decidable (target < m.blocks.length))
  | .branch _ _ _ => instDecidableAnd
  | .ret => inferInstanceAs (Decidable True)

instance Block.decidableWellTyped (m : Module) (x : Block) : Decidable (x.WellTyped m) :=
  inferInstanceAs (Decidable ((∀ i ∈ x.instrs, i.WellTyped m) ∧ ∀ t ∈ x.terminator, t.WellTyped m))

instance Module.decidableWellTyped (m : Module) : Decidable m.WellTyped :=
  inferInstanceAs (Decidable (∀ x ∈ m.blocks, x.WellTyped m))

/-- A number is stored in a slot for numbers, and not in one for truth values. -/
example :
    let m (type : ValueType) : Module :=
      ⟨[], [⟨.entry, [.alloca type, .store (.i32 1) (.result ⟨0, 0⟩ (.pointer type))], some .ret⟩]⟩
    (m .i32).WellTyped ∧ ¬(m .i1).WellTyped := by
  decide

theorem Block.wellTyped_empty (m : Module) (role : Role) :
    (⟨role, [], none⟩ : Block).WellTyped m := by
  simp [Block.WellTyped]

end Llvm

open Llvm

namespace Lowering

/-! ### Growing modules -/

/-- A module with all the instructions and texts of another one, in the same places. -/
structure Grows (m m' : Module) : Prop where
  texts : m.texts <+: m'.texts
  blocks : ∀ (n : Nat) (x : Block), m.blocks[n]? = some x →
    ∃ y, m'.blocks[n]? = some y ∧ x.instrs <+: y.instrs

namespace Grows

variable {m m' m'' : Module}

theorem refl (m : Module) : Grows m m :=
  ⟨List.prefix_refl _, fun _ x hx => ⟨x, hx, List.prefix_refl _⟩⟩

theorem trans (h : Grows m m') (h' : Grows m' m'') : Grows m m'' := by
  refine ⟨h.texts.trans h'.texts, ?_⟩
  intro n x hx
  obtain ⟨y, hy, hprefix⟩ := h.blocks n x hx
  obtain ⟨z, hz, hprefix'⟩ := h'.blocks n y hy
  exact ⟨z, hz, hprefix.trans hprefix'⟩

theorem length_le (h : Grows m m') : m.blocks.length ≤ m'.blocks.length := by
  apply Nat.le_of_not_lt
  intro hlast
  obtain ⟨y, hy, -⟩ := h.blocks _ _ (List.getElem?_eq_getElem hlast)
  simp at hy

theorem instr? (h : Grows m m') {place : Place} {i : Instr} (hi : m.instr? place = some i) :
    m'.instr? place = some i := by
  unfold Module.instr? at hi ⊢
  cases hx : m.blocks[place.block]? with
  | none => simp [hx] at hi
  | some x =>
    obtain ⟨y, hy, more, hmore⟩ := h.blocks _ x hx
    rw [hx, Option.bind_some] at hi
    obtain ⟨hlt, -⟩ := List.getElem?_eq_some_iff.mp hi
    rw [hy, Option.bind_some, ← hmore, List.getElem?_append_left hlt, hi]

theorem typedIn (h : Grows m m') {o : Operand} (ho : o.TypedIn m) : o.TypedIn m' := by
  cases o with
  | result place type =>
    obtain ⟨i, hi, htype⟩ := Option.bind_eq_some_iff.mp ho
    exact Option.bind_eq_some_iff.mpr ⟨i, h.instr? hi, htype⟩
  | text index size =>
    obtain ⟨text, htext, hsize⟩ := Option.map_eq_some_iff.mp ho
    obtain ⟨more, hmore⟩ := h.texts
    obtain ⟨hlt, -⟩ := List.getElem?_eq_some_iff.mp htext
    refine Option.map_eq_some_iff.mpr ⟨text, ?_, hsize⟩
    rw [← hmore, List.getElem?_append_left hlt, htext]
  | _ => trivial

theorem instr_wellTyped (h : Grows m m') {i : Instr} (hi : i.WellTyped m) : i.WellTyped m' := by
  cases i with
  | alloca type => exact hi
  | store value slot => exact ⟨h.typedIn hi.1, h.typedIn hi.2.1, hi.2.2⟩
  | load type slot => exact ⟨h.typedIn hi.1, hi.2⟩
  | operate op left right => exact ⟨h.typedIn hi.1, h.typedIn hi.2.1, hi.2.2⟩
  | icmp how left right => exact ⟨h.typedIn hi.1, h.typedIn hi.2.1, hi.2.2⟩
  | fcmp how left right => exact ⟨h.typedIn hi.1, h.typedIn hi.2.1, hi.2.2⟩
  | convert op value type => exact ⟨h.typedIn hi.1, hi.2⟩
  | call helper argument => exact ⟨h.typedIn hi.1, hi.2⟩

theorem terminator_wellTyped (h : Grows m m') {t : Terminator} (ht : t.WellTyped m) :
    t.WellTyped m' := by
  have hle := h.length_le
  cases t with
  | jump target => exact Nat.lt_of_lt_of_le ht hle
  | branch condition whenTrue whenFalse =>
    exact ⟨h.typedIn ht.1, ht.2.1, Nat.lt_of_lt_of_le ht.2.2.1 hle,
      Nat.lt_of_lt_of_le ht.2.2.2 hle⟩
  | ret => trivial

theorem block_wellTyped (h : Grows m m') {x : Block} (hx : x.WellTyped m) : x.WellTyped m' :=
  ⟨fun i hi => h.instr_wellTyped (hx.1 i hi), fun t ht => h.terminator_wellTyped (hx.2 t ht)⟩

/-- A block that is changed grows if its instructions do. -/
theorem modify (texts : List String) (blocks : List Block) (n : Nat) {f : Block → Block}
    (hf : ∀ x, x.instrs <+: (f x).instrs) : Grows ⟨texts, blocks⟩ ⟨texts, blocks.modify n f⟩ := by
  refine ⟨List.prefix_refl _, ?_⟩
  intro i x hx
  refine ⟨if n = i then f x else x, ?_, ?_⟩
  · rw [List.getElem?_modify, show blocks[i]? = some x from hx]
    rfl
  · split
    · exact hf x
    · exact List.prefix_refl _

theorem addBlock (texts : List String) (blocks : List Block) (x : Block) :
    Grows ⟨texts, blocks⟩ ⟨texts, blocks ++ [x]⟩ := by
  refine ⟨List.prefix_refl _, fun n y hy => ⟨y, ?_, List.prefix_refl _⟩⟩
  obtain ⟨hlt, -⟩ := List.getElem?_eq_some_iff.mp hy
  rw [← hy]
  exact List.getElem?_append_left hlt

theorem addText (texts : List String) (blocks : List Block) (text : String) :
    Grows ⟨texts, blocks⟩ ⟨texts ++ [text], blocks⟩ :=
  ⟨List.prefix_append _ _, fun _ x hx => ⟨x, hx, List.prefix_refl _⟩⟩

end Grows

/-! ### Main functions that are well typed so far -/

/-- What has been built is well typed, and the block that is being filled exists. -/
structure Builder.Sound (b : Builder) : Prop where
  current_lt : b.current < b.blocks.length
  wellTyped : b.module.WellTyped

namespace Builder.Sound

variable {b : Builder}

theorem initial : Builder.initial.Sound := by
  refine ⟨by decide, ?_⟩
  intro x hx
  obtain rfl := List.mem_singleton.mp hx
  exact Block.wellTyped_empty _ _

/-- A block that exists may be changed to one that is well typed. -/
theorem modify (h : b.Sound) (n : Nat) {f : Block → Block} (hf : ∀ x, x.instrs <+: (f x).instrs)
    (htyped : ∀ x, x.WellTyped b.module → (f x).WellTyped ⟨b.texts, b.blocks.modify n f⟩) :
    Builder.Sound { b with blocks := b.blocks.modify n f } := by
  refine ⟨by simpa using h.current_lt, ?_⟩
  intro y hy
  obtain ⟨i, hi⟩ := List.mem_iff_getElem?.mp hy
  rw [show (Builder.module { b with blocks := b.blocks.modify n f }).blocks = b.blocks.modify n f
    from rfl, List.getElem?_modify] at hi
  obtain ⟨x, hx, rfl⟩ := Option.map_eq_some_iff.mp hi
  have hold := h.wellTyped x (List.mem_of_getElem? hx)
  by_cases hn : n = i
  · simp only [hn, if_true]
    exact hn ▸ htyped x hold
  · simp only [hn, if_false]
    exact (Grows.modify b.texts b.blocks n hf).block_wellTyped hold

/-- A well-typed instruction may be added to any block. -/
theorem add (h : b.Sound) (n : Nat) {i : Instr} (hi : i.WellTyped b.module) :
    Builder.Sound { b with blocks := b.blocks.modify n (Block.add i) } := by
  have hadd : ∀ x, x.instrs <+: (Block.add i x).instrs := fun x => List.prefix_append _ _
  have hgrows := Grows.modify b.texts b.blocks n hadd
  refine h.modify n hadd fun x hx => ⟨?_, (hgrows.block_wellTyped hx).2⟩
  intro j hj
  rcases List.mem_append.mp hj with hj | hj
  · exact (hgrows.block_wellTyped hx).1 j hj
  · obtain rfl := List.mem_singleton.mp hj
    exact hgrows.instr_wellTyped hi

/-- A block may end in a well-typed way. -/
theorem finish (h : b.Sound) {g : Guard} {t : Terminator} (ht : t.WellTyped b.module) :
    Builder.Sound { b with blocks := b.blocks.modify b.current (Block.finish g t) } := by
  have hfinish : ∀ x, x.instrs <+: (Block.finish g t x).instrs := fun x => by simp
  have hgrows := Grows.modify b.texts b.blocks b.current hfinish
  refine h.modify _ hfinish fun x hx => ⟨by simpa using (hgrows.block_wellTyped hx).1, ?_⟩
  intro u hu
  rcases Block.finish_terminator hu with hend | rfl
  · exact (hgrows.block_wellTyped hx).2 u hend
  · exact hgrows.terminator_wellTyped ht

end Builder.Sound

/-- Taken in a main function that is well typed so far, these steps give a result as described and
leave it well typed. -/
def Succeeds {α : Type} (f : Lower α) (b : Builder) (done : α → Builder → Prop) : Prop :=
  b.Sound → ∃ a b', f b = .ok (a, b') ∧ b'.Sound ∧ Grows b.module b'.module ∧ done a b'

namespace Succeeds

variable {α β : Type} {b : Builder}

theorem pure {a : α} {done : α → Builder → Prop} (h : done a b) :
    Succeeds (Pure.pure a : Lower α) b done :=
  fun hsound => ⟨a, b, rfl, hsound, .refl _, h⟩

theorem bind {f : Lower α} {g : α → Lower β} {first : α → Builder → Prop}
    {second : β → Builder → Prop} (hf : Succeeds f b first)
    (hg : ∀ a b', Grows b.module b'.module → first a b' → Succeeds (g a) b' second) :
    Succeeds (f >>= g) b second := by
  intro hsound
  obtain ⟨a, b₁, hfirst, hsound₁, hgrows₁, ha⟩ := hf hsound
  obtain ⟨c, b₂, hsecond, hsound₂, hgrows₂, hc⟩ := hg a b₁ hgrows₁ ha hsound₁
  refine ⟨c, b₂, ?_, hsound₂, hgrows₁.trans hgrows₂, hc⟩
  rw [Lower.bind_of_ok hfirst, hsecond]

theorem mono {f : Lower α} {first second : α → Builder → Prop} (hf : Succeeds f b first)
    (h : ∀ a b', first a b' → second a b') : Succeeds f b second := by
  intro hsound
  obtain ⟨a, b', hrun, hsound', hgrows, ha⟩ := hf hsound
  exact ⟨a, b', hrun, hsound', hgrows, h a b' ha⟩

end Succeeds

/-! ### Steps -/

variable {b : Builder}

theorem perform_succeeds {i : Instr} (h : i.WellTyped b.module) :
    Succeeds (perform i) b fun _ _ => True := by
  intro hsound
  exact ⟨(), _, rfl, hsound.add b.current h,
    .modify _ _ _ fun x => List.prefix_append _ _, trivial⟩

/-- An instruction with a result may be added to any block that exists. -/
theorem emitTo_succeeds {block : Nat} {i : Instr} {type : ValueType}
    (hblock : b.Sound → block < b.blocks.length) (h : i.WellTyped b.module)
    (htype : i.resultType = some type) :
    Succeeds (emitTo block i type) b fun v b' => v.type = type ∧ v.TypedIn b'.module := by
  intro hsound
  refine ⟨_, _, rfl, hsound.add block h, .modify _ _ _ fun x => List.prefix_append _ _, rfl, ?_⟩
  have hx := List.getElem?_eq_getElem (hblock hsound)
  refine Option.bind_eq_some_iff.mpr ⟨i, ?_, htype⟩
  simp [Module.instr?, Builder.module, hx, Builder.length, Block.add]

theorem emit_succeeds {i : Instr} {type : ValueType} (h : i.WellTyped b.module)
    (htype : i.resultType = some type) :
    Succeeds (emit i type) b fun v b' => v.type = type ∧ v.TypedIn b'.module :=
  emitTo_succeeds (fun hsound => hsound.current_lt) h htype

theorem reserve_succeeds {type : ValueType} (h : type ≠ .void) :
    Succeeds (reserve type) b fun v b' => v.type = .pointer type ∧ v.TypedIn b'.module :=
  emitTo_succeeds (fun hsound => Nat.lt_of_le_of_lt (Nat.zero_le _) hsound.current_lt) h rfl

theorem addText_succeeds (text : String) :
    Succeeds (addText text) b fun v b' => v.type = .text ∧ v.TypedIn b'.module := by
  intro hsound
  have hgrows := Grows.addText b.texts b.blocks text
  refine ⟨_, _, rfl, ⟨hsound.current_lt, ?_⟩, hgrows, rfl, ?_⟩
  · exact fun x hx => hgrows.block_wellTyped (hsound.wellTyped x hx)
  · simp [Operand.TypedIn, Builder.module]

theorem addBlock_succeeds (role : Role) :
    Succeeds (addBlock role) b fun n b' => n < b'.blocks.length := by
  intro hsound
  have hgrows := Grows.addBlock b.texts b.blocks ⟨role, [], none⟩
  refine ⟨_, _, rfl, ⟨?_, ?_⟩, hgrows, by simp⟩
  · have := hsound.current_lt
    simp only [List.length_append]
    omega
  · intro x hx
    rcases List.mem_append.mp hx with hx | hx
    · exact hgrows.block_wellTyped (hsound.wellTyped x hx)
    · obtain rfl := List.mem_singleton.mp hx
      exact Block.wellTyped_empty _ _

theorem finish_succeeds {g : Guard} {t : Terminator} (h : t.WellTyped b.module) :
    Succeeds (finish g t) b fun _ _ => True :=
  fun hsound => ⟨(), _, rfl, hsound.finish h, .modify _ _ _ fun _ => by simp, trivial⟩

theorem leave_succeeds {g : Guard} {t : Terminator} {next : Nat} (h : t.WellTyped b.module)
    (hnext : next < b.blocks.length) : Succeeds (leave g t next) b fun _ _ => True := by
  refine (finish_succeeds h).bind fun _ b' hgrows _ hsound => ?_
  exact ⟨(), _, rfl, ⟨Nat.lt_of_lt_of_le hnext hgrows.length_le, hsound.wellTyped⟩, .refl _, trivial⟩

theorem store_succeeds {value slot : Operand} (hvalue : value.TypedIn b.module)
    (hslot : slot.TypedIn b.module) (h : slot.type = .pointer value.type) :
    Succeeds (store value slot) b fun _ _ => True := by
  unfold store
  rw [if_pos h]
  exact perform_succeeds ⟨hvalue, hslot, h⟩

end Lowering

end Binisaya
