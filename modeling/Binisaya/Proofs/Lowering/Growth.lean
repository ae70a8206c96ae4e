import Binisaya.Lowering.Stmt

/-!
# How a main function grows

What lowering does to a main function under construction.  Code is only ever added: to the block
that is being filled, to blocks that are new, and to the entry, which takes slots also after it has
ended.  `Extends` says that a later state keeps the code of an earlier one, `Advances` that also no
other block has been touched.  Main statement: the code of a statement advances the main function.
-/

namespace Binisaya

open Llvm

/-- Whether an instruction reserves a slot. -/
def Llvm.Instr.isAlloca : Instr → Bool
  | .alloca _ => true
  | _ => false

namespace Llvm.Block

/-- A block that has not ended takes any end. -/
theorem finish_of_open {x : Block} (h : x.terminator = none) (g : Guard) (t : Terminator) :
    x.finish g t = { x with terminator := some t } := by
  cases g with
  | unlessEnded => simp [finish, h]
  | always => rfl

/-- The end of a block that is ended is the new one or the one that it had. -/
theorem finish_terminator {g : Guard} {t u : Terminator} {x : Block}
    (h : (x.finish g t).terminator = some u) : x.terminator = some u ∨ t = u := by
  cases hx : x.terminator with
  | none =>
    rw [finish_of_open hx] at h
    exact .inr (Option.some.inj h)
  | some v =>
    cases g with
    | unlessEnded => exact .inl (by simpa [finish, hx] using h)
    | always => exact .inr (Option.some.inj h)

@[simp]
theorem finish_instrs (g : Guard) (t : Terminator) (x : Block) :
    (x.finish g t).instrs = x.instrs := by
  cases g <;> rfl

@[simp]
theorem finish_role (g : Guard) (t : Terminator) (x : Block) : (x.finish g t).role = x.role := by
  cases g <;> rfl

end Llvm.Block

namespace Lowering

/-! ### Steps of lowering -/

namespace Lower

variable {α β : Type}

theorem bind_run (f : Lower α) (g : α → Lower β) (b : Builder) :
    (f >>= g) b = (f b).bind fun x => g x.1 x.2 := rfl

theorem bind_of_ok {f : Lower α} {b b' : Builder} {a : α} (h : f b = .ok (a, b'))
    (g : α → Lower β) : (f >>= g) b = g a b' := by
  rw [bind_run, h]
  rfl

theorem bind_of_error {f : Lower α} {b : Builder} {e : LoweringFailure} (h : f b = .error e)
    (g : α → Lower β) : (f >>= g) b = .error e := by
  rw [bind_run, h]
  rfl

theorem bind_eq_ok {f : Lower α} {g : α → Lower β} {b b' : Builder} {c : β}
    (h : (f >>= g) b = .ok (c, b')) : ∃ a mid, f b = .ok (a, mid) ∧ g a mid = .ok (c, b') := by
  cases hf : f b with
  | error e =>
    rw [bind_of_error hf] at h
    cases h
  | ok x => exact ⟨x.1, x.2, rfl, by rwa [bind_of_ok hf] at h⟩

end Lower

/-! ### Extension -/

/-- Nothing has been added to a block but slots, and those only to the entry. -/
def Sealed (i : Nat) (x y : Block) : Prop :=
  y.terminator = x.terminator ∧
    ∃ more, y.instrs = x.instrs ++ more ∧ ∀ j ∈ more, i = 0 ∧ j.isAlloca = true

/-- A block that had not ended has been carried on. -/
def CarriedOn (x y : Block) : Prop := x.terminator = none ∧ x.instrs <+: y.instrs

/-- A module with all the code of another one, in which blocks that have ended there stay as they
are but for the slots of the entry. -/
structure Extends (m m' : Module) : Prop where
  texts : m.texts <+: m'.texts
  blocks : ∀ i x, m.blocks[i]? = some x →
    ∃ y, m'.blocks[i]? = some y ∧ (Sealed i x y ∨ CarriedOn x y)

/-- What has been built so far, as a module. -/
def Builder.module (b : Builder) : Module := ⟨b.texts, b.blocks⟩

/-- The block that is being filled exists and has not ended. -/
def Builder.IsOpen (b : Builder) : Prop :=
  ∃ x, b.blocks[b.current]? = some x ∧ x.terminator = none

theorem Builder.isOpen_initial : Builder.initial.IsOpen := ⟨_, rfl, rfl⟩

/-- A block that is still to be filled. -/
def Builder.IsEmpty (b : Builder) (i : Nat) : Prop :=
  ∃ x, b.blocks[i]? = some x ∧ x.instrs = [] ∧ x.terminator = none

theorem Sealed.refl (i : Nat) (x : Block) : Sealed i x x := ⟨rfl, [], by simp⟩

theorem Sealed.trans {i : Nat} {x y z : Block} (h : Sealed i x y) (h' : Sealed i y z) :
    Sealed i x z := by
  obtain ⟨hend, more, hmore, hslots⟩ := h
  obtain ⟨hend', more', hmore', hslots'⟩ := h'
  refine ⟨hend'.trans hend, more ++ more', by rw [hmore', hmore, List.append_assoc], ?_⟩
  intro j hj
  rcases List.mem_append.mp hj with hj | hj
  · exact hslots j hj
  · exact hslots' j hj

theorem Sealed.isPrefix {i : Nat} {x y : Block} (h : Sealed i x y) : x.instrs <+: y.instrs := by
  obtain ⟨-, more, hmore, -⟩ := h
  exact ⟨more, hmore.symm⟩

/-- A block other than the entry does not change at all once it is left alone. -/
theorem Sealed.instrs_eq {i : Nat} {x y : Block} (h : Sealed i x y) (hi : i ≠ 0) :
    y.instrs = x.instrs := by
  obtain ⟨-, more, hmore, hslots⟩ := h
  cases more with
  | nil => rw [hmore, List.append_nil]
  | cons j more => exact absurd (hslots j (by simp)).1 hi

namespace Extends

theorem refl (m : Module) : Extends m m :=
  ⟨List.prefix_refl _, fun i x hx => ⟨x, hx, .inl (Sealed.refl i x)⟩⟩

theorem trans {m m' m'' : Module} (h : Extends m m') (h' : Extends m' m'') : Extends m m'' := by
  refine ⟨h.texts.trans h'.texts, ?_⟩
  intro i x hx
  obtain ⟨y, hy, hxy⟩ := h.blocks i x hx
  obtain ⟨z, hz, hyz⟩ := h'.blocks i y hy
  refine ⟨z, hz, ?_⟩
  rcases hxy with hxy | ⟨hopen, hxy⟩
  · rcases hyz with hyz | ⟨hopen, hyz⟩
    · exact .inl (hxy.trans hyz)
    · exact .inr ⟨hxy.1 ▸ hopen, hxy.isPrefix.trans hyz⟩
  · refine .inr ⟨hopen, hxy.trans ?_⟩
    rcases hyz with hyz | hyz
    · exact hyz.isPrefix
    · exact hyz.2

theorem isPrefix {m m' : Module} (h : Extends m m') {i : Nat} {x : Block}
    (hx : m.blocks[i]? = some x) : ∃ y, m'.blocks[i]? = some y ∧ x.instrs <+: y.instrs := by
  obtain ⟨y, hy, hxy⟩ := h.blocks i x hx
  rcases hxy with hxy | hxy
  · exact ⟨y, hy, hxy.isPrefix⟩
  · exact ⟨y, hy, hxy.2⟩

theorem length_le {m m' : Module} (h : Extends m m') : m.blocks.length ≤ m'.blocks.length := by
  apply Nat.le_of_not_lt
  intro hlt
  obtain ⟨y, hy, -⟩ := h.blocks m'.blocks.length _ (List.getElem?_eq_getElem hlt)
  rw [List.getElem?_eq_none (Nat.le_refl _)] at hy
  cases hy

end Extends

/-- From one state of lowering to a later one, in the course of which only the block that was being
filled and new blocks are written to, but for the slots of the entry. -/
structure Advances (b b' : Builder) : Prop where
  extend : Extends b.module b'.module
  isOpen : b'.IsOpen
  others : ∀ i x, i ≠ b.current → b.blocks[i]? = some x →
    ∃ y, b'.blocks[i]? = some y ∧ Sealed i x y
  current : b'.current = b.current ∨ b.blocks.length ≤ b'.current

namespace Advances

theorem refl {b : Builder} (h : b.IsOpen) : Advances b b :=
  ⟨.refl _, h, fun i x _ hx => ⟨x, hx, Sealed.refl i x⟩, .inl rfl⟩

theorem length_le {b b' : Builder} (h : Advances b b') : b.blocks.length ≤ b'.blocks.length :=
  h.extend.length_le

theorem trans {b b' b'' : Builder} (h : Advances b b') (h' : Advances b' b'') :
    Advances b b'' := by
  refine ⟨h.extend.trans h'.extend, h'.isOpen, ?_, ?_⟩
  · intro i x hi hx
    obtain ⟨y, hy, hxy⟩ := h.others i x hi hx
    have hi' : i ≠ b'.current := by
      have hlt := (List.getElem?_eq_some_iff.mp hx).1
      rcases h.current with hc | hc
      · rwa [hc]
      · omega
    obtain ⟨z, hz, hyz⟩ := h'.others i y hi' hy
    exact ⟨z, hz, hxy.trans hyz⟩
  · have := h.length_le
    rcases h'.current with hc' | hc'
    · rw [hc']
      exact h.current
    · exact .inr (by omega)

/-- A block that waits to be filled goes on waiting. -/
theorem isEmpty {b b' : Builder} (h : Advances b b') {i : Nat} (hi : b.IsEmpty i)
    (hne : i ≠ b.current) (hpos : i ≠ 0) : b'.IsEmpty i := by
  obtain ⟨x, hx, hinstrs, hend⟩ := hi
  obtain ⟨y, hy, hxy⟩ := h.others i x hne hx
  exact ⟨y, hy, (hxy.instrs_eq hpos).trans hinstrs, hxy.1.trans hend⟩

/-- Such a block is not the one that is filled meanwhile. -/
theorem ne_current {b b' : Builder} (h : Advances b b') {i : Nat} (hi : b.IsEmpty i)
    (hne : i ≠ b.current) : i ≠ b'.current := by
  obtain ⟨x, hx, -⟩ := hi
  have hlt := (List.getElem?_eq_some_iff.mp hx).1
  rcases h.current with hc | hc
  · rwa [hc]
  · omega

/-- Code that stays in the block that is being filled. -/
theorem of_same_current {b b' : Builder} (hopen : b.IsOpen) (hcurrent : b'.current = b.current)
    (htexts : b.texts <+: b'.texts)
    (hblocks : ∀ i x, b.blocks[i]? = some x → ∃ y, b'.blocks[i]? = some y ∧
      y.terminator = x.terminator ∧ (Sealed i x y ∨ i = b.current ∧ x.instrs <+: y.instrs)) :
    Advances b b' := by
  obtain ⟨here, hhere, hend⟩ := hopen
  refine ⟨⟨htexts, ?_⟩, ?_, ?_, .inl hcurrent⟩
  · intro i x hx
    obtain ⟨y, hy, -, hsealed | ⟨hi, hmore⟩⟩ := hblocks i x hx
    · exact ⟨y, hy, .inl hsealed⟩
    · have hx' : b.blocks[b.current]? = some x := hi ▸ hx
      rw [hhere] at hx'
      exact ⟨y, hy, .inr ⟨Option.some.inj hx' ▸ hend, hmore⟩⟩
  · obtain ⟨y, hy, hend', -⟩ := hblocks _ _ hhere
    exact ⟨y, hcurrent ▸ hy, hend'.trans hend⟩
  · intro i x hi hx
    obtain ⟨y, hy, -, hsealed | ⟨hi', -⟩⟩ := hblocks i x hx
    · exact ⟨y, hy, hsealed⟩
    · exact absurd hi' hi

end Advances

/-! ### Code that stays in its block -/

theorem getElem?_modify_block (blocks : List Block) (n i : Nat) (f : Block → Block) :
    (blocks.modify n f)[i]? = (blocks[i]?).map fun x => if n = i then f x else x := by
  rw [List.getElem?_modify]
  rfl

/-- Each of the blocks with one more is one of the blocks or the new one. -/
theorem getElem?_concat_block {blocks : List Block} {x y : Block} {i : Nat}
    (h : (blocks ++ [x])[i]? = some y) :
    blocks[i]? = some y ∨ i = blocks.length ∧ y = x := by
  rw [List.getElem?_append] at h
  split at h
  · exact .inl h
  · next hi =>
    rw [List.getElem?_singleton] at h
    split at h
    · exact .inr ⟨by omega, (Option.some.inj h).symm⟩
    · cases h

/-- Steps that stay in the block that is being filled. -/
def Straight {α : Type} (f : Lower α) : Prop :=
  ∀ b a b', b.IsOpen → f b = .ok (a, b') → Advances b b' ∧ b'.current = b.current

namespace Straight

variable {α β : Type}

theorem pure (a : α) : Straight (Pure.pure a : Lower α) := by
  intro b _ b' hopen h
  cases h
  exact ⟨.refl hopen, rfl⟩

theorem bind {f : Lower α} {g : α → Lower β} (hf : Straight f) (hg : ∀ a, Straight (g a)) :
    Straight (f >>= g) := by
  intro b c b' hopen h
  obtain ⟨a, mid, hfirst, hsecond⟩ := Lower.bind_eq_ok h
  obtain ⟨hadvance, hcurrent⟩ := hf _ _ _ hopen hfirst
  obtain ⟨hadvance', hcurrent'⟩ := hg a _ _ _ hadvance.isOpen hsecond
  exact ⟨hadvance.trans hadvance', hcurrent'.trans hcurrent⟩

end Straight

theorem perform_straight (ins : Instr) : Straight (perform ins) := by
  intro b _ b' hopen h
  cases h
  refine ⟨.of_same_current hopen rfl (List.prefix_refl _) ?_, rfl⟩
  intro i x hx
  simp only [getElem?_modify_block, hx, Option.map_some, Option.some.injEq, exists_eq_left']
  split
  · next hi => exact ⟨rfl, .inr ⟨hi.symm, List.prefix_append _ _⟩⟩
  · exact ⟨rfl, .inl (.refl i x)⟩

theorem emit_straight (ins : Instr) (type : ValueType) : Straight (emit ins type) := by
  intro b _ b' hopen h
  cases h
  exact perform_straight ins b () _ hopen rfl

theorem reserve_straight (type : ValueType) : Straight (reserve type) := by
  intro b _ b' hopen h
  cases h
  refine ⟨.of_same_current hopen rfl (List.prefix_refl _) ?_, rfl⟩
  intro i x hx
  simp only [getElem?_modify_block, hx, Option.map_some, Option.some.injEq, exists_eq_left']
  split
  · next hi => exact ⟨rfl, .inl ⟨rfl, [.alloca type], rfl, by simp [← hi, Instr.isAlloca]⟩⟩
  · exact ⟨rfl, .inl (.refl i x)⟩

theorem addText_straight (text : String) : Straight (addText text) := by
  intro b _ b' hopen h
  cases h
  exact ⟨.of_same_current hopen rfl (List.prefix_append _ _) fun i x hx =>
    ⟨x, hx, rfl, .inl (.refl i x)⟩, rfl⟩

/-- Steps that do nothing but add instructions to the block that is being filled, none of which
reserves a slot, and texts. -/
inductive Inline : {α : Type} → Lower α → Prop where
  | pure {α : Type} (a : α) : Inline (Pure.pure a : Lower α)
  | stop {α : Type} (e : LoweringFailure) : Inline (throw e : Lower α)
  | bind {α β : Type} {f : Lower α} {g : α → Lower β} (hf : Inline f) (hg : ∀ a, Inline (g a)) :
      Inline (f >>= g)
  | emit (ins : Instr) (type : ValueType) (h : ins.isAlloca = false) : Inline (emit ins type)
  | perform (ins : Instr) (h : ins.isAlloca = false) : Inline (perform ins)
  | addText (text : String) : Inline (addText text)

theorem Inline.straight {α : Type} {f : Lower α} (h : Inline f) : Straight f := by
  induction h with
  | pure a => exact .pure a
  | stop e =>
    intro b _ b' _ h
    cases h
  | bind _ _ ihf ihg => exact ihf.bind ihg
  | emit ins type => exact emit_straight ins type
  | perform ins => exact perform_straight ins
  | addText text => exact addText_straight text

/-! ### Code for expressions -/

theorem store_inline (value slot : Operand) : Inline (store value slot) := by
  unfold store
  split
  · exact .perform _ rfl
  · exact .stop _

theorem widen_inline (v : Typed) (target : Ty) : Inline (widen v target) := by
  unfold widen
  split
  · exact .emit _ _ rfl
  · exact .emit _ _ rfl
  · exact .emit _ _ rfl
  · exact .pure _

theorem literal_inline (kind : LiteralKind) (text : String) : Inline (literal kind text) := by
  unfold literal
  split
  · split
    · exact .pure _
    · exact .stop _
  · split
    · exact .pure _
    · exact .stop _
  · exact .pure _
  · exact (Inline.addText text).bind fun _ => .pure _
  · exact .stop _

theorem compute_inline (op : Operation) (left right : Operand) (type : Ty) :
    Inline (compute op left right type) :=
  (Inline.emit _ _ rfl).bind fun _ => .pure _

theorem unary_inline (op : UnaryOp) (v : Typed) : Inline (unary op v) := by
  unfold unary
  split
  · exact compute_inline _ _ _ _
  · exact compute_inline _ _ _ _
  · exact compute_inline _ _ _ _
  · exact .stop _

theorem arithmetic_inline (op : BinaryOp) (left right : Typed) :
    Inline (arithmetic op left right) := by
  unfold arithmetic
  split
  · exact .stop _
  · split
    · exact compute_inline _ _ _ _
    · exact .stop _

theorem compare_inline (how : Comparison) (left right : Typed) :
    Inline (compare how left right) := by
  unfold compare
  split
  · split
    · exact (widen_inline _ _).bind fun _ => (widen_inline _ _).bind fun _ =>
        (Inline.emit _ _ rfl).bind fun _ => .pure _
    · exact .stop _
  · split
    · exact .stop _
    · split
      · exact (Inline.emit _ _ rfl).bind fun _ => .pure _
      · split
        · exact (widen_inline _ _).bind fun _ => (widen_inline _ _).bind fun _ =>
            (Inline.emit _ _ rfl).bind fun _ => .pure _
        · exact .stop _

theorem binary_inline (op : BinaryOp) (left right : Typed) : Inline (binary op left right) := by
  unfold binary
  split
  · exact compare_inline _ _ _
  · split
    · exact arithmetic_inline _ _ _
    · split
      · exact compute_inline _ _ _ _
      · exact compute_inline _ _ _ _
      · exact .stop _

theorem resolve_inline (env : Environment) (name : String) : Inline (resolve env name) := by
  unfold resolve
  split
  · exact .pure _
  · exact .stop _

/-- The code of an expression is instructions in the block that is being filled. -/
theorem lower_inline (env : Environment) (e : Expr) : Inline (e.lower env) := by
  induction e with
  | absent => exact .stop _
  | literal kind text => exact literal_inline kind text
  | name n =>
    exact (resolve_inline env n).bind fun _ => (Inline.emit _ _ rfl).bind fun _ => .pure _
  | assign target value ih =>
    exact (resolve_inline env target).bind fun _ => ih.bind fun _ =>
      (widen_inline _ _).bind fun _ => (store_inline _ _).bind fun _ => .pure _
  | group inner ih => exact ih
  | unary op operand ih => exact ih.bind fun _ => unary_inline _ _
  | binary op left right ihleft ihright =>
    exact ihleft.bind fun _ => ihright.bind fun _ => binary_inline _ _ _

theorem initialValue_inline (env : Environment) (type : Ty) (initial : Expr) :
    Inline (initialValue env type initial) := by
  unfold initialValue
  split
  · exact .pure _
  · exact (lower_inline env initial).bind fun _ => widen_inline _ _

theorem print_inline (v : Typed) : Inline (print v) := by
  unfold print
  split
  · exact .perform _ rfl
  · exact (Inline.emit _ _ rfl).bind fun _ => .perform _ rfl
  · exact .perform _ rfl
  · exact .perform _ rfl
  · exact .perform _ rfl
  · exact .stop _

theorem evaluateOptional_inline (env : Environment) (e : Expr) :
    Inline (evaluateOptional env e) := by
  unfold evaluateOptional
  split
  · exact .pure _
  · exact (lower_inline env e).bind fun _ => .pure _

theorem store_straight (value slot : Operand) : Straight (store value slot) :=
  (store_inline value slot).straight

theorem widen_straight (v : Typed) (target : Ty) : Straight (widen v target) :=
  (widen_inline v target).straight

theorem unary_straight (op : UnaryOp) (v : Typed) : Straight (unary op v) :=
  (unary_inline op v).straight

theorem binary_straight (op : BinaryOp) (left right : Typed) :
    Straight (binary op left right) :=
  (binary_inline op left right).straight

theorem lower_straight (env : Environment) (e : Expr) : Straight (e.lower env) :=
  (lower_inline env e).straight

theorem initialValue_straight (env : Environment) (type : Ty) (initial : Expr) :
    Straight (initialValue env type initial) :=
  (initialValue_inline env type initial).straight

theorem print_straight (v : Typed) : Straight (print v) := (print_inline v).straight

theorem evaluateOptional_straight (env : Environment) (e : Expr) :
    Straight (evaluateOptional env e) :=
  (evaluateOptional_inline env e).straight

theorem declaration_straight (env : Environment) (type : Ty) (name : String) (initial : Expr) :
    Straight (declaration env type name initial) :=
  (reserve_straight _).bind fun _ => (initialValue_straight env type initial).bind fun _ =>
    (store_straight _ _).bind fun _ => .pure _

/-! ### Blocks -/

variable {b b' : Builder}

/-- Only empty blocks have been added. -/
structure Pads (b b' : Builder) : Prop where
  advance : Advances b b'
  current : b'.current = b.current
  kept : ∀ (i : Nat) (x : Block), b.blocks[i]? = some x → b'.blocks[i]? = some x

namespace Pads

theorem refl (hopen : b.IsOpen) : Pads b b := ⟨.refl hopen, rfl, fun _ _ hx => hx⟩

theorem trans {b'' : Builder} (h : Pads b b') (h' : Pads b' b'') : Pads b b'' :=
  ⟨h.advance.trans h'.advance, h'.current.trans h.current,
    fun i x hx => h'.kept i x (h.kept i x hx)⟩

theorem isEmpty {i : Nat} (h : Pads b b') (hi : b.IsEmpty i) : b'.IsEmpty i := by
  obtain ⟨x, hx, hempty⟩ := hi
  exact ⟨x, h.kept i x hx, hempty⟩

end Pads

theorem addBlock_pads (hopen : b.IsOpen) {role : Role} {n : Nat}
    (h : addBlock role b = .ok (n, b')) :
    Pads b b' ∧ n = b.blocks.length ∧ b'.IsEmpty n := by
  cases h
  have hkept : ∀ (i : Nat) (x : Block), b.blocks[i]? = some x →
      (b.blocks ++ [⟨role, [], none⟩])[i]? = some x := by
    intro i x hx
    rwa [List.getElem?_append_left (List.getElem?_eq_some_iff.mp hx).1]
  refine ⟨⟨.of_same_current hopen rfl (List.prefix_refl _) ?_, rfl, hkept⟩, rfl, ?_⟩
  · exact fun i x hx => ⟨x, hkept i x hx, rfl, .inl (.refl i x)⟩
  · exact ⟨⟨role, [], none⟩, by simp, rfl, rfl⟩

/-- The block that was being filled in `b` has been ended by `t`. -/
def Ends (b : Builder) (t : Terminator) (b' : Builder) : Prop :=
  ∃ x, b.blocks[b.current]? = some x ∧
    b'.blocks[b.current]? = some { x with terminator := some t }

/-- What `leave` does. -/
structure Leaves (b : Builder) (t : Terminator) (next : Nat) (b' : Builder) : Prop where
  ends : Ends b t b'
  current : b'.current = next
  extend : Extends b.module b'.module
  others : ∀ i, i ≠ b.current → b'.blocks[i]? = b.blocks[i]?

theorem leave_leaves (hopen : b.IsOpen) {g : Guard} {t : Terminator} {next : Nat} {u : Unit}
    (h : leave g t next b = .ok (u, b')) : Leaves b t next b' := by
  cases h
  obtain ⟨x, hx, hend⟩ := hopen
  refine ⟨⟨x, hx, ?_⟩, rfl, ⟨List.prefix_refl _, ?_⟩, ?_⟩
  · simp only [getElem?_modify_block, hx, Option.map_some, if_true, Block.finish_of_open hend]
  · intro i y hy
    simp only [Builder.module] at hy ⊢
    simp only [getElem?_modify_block, hy, Option.map_some, Option.some.injEq, exists_eq_left']
    split
    · next hi =>
      subst hi
      rw [hx] at hy
      exact .inr ⟨Option.some.inj hy ▸ hend, by simp⟩
    · exact .inl (.refl i y)
  · intro i hi
    simp only [getElem?_modify_block]
    cases b.blocks[i]? with
    | none => rfl
    | some y => simp [Ne.symm hi]

theorem Leaves.isEmpty {t : Terminator} {next i : Nat} (h : Leaves b t next b')
    (hi : b.IsEmpty i) (hne : i ≠ b.current) : b'.IsEmpty i := by
  obtain ⟨x, hx, hempty⟩ := hi
  exact ⟨x, (h.others i hne).trans hx, hempty⟩

/-- Going on in an empty block that is newer than `start`. -/
theorem Advances.leave {start : Builder} {t : Terminator} {next : Nat} (h : Advances start b)
    (hleave : Leaves b t next b') (hempty : b.IsEmpty next) (hne : next ≠ b.current)
    (hnew : start.blocks.length ≤ next) : Advances start b' := by
  refine ⟨h.extend.trans hleave.extend, ?_, ?_, .inr (hleave.current ▸ hnew)⟩
  · obtain ⟨x, hx, -, hend⟩ := hleave.isEmpty hempty hne
    exact ⟨x, hleave.current ▸ hx, hend⟩
  · intro i x hi hx
    obtain ⟨y, hy, hxy⟩ := h.others i x hi hx
    have hlt := (List.getElem?_eq_some_iff.mp hx).1
    refine ⟨y, (hleave.others i ?_).trans hy, hxy⟩
    rcases h.current with hc | hc
    · rwa [hc]
    · omega

theorem Builder.IsOpen.length_pos (h : b.IsOpen) : 0 < b.blocks.length := by
  obtain ⟨x, hx, -⟩ := h
  have := (List.getElem?_eq_some_iff.mp hx).1
  omega

theorem Builder.IsOpen.current_lt (h : b.IsOpen) : b.current < b.blocks.length := by
  obtain ⟨x, hx, -⟩ := h
  exact (List.getElem?_eq_some_iff.mp hx).1

theorem Builder.IsEmpty.lt {n : Nat} (h : b.IsEmpty n) : n < b.blocks.length := by
  obtain ⟨x, hx, -⟩ := h
  exact (List.getElem?_eq_some_iff.mp hx).1

theorem Pads.ends {mid : Builder} {t : Terminator} (h : Pads b mid) (hends : Ends mid t b')
    (hopen : b.IsOpen) : Ends b t b' := by
  obtain ⟨x, hx, -⟩ := hopen
  obtain ⟨y, hy, hend⟩ := hends
  rw [h.current, h.kept _ x hx] at hy
  cases hy
  exact ⟨x, hx, h.current ▸ hend⟩

/-- The state in which the first arm of a conditional is to be filled. -/
structure ArmsOpened (b : Builder) (hasAlternative : Bool) (arms : Arms) (b' : Builder) : Prop where
  advance : Advances b b'
  current : b'.current = arms.thenBlock
  thenEmpty : b'.IsEmpty arms.thenBlock
  elseEmpty : b'.IsEmpty arms.elseBlock
  endEmpty : b'.IsEmpty arms.endBlock
  newThen : b.blocks.length ≤ arms.thenBlock
  newElse : b.blocks.length ≤ arms.elseBlock
  newEnd : b.blocks.length ≤ arms.endBlock
  else_ne_then : arms.elseBlock ≠ arms.thenBlock
  end_ne_then : arms.endBlock ≠ arms.thenBlock
  else_eq_end : arms.elseBlock = arms.endBlock ↔ hasAlternative = false

theorem openArms_opens {env : Environment} {condition : Expr} {hasAlternative : Bool} {arms : Arms}
    (hopen : b.IsOpen) (h : openArms env condition hasAlternative b = .ok (arms, b')) :
    ArmsOpened b hasAlternative arms b' ∧ ∃ v mid, condition.lower env b = .ok (v, mid) ∧
      Extends mid.module b'.module ∧
      Ends mid (.branch v.operand arms.thenBlock arms.elseBlock) b' := by
  unfold openArms at h
  obtain ⟨v, mid, hcondition, h⟩ := Lower.bind_eq_ok h
  obtain ⟨thenBlock, b₁, hthen, h⟩ := Lower.bind_eq_ok h
  obtain ⟨endBlock, b₂, hend, h⟩ := Lower.bind_eq_ok h
  obtain ⟨elseBlock, b₃, helse, h⟩ := Lower.bind_eq_ok h
  obtain ⟨u, b₄, hleave, h⟩ := Lower.bind_eq_ok h
  cases h
  obtain ⟨hmid, hcurrent⟩ := lower_straight env condition _ _ _ hopen hcondition
  obtain ⟨h₁, rfl, hempty₁⟩ := addBlock_pads hmid.isOpen hthen
  obtain ⟨h₂, rfl, hempty₂⟩ := addBlock_pads h₁.advance.isOpen hend
  have hlt₁ := hempty₁.lt
  have hlt₂ := hempty₂.lt
  have hmidlen := hmid.length_le
  -- the third block, if there is an alternative
  have helse' : Pads b₂ b₃ ∧ b₃.IsEmpty elseBlock ∧ b₁.blocks.length ≤ elseBlock ∧
      (elseBlock = b₁.blocks.length ↔ hasAlternative = false) := by
    cases hasAlternative with
    | false =>
      cases helse
      exact ⟨.refl h₂.advance.isOpen, hempty₂, Nat.le_refl _, by simp⟩
    | true =>
      obtain ⟨h₃, rfl, hempty₃⟩ := addBlock_pads h₂.advance.isOpen helse
      refine ⟨h₃, hempty₃, by omega, ?_⟩
      simp only [Bool.true_eq_false, iff_false]
      omega
  obtain ⟨h₃, hempty₃, hnew₃, halternative⟩ := helse'
  have hpads := (h₁.trans h₂).trans h₃
  have hleaves := leave_leaves hpads.advance.isOpen hleave
  have hcur : b₃.current < mid.blocks.length := by
    rw [hpads.current]
    exact hmid.isOpen.current_lt
  have hthenEmpty := h₃.isEmpty (h₂.isEmpty hempty₁)
  have hne₁ : mid.blocks.length ≠ b₃.current := by omega
  have hne₂ : b₁.blocks.length ≠ b₃.current := by omega
  have hne₃ : elseBlock ≠ b₃.current := by omega
  refine ⟨⟨?_, hleaves.current, ?_, ?_, ?_, ?_, ?_, ?_, ?_, ?_, halternative⟩, v, mid, hcondition,
    hpads.advance.extend.trans hleaves.extend, hpads.ends hleaves.ends hmid.isOpen⟩
  · exact (hmid.trans hpads.advance).leave hleaves hthenEmpty hne₁ hmidlen
  · exact hleaves.isEmpty hthenEmpty hne₁
  · exact hleaves.isEmpty hempty₃ hne₃
  · exact hleaves.isEmpty (h₃.isEmpty hempty₂) hne₂
  all_goals
    dsimp only
    omega

/-- The first arm ends, and the second is to be filled. -/
theorem ArmsOpened.between {hasAlternative : Bool} {arms : Arms} {b₁ b₂ b₃ : Builder}
    {t : Terminator} (h : ArmsOpened b hasAlternative arms b₁) (hopen : b.IsOpen)
    (hfirst : Advances b₁ b₂) (hleave : Leaves b₂ t arms.elseBlock b₃) :
    Advances b b₃ ∧ b₃.IsEmpty arms.elseBlock ∧ b₃.IsEmpty arms.endBlock := by
  have hpos := hopen.length_pos
  have hnewElse := h.newElse
  have hnewEnd := h.newEnd
  have helse : arms.elseBlock ≠ b₁.current := h.current ▸ h.else_ne_then
  have hend : arms.endBlock ≠ b₁.current := h.current ▸ h.end_ne_then
  have helseEmpty := hfirst.isEmpty h.elseEmpty helse (by omega)
  have hendEmpty := hfirst.isEmpty h.endEmpty hend (by omega)
  have helseNe := hfirst.ne_current h.elseEmpty helse
  have hendNe := hfirst.ne_current h.endEmpty hend
  exact ⟨(h.advance.trans hfirst).leave hleave helseEmpty helseNe hnewElse,
    hleave.isEmpty helseEmpty helseNe, hleave.isEmpty hendEmpty hendNe⟩

/-- The second arm ends too. -/
theorem ArmsOpened.done {arms : Arms} {b₁ b₃ b₄ b₅ : Builder} {t : Terminator}
    (h : ArmsOpened b true arms b₁) (hopen : b.IsOpen) (hbetween : Advances b b₃)
    (hcurrent : b₃.current = arms.elseBlock) (hempty : b₃.IsEmpty arms.endBlock)
    (hsecond : Advances b₃ b₄) (hleave : Leaves b₄ t arms.endBlock b₅) :
    Advances b b₅ ∧ b₅.IsEmpty arms.endBlock := by
  have hpos := hopen.length_pos
  have hnewEnd := h.newEnd
  have hend : arms.endBlock ≠ b₃.current := by
    intro heq
    have hsame : arms.elseBlock = arms.endBlock := by rw [heq, hcurrent]
    simpa using h.else_eq_end.mp hsame
  have hendEmpty := hsecond.isEmpty hempty hend (by omega)
  have hendNe := hsecond.ne_current hempty hend
  exact ⟨(hbetween.trans hsecond).leave hleave hendEmpty hendNe hnewEnd,
    hleave.isEmpty hendEmpty hendNe⟩

/-- Where a condition sends on to: `b` begins with the code of the condition, `b'` is where it
holds.  A missing condition always holds. -/
def Tests (env : Environment) (condition : Expr) (whenFalse : Nat) (b b' : Builder) : Prop :=
  condition.isAbsent = true ∧ Leaves b (.jump b'.current) b'.current b' ∨
    condition.isAbsent = false ∧ ∃ v mid, condition.lower env b = .ok (v, mid) ∧
      Leaves mid (.branch v.operand b'.current whenFalse) b'.current b'

theorem isAbsent_of_lower {env : Environment} {e : Expr} {v : Typed}
    (h : e.lower env b = .ok (v, b')) : e.isAbsent = false := by
  cases e with
  | absent => cases h
  | _ => rfl

theorem branchOn_tests {env : Environment} {condition : Expr} {whenTrue whenFalse : Nat} {u : Unit}
    (hopen : b.IsOpen) (h : branchOn env condition whenTrue whenFalse b = .ok (u, b')) :
    Tests env condition whenFalse b b' ∧ b'.current = whenTrue := by
  obtain ⟨v, mid, hcondition, hleave⟩ := Lower.bind_eq_ok h
  have hleaves := leave_leaves (lower_straight env condition _ _ _ hopen hcondition).1.isOpen hleave
  obtain rfl := hleaves.current
  exact ⟨.inr ⟨isAbsent_of_lower hcondition, v, mid, hcondition, hleaves⟩, rfl⟩

theorem branchOnOptional_tests {env : Environment} {condition : Expr} {whenTrue whenFalse : Nat}
    {u : Unit} (hopen : b.IsOpen)
    (h : branchOnOptional env condition whenTrue whenFalse b = .ok (u, b')) :
    Tests env condition whenFalse b b' ∧ b'.current = whenTrue := by
  unfold branchOnOptional at h
  split at h
  · next habsent =>
    have hleaves := leave_leaves hopen h
    obtain rfl := hleaves.current
    exact ⟨.inl ⟨habsent, hleaves⟩, rfl⟩
  · exact branchOn_tests hopen h

/-- A test leads on to an empty block. -/
theorem Tests.advance {env : Environment} {condition : Expr} {whenFalse : Nat} {start : Builder}
    (h : Tests env condition whenFalse b b') (hstart : Advances start b)
    (hempty : b.IsEmpty b'.current) (hne : b'.current ≠ b.current) (hpos : b'.current ≠ 0)
    (hnew : start.blocks.length ≤ b'.current) : Advances start b' := by
  rcases h with ⟨-, hleaves⟩ | ⟨-, v, mid, hcondition, hleaves⟩
  · exact hstart.leave hleaves hempty hne hnew
  · obtain ⟨hmid, hcurrent⟩ := lower_straight env condition _ _ _ hstart.isOpen hcondition
    exact (hstart.trans hmid).leave hleaves (hmid.isEmpty hempty hne hpos) (hcurrent ▸ hne) hnew

theorem Tests.isEmpty {env : Environment} {condition : Expr} {whenFalse i : Nat}
    (h : Tests env condition whenFalse b b') (hopen : b.IsOpen) (hempty : b.IsEmpty i)
    (hne : i ≠ b.current) (hpos : i ≠ 0) : b'.IsEmpty i := by
  rcases h with ⟨-, hleaves⟩ | ⟨-, v, mid, hcondition, hleaves⟩
  · exact hleaves.isEmpty hempty hne
  · obtain ⟨hmid, hcurrent⟩ := lower_straight env condition _ _ _ hopen hcondition
    exact hleaves.isEmpty (hmid.isEmpty hempty hne hpos) (hcurrent ▸ hne)

/-- The states in which the condition and then the body of a loop are to be filled. -/
structure LoopOpened (env : Environment) (condition : Expr) (b : Builder) (rounds : Rounds)
    (mid b' : Builder) : Prop where
  enters : Ends b (.jump rounds.condBlock) mid
  advanceMid : Advances b mid
  currentMid : mid.current = rounds.condBlock
  emptyMid : mid.IsEmpty rounds.condBlock
  tests : Tests env condition rounds.endBlock mid b'
  advance : Advances b b'
  bodyEmpty : b'.IsEmpty b'.current
  endEmpty : b'.IsEmpty rounds.endBlock
  newEnd : b.blocks.length ≤ rounds.endBlock
  end_ne_body : rounds.endBlock ≠ b'.current

/-- A block that waits while the blocks of a loop are laid out waits until the body is filled. -/
theorem Tests.waits {env : Environment} {condition : Expr} {cond whenFalse i : Nat}
    {padded mid : Builder} (hpads : Pads b padded) (hopen : b.IsOpen)
    (hleave : Leaves padded (.jump cond) cond mid) (hmid : mid.IsOpen)
    (h : Tests env condition whenFalse mid b') (hi : padded.IsEmpty i)
    (hnew : b.blocks.length ≤ i) (hne : i ≠ cond) : b'.IsEmpty i := by
  have hcurrent := hopen.current_lt
  have hpos := hopen.length_pos
  have hpadded := hpads.current
  refine h.isEmpty hmid (hleave.isEmpty hi (by omega)) ?_ (by omega)
  rwa [hleave.current]

theorem LoopOpened.of_pads {env : Environment} {condition : Expr} {rounds : Rounds}
    {padded mid : Builder} (hopen : b.IsOpen) (hpads : Pads b padded)
    (hcond : padded.IsEmpty rounds.condBlock) (hbody : padded.IsEmpty b'.current)
    (hend : padded.IsEmpty rounds.endBlock) (hnewCond : b.blocks.length ≤ rounds.condBlock)
    (hnewBody : rounds.condBlock < b'.current) (hnewEnd : b'.current < rounds.endBlock)
    (hleave : Leaves padded (.jump rounds.condBlock) rounds.condBlock mid)
    (htests : Tests env condition rounds.endBlock mid b') :
    LoopOpened env condition b rounds mid b' := by
  have hcurrent := hopen.current_lt
  have hpos := hopen.length_pos
  have hpadded := hpads.current
  have hmid : Advances b mid := hpads.advance.leave hleave hcond (by omega) hnewCond
  have hcurrentMid := hleave.current
  refine ⟨hpads.ends hleave.ends hopen, hmid, hcurrentMid, hleave.isEmpty hcond (by omega), htests,
    ?_, ?_, ?_, by omega, by omega⟩
  · exact htests.advance hmid (hleave.isEmpty hbody (by omega)) (by omega) (by omega) (by omega)
  · exact htests.waits hpads hopen hleave hmid.isOpen hbody (by omega) (by omega)
  · exact htests.waits hpads hopen hleave hmid.isOpen hend (by omega) (by omega)

/-- The part of a loop that is being filled ends, and an empty block is to be filled next. -/
theorem LoopOpened.leave {env : Environment} {condition : Expr} {rounds : Rounds}
    {mid b₂ b₃ : Builder} {t : Terminator} {next : Nat}
    (hopen : b.IsOpen) (h : LoopOpened env condition b rounds mid b') (hbody : Advances b' b₂)
    (hempty : b'.IsEmpty next) (hne : next ≠ b'.current) (hnew : b.blocks.length ≤ next)
    (hleave : Leaves b₂ t next b₃) : Advances b b₃ ∧ b₃.IsEmpty next := by
  have hpos := hopen.length_pos
  have hempty' := hbody.isEmpty hempty hne (by omega)
  have hne' := hbody.ne_current hempty hne
  exact ⟨(h.advance.trans hbody).leave hleave hempty' hne' hnew, hleave.isEmpty hempty' hne'⟩

/-- The same for a loop with a block of its own for the increment. -/
theorem LoopOpened.increment {env : Environment} {condition : Expr} {rounds : Rounds}
    {mid b₂ b₃ b₄ b₅ : Builder} {t t' : Terminator} (hopen : b.IsOpen)
    (h : LoopOpened env condition b rounds mid b') (hempty : b'.IsEmpty rounds.incBlock)
    (hne : rounds.incBlock ≠ b'.current) (hnew : b.blocks.length ≤ rounds.incBlock)
    (hend : rounds.incBlock ≠ rounds.endBlock) (hbody : Advances b' b₂)
    (hleave : Leaves b₂ t rounds.incBlock b₃) (hincrement : Advances b₃ b₄)
    (hleave' : Leaves b₄ t' rounds.endBlock b₅) :
    Advances b b₅ ∧ b₅.IsEmpty rounds.endBlock := by
  have hpos := hopen.length_pos
  have hnewEnd := h.newEnd
  obtain ⟨hbetween, -⟩ := h.leave hopen hbody hempty hne hnew hleave
  have hend₂ := hbody.isEmpty h.endEmpty h.end_ne_body (by omega)
  have hend₃ := hleave.isEmpty hend₂ (hbody.ne_current h.endEmpty h.end_ne_body)
  have hne₃ : rounds.endBlock ≠ b₃.current := hleave.current ▸ hend.symm
  have hend₄ := hincrement.isEmpty hend₃ hne₃ (by omega)
  have hne₄ := hincrement.ne_current hend₃ hne₃
  exact ⟨(hbetween.trans hincrement).leave hleave' hend₄ hne₄ hnewEnd,
    hleave'.isEmpty hend₄ hne₄⟩

theorem openWhile_opens {env : Environment} {condition : Expr} {rounds : Rounds}
    (hopen : b.IsOpen) (h : openWhile env condition b = .ok (rounds, b')) :
    ∃ mid, LoopOpened env condition b rounds mid b' := by
  unfold openWhile at h
  obtain ⟨condBlock, b₁, hcond, h⟩ := Lower.bind_eq_ok h
  obtain ⟨bodyBlock, b₂, hbody, h⟩ := Lower.bind_eq_ok h
  obtain ⟨endBlock, b₃, hend, h⟩ := Lower.bind_eq_ok h
  obtain ⟨u, mid, hleave, h⟩ := Lower.bind_eq_ok h
  obtain ⟨u', b₄, hbranch, h⟩ := Lower.bind_eq_ok h
  cases h
  obtain ⟨h₁, rfl, hempty₁⟩ := addBlock_pads hopen hcond
  obtain ⟨h₂, rfl, hempty₂⟩ := addBlock_pads h₁.advance.isOpen hbody
  obtain ⟨h₃, rfl, hempty₃⟩ := addBlock_pads h₂.advance.isOpen hend
  have hpads := (h₁.trans h₂).trans h₃
  have hleaves := leave_leaves hpads.advance.isOpen hleave
  have hempty := h₃.isEmpty (h₂.isEmpty hempty₁)
  have hcurrent := hopen.current_lt
  have hpadded := hpads.current
  have hmid := hpads.advance.leave hleaves hempty (by omega) (Nat.le_refl _)
  obtain ⟨htests, hbodyCurrent⟩ := branchOn_tests hmid.isOpen hbranch
  have hlt₁ := hempty₁.lt
  have hlt₂ := hempty₂.lt
  exact ⟨mid, .of_pads hopen hpads hempty (hbodyCurrent ▸ h₃.isEmpty hempty₂) hempty₃
    (Nat.le_refl _) (by dsimp only; omega) (by dsimp only; omega) hleaves htests⟩

theorem openFor_opens {env : Environment} {condition : Expr} {rounds : Rounds}
    (hopen : b.IsOpen) (h : openFor env condition b = .ok (rounds, b')) :
    (∃ mid, LoopOpened env condition b rounds mid b') ∧ b'.IsEmpty rounds.incBlock ∧
      b.blocks.length ≤ rounds.incBlock ∧ rounds.incBlock ≠ b'.current ∧
      rounds.incBlock ≠ rounds.endBlock := by
  unfold openFor at h
  obtain ⟨condBlock, b₁, hcond, h⟩ := Lower.bind_eq_ok h
  obtain ⟨bodyBlock, b₂, hbody, h⟩ := Lower.bind_eq_ok h
  obtain ⟨incBlock, b₃, hinc, h⟩ := Lower.bind_eq_ok h
  obtain ⟨endBlock, b₄, hend, h⟩ := Lower.bind_eq_ok h
  obtain ⟨u, mid, hleave, h⟩ := Lower.bind_eq_ok h
  obtain ⟨u', b₅, hbranch, h⟩ := Lower.bind_eq_ok h
  cases h
  obtain ⟨h₁, rfl, hempty₁⟩ := addBlock_pads hopen hcond
  obtain ⟨h₂, rfl, hempty₂⟩ := addBlock_pads h₁.advance.isOpen hbody
  obtain ⟨h₃, rfl, hempty₃⟩ := addBlock_pads h₂.advance.isOpen hinc
  obtain ⟨h₄, rfl, hempty₄⟩ := addBlock_pads h₃.advance.isOpen hend
  have hpads := ((h₁.trans h₂).trans h₃).trans h₄
  have hleaves := leave_leaves hpads.advance.isOpen hleave
  have hempty := h₄.isEmpty (h₃.isEmpty (h₂.isEmpty hempty₁))
  have hcurrent := hopen.current_lt
  have hpadded := hpads.current
  have hmid := hpads.advance.leave hleaves hempty (by omega) (Nat.le_refl _)
  obtain ⟨htests, hbodyCurrent⟩ := branchOnOptional_tests hmid.isOpen hbranch
  have hlt₁ := hempty₁.lt
  have hlt₂ := hempty₂.lt
  have hlt₃ := hempty₃.lt
  have hloop : LoopOpened env condition b ⟨b.blocks.length, b₂.blocks.length, b₃.blocks.length⟩
      mid b' :=
    .of_pads hopen hpads hempty (hbodyCurrent ▸ h₄.isEmpty (h₃.isEmpty hempty₂)) hempty₄
      (Nat.le_refl _) (by dsimp only; omega) (by dsimp only; omega) hleaves htests
  have hinc := htests.waits hpads hopen hleaves hmid.isOpen (h₄.isEmpty hempty₃) (by omega)
    (by omega)
  exact ⟨⟨mid, hloop⟩, hinc, by dsimp only; omega, by dsimp only; omega, by dsimp only; omega⟩

end Lowering

/-! ### Code for statements -/

open Lowering

mutual

/-- The code of a statement advances the main function. -/
theorem Stmt.lower_advances {env env' : Environment} {b b' : Builder} (hopen : b.IsOpen) :
    (s : Stmt) → s.lower env b = .ok (env', b') → Advances b b'
  | .absent, h => by
    rw [Stmt.lower] at h
    cases h
  | .declare type name initial, h => by
    rw [Stmt.lower] at h
    exact (declaration_straight env _ name initial _ _ _ hopen h).1
  | .print value, h => by
    rw [Stmt.lower] at h
    exact (((lower_straight env value).bind fun v => (print_straight v).bind fun _ => .pure env)
      _ _ _ hopen h).1
  | .expression value, h => by
    rw [Stmt.lower] at h
    exact (((lower_straight env value).bind fun _ => .pure env) _ _ _ hopen h).1
  | .block body, h => by
    rw [Stmt.lower] at h
    obtain ⟨inner, mid, hbody, hpure⟩ := Lower.bind_eq_ok h
    cases hpure
    exact Stmt.lowerAll_advances hopen body hbody
  | .ifElse condition consequent alternative, h => by
    rw [Stmt.lower] at h
    obtain ⟨arms, b₁, harms, h⟩ := Lower.bind_eq_ok h
    obtain ⟨between, b₂, hconsequent, h⟩ := Lower.bind_eq_ok h
    obtain ⟨u, b₃, hleave, h⟩ := Lower.bind_eq_ok h
    obtain ⟨hopened, -⟩ := openArms_opens hopen harms
    have hfirst := Stmt.lower_advances hopened.advance.isOpen consequent hconsequent
    have hleaves := leave_leaves hfirst.isOpen hleave
    obtain ⟨hbetween, -, hend⟩ := hopened.between hopen hfirst hleaves
    cases habsent : alternative.isAbsent with
    | true =>
      rw [habsent, if_pos rfl] at h
      cases h
      exact hbetween
    | false =>
      rw [habsent] at hopened
      rw [habsent, if_neg (by simp)] at h
      obtain ⟨after, b₄, halternative, h⟩ := Lower.bind_eq_ok h
      obtain ⟨u', b₅, hleave', h⟩ := Lower.bind_eq_ok h
      cases h
      have hsecond := Stmt.lower_advances hbetween.isOpen alternative halternative
      exact (hopened.done hopen hbetween hleaves.current hend hsecond
        (leave_leaves hsecond.isOpen hleave')).1
  | .whileLoop condition body, h => by
    rw [Stmt.lower] at h
    obtain ⟨rounds, b₁, hrounds, h⟩ := Lower.bind_eq_ok h
    obtain ⟨after, b₂, hbody, h⟩ := Lower.bind_eq_ok h
    obtain ⟨u, b₃, hleave, h⟩ := Lower.bind_eq_ok h
    cases h
    obtain ⟨mid, hloop⟩ := openWhile_opens hopen hrounds
    have hadvance := Stmt.lower_advances hloop.advance.isOpen body hbody
    exact (hloop.leave hopen hadvance hloop.endEmpty hloop.end_ne_body hloop.newEnd
      (leave_leaves hadvance.isOpen hleave)).1
  | .forLoop initial condition increment body, h => by
    rw [Stmt.lower] at h
    obtain ⟨inner, b₀, hinitial, h⟩ := Lower.bind_eq_ok h
    obtain ⟨rounds, b₁, hrounds, h⟩ := Lower.bind_eq_ok h
    obtain ⟨after, b₂, hbody, h⟩ := Lower.bind_eq_ok h
    obtain ⟨u, b₃, hleave, h⟩ := Lower.bind_eq_ok h
    obtain ⟨u', b₄, hincrement, h⟩ := Lower.bind_eq_ok h
    obtain ⟨u'', b₅, hleave', h⟩ := Lower.bind_eq_ok h
    cases h
    have hstart : Advances b b₀ := by
      split at hinitial
      · cases hinitial
        exact .refl hopen
      · exact Stmt.lower_advances hopen initial hinitial
    obtain ⟨⟨mid, hloop⟩, hinc, hnewInc, hincBody, hincEnd⟩ :=
      openFor_opens hstart.isOpen hrounds
    have hadvance := Stmt.lower_advances hloop.advance.isOpen body hbody
    have hleaves := leave_leaves hadvance.isOpen hleave
    obtain ⟨hbetween, -⟩ := hloop.leave hstart.isOpen hadvance hinc hincBody hnewInc hleaves
    have hafter := evaluateOptional_straight after increment _ _ _ hbetween.isOpen hincrement
    have hleaves' := leave_leaves hafter.1.isOpen hleave'
    exact hstart.trans (hloop.increment hstart.isOpen hinc hincBody hnewInc hincEnd hadvance hleaves
      hafter.1 hleaves').1

theorem Stmt.lowerAll_advances {env env' : Environment} {b b' : Builder} (hopen : b.IsOpen) :
    (ss : List Stmt) → Stmt.lowerAll env ss b = .ok (env', b') → Advances b b'
  | [], h => by
    rw [Stmt.lowerAll] at h
    cases h
    exact .refl hopen
  | s :: ss, h => by
    rw [Stmt.lowerAll] at h
    obtain ⟨between, mid, hfirst, hothers⟩ := Lower.bind_eq_ok h
    have hadvance := Stmt.lower_advances hopen s hfirst
    exact hadvance.trans (Stmt.lowerAll_advances hadvance.isOpen ss hothers)

end

end Binisaya
