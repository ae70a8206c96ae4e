import Binisaya.Proofs.Lowering.Moments
import Mathlib.Data.List.Nodup
import Mathlib.Data.List.Perm.Basic

/-!
# Control flow in the main function

The blocks of a main function and how they are connected.  While a program is lowered every block
either has been ended, once, or is being filled, or waits for a statement that is still to fill it;
`Arranged` says so and is kept by every statement.  Main statement: in the module of a program every
block has one end, which it was given once, the ends lead to blocks other than the entry, and one
block returns.
-/

namespace Binisaya

namespace Llvm

/-- The blocks that a block can go on with. -/
def Terminator.targets : Terminator → List Nat
  | .jump target => [target]
  | .branch _ whenTrue whenFalse => [whenTrue, whenFalse]
  | .ret => []

/-- The labels of the blocks of the main function. -/
def Module.labels (m : Module) : List String := (Naming.ofBlocks m.blocks).labels.toList

/-! ### Labels -/

/-- What follows the last occurrence of a character is determined by the whole. -/
theorem eq_of_append_cons_eq {α : Type} {c : α} {l l' r r' : List α} (hr : c ∉ r) (hr' : c ∉ r')
    (h : l ++ c :: r = l' ++ c :: r') : r = r' := by
  rcases List.append_eq_append_iff.mp h with ⟨mid, -, hmid⟩ | ⟨mid, -, hmid⟩
  · cases mid with
    | nil => exact (List.cons.inj hmid).2
    | cons d mid => exact absurd ((List.cons.inj hmid).2 ▸ by simp) hr
  · cases mid with
    | nil => exact (List.cons.inj hmid).2.symm
    | cons d mid => exact absurd ((List.cons.inj hmid).2 ▸ by simp) hr'

theorem dot_not_mem_toString (n : Nat) : '.' ∉ (toString n).toList := by
  intro h
  rw [Nat.toString_eq_ofList_toDigits, String.toList_ofList] at h
  exact absurd (Nat.isDigit_of_mem_toDigits (by decide) (by decide) h) (by decide)

namespace Role

theorem label_of_ne_entry {role : Role} (h : role ≠ .entry) (index : Nat) :
    role.label index = role.name ++ "." ++ toString (index - 1) := by
  cases role with
  | entry => exact absurd rfl h
  | _ => rfl

theorem label_toList {role : Role} (h : role ≠ .entry) (index : Nat) :
    (role.label index).toList = role.name.toList ++ '.' :: (toString (index - 1)).toList := by
  rw [label_of_ne_entry h]
  simp

theorem label_eq_entry_iff (role : Role) (index : Nat) :
    role.label index = "entry" ↔ role = .entry := by
  constructor
  · intro h
    by_contra hne
    have hdot : '.' ∈ (role.label index).toList := by
      rw [label_toList hne]
      simp
    rw [h] at hdot
    exact absurd hdot (by decide)
  · rintro rfl
    rfl

/-- Blocks are told apart by their labels if only the first is the entry. -/
theorem label_injective {role role' : Role} {i j : Nat} (hrole : role = .entry ↔ i = 0)
    (hrole' : role' = .entry ↔ j = 0) (h : role.label i = role'.label j) : i = j := by
  by_cases hi : i = 0
  · have hentry : role.label i = "entry" := (label_eq_entry_iff role i).mpr (hrole.mpr hi)
    rw [hentry] at h
    rw [hi, hrole'.mp ((label_eq_entry_iff role' j).mp h.symm)]
  · have hne : role ≠ .entry := mt hrole.mp hi
    have hne' : role' ≠ .entry := by
      rw [Ne, ← label_eq_entry_iff role' j, ← h, label_eq_entry_iff]
      exact hne
    have hj : j ≠ 0 := mt hrole'.mpr hne'
    have hlist := congrArg String.toList h
    rw [label_toList hne, label_toList hne'] at hlist
    have hdigits := eq_of_append_cons_eq (dot_not_mem_toString _) (dot_not_mem_toString _) hlist
    have hnumbers := congrArg (fun ds => Nat.ofDigitChars 10 ds 0) hdigits
    simp only [Nat.toString_eq_ofList_toDigits, String.toList_ofList,
      Nat.ofDigitChars_ten_toDigits] at hnumbers
    omega

end Role

end Llvm

open Llvm

namespace Lowering

/-! ### Arranged blocks -/

/-- Blocks that may be gone on with: those that exist, but for the entry. -/
def Builder.IsTarget (b : Builder) (n : Nat) : Prop := 0 < n ∧ n < b.blocks.length

/-- A main function at the boundary of a statement: what has not been ended is the block that is
being filled, and the blocks in `waiting`. -/
structure Builder.Suspended (b : Builder) (waiting : List Nat) : Prop where
  isOpen : b.IsOpen
  nodup : (b.current :: waiting).Nodup
  unended_iff : ∀ i x, b.blocks[i]? = some x →
    (x.terminator = none ↔ i = b.current ∨ i ∈ waiting)

/-- All blocks are accounted for by the record: those in `unended` have not been ended, and all the
others have been ended once. -/
structure Accounted (unended : List Nat) (record : List Moment) (b : Builder) : Prop where
  once : ((endings record).map Prod.fst ++ unended).Perm (List.range b.blocks.length)
  ended_iff : ∀ i x t, b.blocks[i]? = some x → (x.terminator = some t ↔ (i, t) ∈ endings record)
  targets : ∀ e ∈ endings record, ∀ n ∈ e.2.targets, b.IsTarget n
  entry_iff : ∀ i x, b.blocks[i]? = some x → (x.role = .entry ↔ i = 0)
  boundaries : ∀ b' waiting, .boundary b' waiting ∈ record → b'.Suspended waiting

/-- What lowering keeps up between any two steps.  The blocks in `known` may be gone on with. -/
structure Arranged (known waiting : List Nat) (r : Record) (b : Builder) : Prop extends
    Accounted (b.current :: waiting) r.moments b where
  known : ∀ n ∈ known, b.IsTarget n
  goesOn : ∀ e ∈ endings r.moments, e.2 ≠ .ret
  waits : r.waiting = waiting

@[simp]
theorem endings_ending (record : List Moment) (n : Nat) (t : Terminator) :
    endings (record ++ [.ending n t]) = endings record ++ [(n, t)] := by
  simp [endings]

@[simp]
theorem endings_boundary (record : List Moment) (b : Builder) (waiting : List Nat) :
    endings (record ++ [.boundary b waiting]) = endings record := by
  simp [endings]

section Blocks

variable {known waiting unended : List Nat} {record : List Moment} {r : Record} {b b' : Builder}

namespace Accounted

theorem nodup (h : Accounted unended record b) :
    ((endings record).map Prod.fst ++ unended).Nodup :=
  h.once.nodup_iff.mpr List.nodup_range

theorem lt (h : Accounted unended record b) {i : Nat} (hi : i ∈ unended) : i < b.blocks.length :=
  List.mem_range.mp (h.once.subset (List.mem_append_right _ hi))

/-- A block that has not been ended is not in the record. -/
theorem not_mem_endings (h : Accounted unended record b) {i : Nat} (hi : i ∈ unended)
    (t : Terminator) : (i, t) ∉ endings record := by
  intro hmem
  exact (List.nodup_append.mp h.nodup).2.2 i (List.mem_map_of_mem hmem) i hi rfl

theorem terminator_eq_none_iff (h : Accounted unended record b) {i : Nat} {x : Block}
    (hx : b.blocks[i]? = some x) : x.terminator = none ↔ i ∈ unended := by
  constructor
  · intro hnone
    have hlt := (List.getElem?_eq_some_iff.mp hx).1
    rcases List.mem_append.mp (h.once.symm.subset (List.mem_range.mpr hlt)) with hi | hi
    · obtain ⟨⟨j, t⟩, hmem, rfl⟩ := List.mem_map.mp hi
      rw [(h.ended_iff j x t hx).mpr hmem] at hnone
      cases hnone
    · exact hi
  · intro hi
    cases hend : x.terminator with
    | none => rfl
    | some t => exact absurd ((h.ended_iff i x t hx).mp hend) (h.not_mem_endings hi t)

/-- Which of the blocks is being filled, and in which order the others will be, plays no role. -/
theorem reorder {unended' : List Nat} (h : Accounted unended record b)
    (hperm : unended'.Perm unended) (current : Nat) :
    Accounted unended' record { b with current := current } :=
  ⟨(hperm.append_left _).trans h.once, h.ended_iff, h.targets, h.entry_iff, h.boundaries⟩

theorem suspended (h : Accounted (b.current :: waiting) record b) : b.Suspended waiting := by
  have hlt := h.lt List.mem_cons_self
  have hx := List.getElem?_eq_getElem hlt
  refine ⟨⟨_, hx, (h.terminator_eq_none_iff hx).mpr List.mem_cons_self⟩,
    (List.nodup_append.mp h.nodup).2.1, ?_⟩
  intro i x hi
  rw [h.terminator_eq_none_iff hi, List.mem_cons]

theorem boundary (h : Accounted (b.current :: waiting) record b) :
    Accounted (b.current :: waiting) (record ++ [.boundary b waiting]) b := by
  refine ⟨by simpa using h.once, by simpa using h.ended_iff, by simpa using h.targets, h.entry_iff,
    ?_⟩
  intro b' waiting' hmem
  rcases List.mem_append.mp hmem with hmem | hmem
  · exact h.boundaries b' waiting' hmem
  · cases List.mem_singleton.mp hmem
    exact h.suspended

/-- A block is ended that has not been ended before. -/
theorem finish {g : Guard} {t : Terminator} (h : Accounted (b.current :: unended) record b)
    (ht : ∀ n ∈ t.targets, b.IsTarget n) :
    Accounted unended (record ++ [.ending b.current t])
      { b with blocks := b.blocks.modify b.current (Block.finish g t) } := by
  refine ⟨?_, ?_, ?_, ?_, ?_⟩
  · simpa using h.once
  · intro i y u hy
    rw [getElem?_modify_block] at hy
    obtain ⟨x, hx, rfl⟩ := Option.map_eq_some_iff.mp hy
    rw [endings_ending, List.mem_append, List.mem_singleton, Prod.mk.injEq]
    split
    · next hi =>
      subst hi
      have hopen := (h.terminator_eq_none_iff hx).mpr List.mem_cons_self
      have hnew := h.not_mem_endings List.mem_cons_self u
      simp [Block.finish_of_open hopen, hnew, eq_comm]
    · next hi =>
      rw [h.ended_iff i x u hx]
      simp [Ne.symm hi]
  · intro e he n hn
    rw [endings_ending, List.mem_append, List.mem_singleton] at he
    simp only [Builder.IsTarget, List.length_modify]
    rcases he with he | rfl
    · exact h.targets e he n hn
    · exact ht n hn
  · intro i y hy
    rw [getElem?_modify_block] at hy
    obtain ⟨x, hx, rfl⟩ := Option.map_eq_some_iff.mp hy
    rw [← h.entry_iff i x hx]
    split <;> simp
  · intro b' waiting hmem
    rcases List.mem_append.mp hmem with hmem | hmem
    · exact h.boundaries b' waiting hmem
    · cases List.mem_singleton.mp hmem

/-- An empty block is added. -/
theorem addBlock {role : Role} (h : Accounted unended record b) (hrole : role ≠ .entry)
    (hpos : 0 < b.blocks.length) :
    Accounted (b.blocks.length :: unended) record
      { b with blocks := b.blocks ++ [⟨role, [], none⟩] } := by
  refine ⟨?_, ?_, ?_, ?_, h.boundaries⟩
  · rw [List.length_append, List.length_singleton, List.range_succ]
    exact List.perm_middle.trans ((h.once.cons _).trans (List.perm_append_singleton _ _).symm)
  · intro i y t hy
    rcases getElem?_concat_block hy with hy | ⟨rfl, rfl⟩
    · exact h.ended_iff i y t hy
    · -- a block that does not exist yet cannot be in the record
      refine ⟨fun heq => (by cases heq), fun hmem => ?_⟩
      have hlt := h.once.subset (List.mem_append_left _ (List.mem_map_of_mem hmem))
      exact absurd (List.mem_range.mp hlt) (Nat.lt_irrefl _)
  · intro e he n hn
    obtain ⟨hn₀, hlt⟩ := h.targets e he n hn
    exact ⟨hn₀, by simp only [List.length_append, List.length_singleton]; omega⟩
  · intro i y hy
    rcases getElem?_concat_block hy with hy | ⟨rfl, rfl⟩
    · exact h.entry_iff i y hy
    · exact iff_of_false hrole (by omega)

end Accounted

theorem Arranged.length_pos (h : Arranged known waiting r b) : 0 < b.blocks.length :=
  Nat.lt_of_le_of_lt (Nat.zero_le _) (h.lt List.mem_cons_self)

theorem Arranged.forget {known' : List Nat} (h : Arranged known waiting r b)
    (hknown : ∀ n ∈ known', n ∈ known) : Arranged known' waiting r b :=
  ⟨h.toAccounted, fun n hn => h.known n (hknown n hn), h.goesOn, h.waits⟩

theorem Arranged.addBlock {role : Role} (h : Arranged known waiting r b) (hrole : role ≠ .entry) :
    Arranged (b.blocks.length :: known) (b.blocks.length :: waiting)
      (r.after b' (.added b.blocks.length))
      { b with blocks := b.blocks ++ [⟨role, [], none⟩] } := by
  have hpos := h.length_pos
  have hadded := h.toAccounted.addBlock hrole hpos
  refine ⟨hadded.reorder (.swap _ _ _) b.current, ?_, h.goesOn, congrArg _ h.waits⟩
  intro n hn
  simp only [Builder.IsTarget, List.length_append, List.length_singleton]
  rcases List.mem_cons.mp hn with rfl | hn
  · omega
  · obtain ⟨hn₀, hlt⟩ := h.known n hn
    omega

/-- Of the waiting blocks the one that is filled next is struck out. -/
theorem Arranged.erase_waiting {others : List Nat} {next : Nat}
    (h : Arranged known (others ++ next :: waiting) r b) :
    r.waiting.erase next = others ++ waiting := by
  have hnodup := (List.nodup_append.mp h.nodup).2.1
  have hnew : next ∉ others := by
    intro hmem
    exact (List.nodup_append.mp (List.nodup_cons.mp hnodup).2).2.2 next hmem next (by simp) rfl
  rw [h.waits, List.erase_append_right _ hnew, List.erase_cons_head]

end Blocks

/-! ### Steps that leave the blocks as they are -/

/-- What blocks are for and how they end. -/
def Builder.outline (b : Builder) : List (Role × Option Terminator) :=
  b.blocks.map fun x => (x.role, x.terminator)

/-- Steps that neither add blocks nor end them. -/
def Unbranching {α : Type} (f : Lower α) : Prop :=
  ∀ b a b', f b = .ok (a, b') → b'.outline = b.outline ∧ b'.current = b.current

theorem outline_modify_add (b : Builder) (n : Nat) (i : Instr) :
    Builder.outline { b with blocks := b.blocks.modify n (Block.add i) } = b.outline := by
  apply List.ext_getElem?
  intro j
  simp only [Builder.outline, List.getElem?_map, getElem?_modify_block, Option.map_map]
  congr 1
  funext x
  simp only [Function.comp_apply]
  split <;> rfl

namespace Unbranching

variable {α β : Type}

theorem bind {f : Lower α} {g : α → Lower β} (hf : Unbranching f) (hg : ∀ a, Unbranching (g a)) :
    Unbranching (f >>= g) := by
  intro b c b' h
  obtain ⟨a, mid, hfirst, hsecond⟩ := Lower.bind_eq_ok h
  obtain ⟨houtline, hcurrent⟩ := hf _ _ _ hfirst
  obtain ⟨houtline', hcurrent'⟩ := hg a _ _ _ hsecond
  exact ⟨houtline'.trans houtline, hcurrent'.trans hcurrent⟩

theorem of_inline {f : Lower α} (h : Inline f) : Unbranching f := by
  induction h with
  | pure a =>
    intro b _ b' h
    cases h
    exact ⟨rfl, rfl⟩
  | stop e =>
    intro b _ b' h
    cases h
  | bind _ _ ihf ihg => exact ihf.bind ihg
  | emit ins type =>
    intro b _ b' h
    cases h
    exact ⟨outline_modify_add b _ ins, rfl⟩
  | perform ins =>
    intro b _ b' h
    cases h
    exact ⟨outline_modify_add b _ ins, rfl⟩
  | addText text =>
    intro b _ b' h
    cases h
    exact ⟨rfl, rfl⟩

end Unbranching

theorem declaration_unbranching (env : Environment) (type : Ty) (name : String) (initial : Expr) :
    Unbranching (declaration env type name initial) := by
  refine Unbranching.bind ?_ fun slot =>
    .of_inline ((initialValue_inline env type initial).bind fun _ =>
      (store_inline _ _).bind fun _ => .pure _)
  intro b _ b' h
  cases h
  exact ⟨outline_modify_add b 0 _, rfl⟩

/-- Blocks stay arranged as long as their outline stays the same. -/
theorem Arranged.of_outline {known waiting : List Nat} {r : Record} {b b' : Builder}
    (h : Arranged known waiting r b) (houtline : b'.outline = b.outline)
    (hcurrent : b'.current = b.current) : Arranged known waiting r b' := by
  have hlength : b'.blocks.length = b.blocks.length := by
    simpa [Builder.outline] using congrArg List.length houtline
  have hblock : ∀ (i : Nat) (y : Block), b'.blocks[i]? = some y →
      ∃ x, b.blocks[i]? = some x ∧ x.role = y.role ∧ x.terminator = y.terminator := by
    intro i y hy
    have hi := congrArg (·[i]?) houtline
    simp only [Builder.outline, List.getElem?_map, hy, Option.map_some] at hi
    obtain ⟨x, hx, heq⟩ := Option.map_eq_some_iff.mp hi.symm
    exact ⟨x, hx, congrArg Prod.fst heq, congrArg Prod.snd heq⟩
  have htarget : ∀ n, b.IsTarget n → b'.IsTarget n := fun n hn => ⟨hn.1, hlength ▸ hn.2⟩
  refine ⟨⟨by rw [hcurrent, hlength]; exact h.once, ?_,
    fun e he n hn => htarget n (h.targets e he n hn), ?_, h.boundaries⟩,
    fun n hn => htarget n (h.known n hn), h.goesOn, h.waits⟩
  · intro i y t hy
    obtain ⟨x, hx, -, hend⟩ := hblock i y hy
    rw [← hend]
    exact h.ended_iff i x t hx
  · intro i y hy
    obtain ⟨x, hx, hrole, -⟩ := hblock i y hy
    rw [← hrole]
    exact h.entry_iff i x hx

/-- The blocks of a conditional that are still to be filled while its first arm is: what follows the
arm, and what follows an alternative. -/
def Arms.waiting (arms : Arms) (hasAlternative : Bool) : List Nat :=
  arms.elseBlock :: if hasAlternative then [arms.endBlock] else []

namespace Recorded

/-! ### Steps -/

/-- Taken where `before` holds, these steps lead to where `after` holds. -/
def Meets {α : Type} (f : Recorded α) (before : Record → Builder → Prop)
    (after : α → Record → Builder → Prop) : Prop :=
  ∀ r b a r' b', before r b → f r b = .ok ((a, r'), b') → after a r' b'

namespace Meets

variable {α β : Type} {before : Record → Builder → Prop}

theorem pure {a : α} {after : α → Record → Builder → Prop}
    (h : ∀ r b, before r b → after a r b) : Meets (Pure.pure a : Recorded α) before after := by
  intro r b _ r' b' hbefore hrun
  cases hrun
  exact h r b hbefore

theorem bind {f : Recorded α} {g : α → Recorded β} {mid : α → Record → Builder → Prop}
    {after : β → Record → Builder → Prop} (hf : Meets f before mid)
    (hg : ∀ a, Meets (g a) (mid a) after) : Meets (f >>= g) before after := by
  intro r b c r' b' hbefore hrun
  rw [bind_run] at hrun
  cases hfirst : f r b with
  | error e =>
    rw [hfirst] at hrun
    cases hrun
  | ok x =>
    rw [hfirst] at hrun
    exact hg _ _ _ _ _ _ (hf _ _ _ _ _ hbefore hfirst) hrun

end Meets

variable {α : Type} {known waiting : List Nat}

theorem unbranching_meets {f : Lower α} (h : Unbranching f) :
    Meets (liftM f) (Arranged known waiting) fun _ => Arranged known waiting := by
  intro r b a r' b' harranged hrun
  rw [lift_run] at hrun
  cases hf : f b with
  | error e =>
    rw [hf] at hrun
    cases hrun
  | ok x =>
    rw [hf] at hrun
    cases hrun
    obtain ⟨houtline, hcurrent⟩ := h _ _ _ hf
    exact harranged.of_outline houtline hcurrent

theorem inline_meets {f : Lower α} (h : Inline f) :
    Meets (liftM f) (Arranged known waiting) fun _ => Arranged known waiting :=
  unbranching_meets (.of_inline h)

theorem boundary_meets :
    Meets (recorder (.block .boundary)) (Arranged known waiting) fun _ =>
      Arranged known waiting := by
  intro r b _ r' b' h hrun
  cases hrun
  have hboundary := h.toAccounted.boundary
  rw [← h.waits] at hboundary ⊢
  exact ⟨hboundary, h.known, by simpa [Record.after, Record.note] using h.goesOn, rfl⟩

theorem within_meets {f : Recorded α}
    (h : Meets f (Arranged known waiting) fun _ => Arranged known waiting) :
    Meets (Observed.within recorder f) (Arranged known waiting) fun _ => Arranged known waiting :=
  boundary_meets.bind fun _ => h.bind fun _ => boundary_meets.bind fun _ => .pure fun _ _ h => h

/-- A new block may be gone on with, and waits to be filled. -/
theorem addBlock_meets {role : Role} (hrole : role ≠ .entry) :
    Meets (Observed.addBlock recorder role) (Arranged known waiting) fun n =>
      Arranged (n :: known) (n :: waiting) := by
  intro r b n r' b' h hrun
  cases hrun
  exact h.addBlock hrole

/-- One of the waiting blocks is filled next. -/
theorem leave_meets (others : List Nat) {g : Guard} {t : Terminator} {next : Nat} (hgoes : t ≠ .ret)
    (ht : t.targets ⊆ known) :
    Meets (Observed.leave recorder g t next) (Arranged known (others ++ next :: waiting)) fun _ =>
      Arranged known (others ++ waiting) := by
  intro r b _ r' b' h hrun
  cases hrun
  have hended := h.toAccounted.finish (g := g) fun n hn => h.known n (ht hn)
  refine ⟨hended.reorder List.perm_middle.symm next, ?_, ?_, h.erase_waiting⟩
  · intro n hn
    simpa [Builder.IsTarget] using h.known n hn
  · intro e he
    simp only [Record.after, Record.note, endings_ending, List.mem_append, List.mem_singleton] at he
    rcases he with he | rfl
    · exact h.goesOn e he
    · exact hgoes

theorem branchOn_meets (others : List Nat) (env : Environment) (condition : Expr)
    {whenTrue whenFalse : Nat} (htrue : whenTrue ∈ known) (hfalse : whenFalse ∈ known) :
    Meets (Observed.branchOn recorder env condition whenTrue whenFalse)
      (Arranged known (others ++ whenTrue :: waiting)) fun _ =>
      Arranged known (others ++ waiting) := by
  rw [Observed.branchOn, recorder_ignoresValues.expr_eq]
  exact (inline_meets (lower_inline env condition)).bind fun _ =>
    leave_meets others (by simp) (by simp [Terminator.targets, htrue, hfalse])

theorem branchOnOptional_meets (others : List Nat) (env : Environment) (condition : Expr)
    {whenTrue whenFalse : Nat} (htrue : whenTrue ∈ known) (hfalse : whenFalse ∈ known) :
    Meets (Observed.branchOnOptional recorder env condition whenTrue whenFalse)
      (Arranged known (others ++ whenTrue :: waiting)) fun _ =>
      Arranged known (others ++ waiting) := by
  unfold Observed.branchOnOptional
  split
  · exact leave_meets others (by simp) (by simp [Terminator.targets, htrue])
  · exact branchOn_meets others env condition htrue hfalse

theorem openArms_meets (env : Environment) (condition : Expr) (hasAlternative : Bool) :
    Meets (Observed.openArms recorder env condition hasAlternative) (Arranged known waiting)
      fun arms => Arranged (arms.endBlock :: known) (arms.waiting hasAlternative ++ waiting) := by
  rw [Observed.openArms, recorder_ignoresValues.expr_eq]
  refine (inline_meets (lower_inline env condition)).bind fun v =>
    (addBlock_meets (by decide)).bind fun thenBlock =>
    (addBlock_meets (by decide)).bind fun endBlock => ?_
  cases hasAlternative with
  | true =>
    refine (addBlock_meets (by decide)).bind fun elseBlock =>
      (leave_meets [elseBlock, endBlock] (by simp) (by simp [Terminator.targets])).bind
        fun _ => .pure fun _ _ h => h.forget ?_
    simp +contextual
  | false =>
    -- without an alternative the second arm is the end
    show Meets (Observed.leave recorder .always (.branch v.operand thenBlock endBlock) thenBlock >>=
      fun _ => Pure.pure (⟨thenBlock, endBlock, endBlock⟩ : Arms)) _ _
    exact (leave_meets [endBlock] (by simp) (by simp [Terminator.targets])).bind fun _ =>
      .pure fun _ _ h => h.forget (by simp +contextual)

theorem openWhile_meets (env : Environment) (condition : Expr) :
    Meets (Observed.openWhile recorder env condition) (Arranged known waiting) fun rounds =>
      Arranged (rounds.condBlock :: known) (rounds.endBlock :: waiting) := by
  refine (addBlock_meets (by decide)).bind fun condBlock =>
    (addBlock_meets (by decide)).bind fun bodyBlock =>
    (addBlock_meets (by decide)).bind fun endBlock =>
    (leave_meets [endBlock, bodyBlock] (by simp) (by simp [Terminator.targets])).bind fun _ =>
    (branchOn_meets [endBlock] env condition (by simp) (by simp)).bind fun _ =>
    .pure fun _ _ h => h.forget ?_
  simp +contextual

theorem openFor_meets (env : Environment) (condition : Expr) :
    Meets (Observed.openFor recorder env condition) (Arranged known waiting) fun rounds =>
      Arranged (rounds.condBlock :: rounds.incBlock :: known)
        (rounds.endBlock :: rounds.incBlock :: waiting) := by
  refine (addBlock_meets (by decide)).bind fun condBlock =>
    (addBlock_meets (by decide)).bind fun bodyBlock =>
    (addBlock_meets (by decide)).bind fun incBlock =>
    (addBlock_meets (by decide)).bind fun endBlock =>
    (leave_meets [endBlock, incBlock, bodyBlock] (by simp) (by simp [Terminator.targets])).bind
      fun _ =>
    (branchOnOptional_meets [endBlock, incBlock] env condition (by simp) (by simp)).bind fun _ =>
    .pure fun _ _ h => h.forget ?_
  simp +contextual

end Recorded

end Lowering

/-! ### Statements and programs -/

open Lowering Lowering.Recorded

mutual

/-- The code of a statement keeps the blocks arranged, whatever it is nested in. -/
theorem Stmt.lower_meets (known waiting : List Nat) (env : Environment) :
    (s : Stmt) → Meets (s.lowerObserved recorder env) (Arranged known waiting) fun _ =>
      Arranged known waiting
  | .absent => by
    rw [Stmt.lowerObserved]
    exact within_meets (inline_meets (.stop _))
  | .declare type name initial => by
    rw [Stmt.lowerObserved, recorder_ignoresValues.declaration_eq recorder_ignoresNames]
    exact within_meets (unbranching_meets (declaration_unbranching env _ name initial))
  | .print value => by
    rw [Stmt.lowerObserved, recorder_ignoresNames, pure_bind, recorder_ignoresValues.expr_eq]
    exact within_meets ((inline_meets (lower_inline env value)).bind fun v =>
      (inline_meets (print_inline v)).bind fun _ => .pure fun _ _ h => h)
  | .expression value => by
    rw [Stmt.lowerObserved, recorder_ignoresNames, pure_bind, recorder_ignoresValues.expr_eq]
    exact within_meets ((inline_meets (lower_inline env value)).bind fun _ => .pure fun _ _ h => h)
  | .block body => by
    rw [Stmt.lowerObserved]
    simp only [recorder_ignoresNames _, pure_bind]
    exact within_meets ((Stmt.lowerAll_meets known waiting env body).bind fun _ =>
      .pure fun _ _ h => h)
  | .ifElse condition consequent alternative => by
    rw [Stmt.lowerObserved, recorder_ignoresNames, pure_bind]
    refine within_meets ((openArms_meets env condition _).bind fun arms =>
      (Stmt.lower_meets (arms.endBlock :: known) _ env consequent).bind fun between =>
      (leave_meets [] (by simp) (by simp [Terminator.targets])).bind fun _ => ?_)
    cases alternative.isAbsent with
    | true => exact .pure fun _ _ h => h.forget (by simp +contextual)
    | false =>
      exact (Stmt.lower_meets (arms.endBlock :: known) (arms.endBlock :: waiting) between
        alternative).bind fun _ => (leave_meets [] (by simp) (by simp [Terminator.targets])).bind
        fun _ => .pure fun _ _ h => h.forget (by simp +contextual)
  | .whileLoop condition body => by
    rw [Stmt.lowerObserved, recorder_ignoresNames, pure_bind]
    exact within_meets ((openWhile_meets env condition).bind fun rounds =>
      (Stmt.lower_meets (rounds.condBlock :: known) (rounds.endBlock :: waiting) env
        body).bind fun _ => (leave_meets [] (by simp) (by simp [Terminator.targets])).bind fun _ =>
      .pure fun _ _ h => h.forget (by simp +contextual))
  | .forLoop initial condition increment body => by
    rw [Stmt.lowerObserved]
    simp only [recorder_ignoresNames _, pure_bind, recorder_ignoresValues.evaluateOptional_eq]
    have hinitial : Meets (if initial.isAbsent then pure env else initial.lowerObserved recorder env)
        (Arranged known waiting) fun _ => Arranged known waiting := by
      split
      · exact .pure fun _ _ h => h
      · exact Stmt.lower_meets known waiting env initial
    exact within_meets (hinitial.bind fun inner =>
      (openFor_meets inner condition).bind fun rounds =>
      (Stmt.lower_meets (rounds.condBlock :: rounds.incBlock :: known)
        (rounds.endBlock :: rounds.incBlock :: waiting) inner body).bind fun after =>
      (leave_meets [rounds.endBlock] (by simp) (by simp [Terminator.targets])).bind fun _ =>
      (inline_meets (evaluateOptional_inline after increment)).bind fun _ =>
      (leave_meets [] (by simp) (by simp [Terminator.targets])).bind fun _ =>
      .pure fun _ _ h => h.forget (by simp +contextual))

theorem Stmt.lowerAll_meets (known waiting : List Nat) (env : Environment) :
    (ss : List Stmt) → Meets (Stmt.lowerAllObserved recorder env ss) (Arranged known waiting)
      fun _ => Arranged known waiting
  | [] => by
    rw [Stmt.lowerAllObserved]
    exact .pure fun _ _ h => h
  | s :: ss => by
    rw [Stmt.lowerAllObserved]
    exact (Stmt.lower_meets known waiting env s).bind fun after =>
      Stmt.lowerAll_meets known waiting after ss

end

theorem Arranged.initial : Arranged [] [] ⟨[], []⟩ .initial := by
  have hblock : ∀ i x, Builder.initial.blocks[i]? = some x → i = 0 ∧ x = ⟨.entry, [], none⟩ := by
    intro i x hx
    rw [Builder.initial, List.getElem?_singleton] at hx
    split at hx
    · next hi => exact ⟨hi, (Option.some.inj hx).symm⟩
    · cases hx
  refine ⟨⟨.refl _, ?_, by simp [endings], ?_, by simp⟩, by simp, by simp [endings], rfl⟩
  · intro i x t hx
    obtain ⟨rfl, rfl⟩ := hblock i x hx
    simp [endings]
  · intro i x hx
    obtain ⟨rfl, rfl⟩ := hblock i x hx
    simp

theorem Llvm.Module.labels_getElem? (m : Module) (i : Nat) :
    m.labels[i]? = (m.blocks[i]?).map fun x => x.role.label i := by
  simp [Module.labels, Naming.ofBlocks, List.getElem?_zipIdx, Function.comp_def]

/-- Of entries with different keys, one has a given key. -/
theorem filter_fst_eq_singleton {α : Type} {l : List (Nat × α)} (h : (l.map Prod.fst).Nodup)
    {i : Nat} {a : α} (hmem : (i, a) ∈ l) : l.filter (fun e => e.1 = i) = [(i, a)] := by
  induction l with
  | nil => cases hmem
  | cons e l ih =>
    rw [List.map_cons, List.nodup_cons] at h
    obtain ⟨hnew, hnodup⟩ := h
    rcases List.mem_cons.mp hmem with rfl | hmem
    · have hrest : l.filter (fun e => e.1 = i) = [] := by
        rw [List.filter_eq_nil_iff]
        intro e he hkey
        exact hnew (List.mem_map.mpr ⟨e, he, of_decide_eq_true hkey⟩)
      rw [List.filter_cons_of_pos (by simp), hrest]
    · have hne : e.1 ≠ i := by
        rintro rfl
        exact hnew (List.mem_map.mpr ⟨_, hmem, rfl⟩)
      rw [List.filter_cons_of_neg (by simpa using hne), ih hnodup hmem]

namespace Lowering.Accounted

variable {unended : List Nat} {record : List Moment} {b : Builder}

theorem labels_nodup (h : Accounted unended record b) : b.module.labels.Nodup := by
  rw [List.nodup_iff_getElem?_ne_getElem?]
  intro i j hij hj heq
  rw [Module.labels_getElem?, Module.labels_getElem?] at heq
  have hlt : j < b.blocks.length := by
    simpa [Module.labels, Naming.ofBlocks, Builder.module] using hj
  have hi : b.module.blocks[i]? = some b.blocks[i] :=
    List.getElem?_eq_getElem (Nat.lt_trans hij hlt)
  have hj : b.module.blocks[j]? = some b.blocks[j] := List.getElem?_eq_getElem hlt
  rw [hi, hj] at heq
  have := Role.label_injective (h.entry_iff i _ hi) (h.entry_iff j _ hj) (Option.some.inj heq)
  omega

/-- Every block has been ended once if none is left. -/
theorem ended_once (h : Accounted [] record b) {i : Nat} {x : Block} (hx : b.blocks[i]? = some x) :
    ∃ t, x.terminator = some t ∧ (endings record).filter (fun e => e.1 = i) = [(i, t)] := by
  have hlt := (List.getElem?_eq_some_iff.mp hx).1
  have hkeys := h.once
  rw [List.append_nil] at hkeys
  obtain ⟨⟨j, t⟩, hmem, rfl⟩ := List.mem_map.mp (hkeys.symm.subset (List.mem_range.mpr hlt))
  exact ⟨t, (h.ended_iff j x t hx).mpr hmem,
    filter_fst_eq_singleton (hkeys.nodup_iff.mpr List.nodup_range) hmem⟩

theorem target_label (h : Accounted unended record b) {x : Block} (hx : x ∈ b.blocks)
    {t : Terminator} (ht : x.terminator = some t) {n : Nat} (hn : n ∈ t.targets) :
    ∃ label, b.module.labels[n]? = some label ∧ label ≠ "entry" := by
  obtain ⟨i, hi⟩ := List.mem_iff_getElem?.mp hx
  obtain ⟨hpos, hlt⟩ := h.targets _ ((h.ended_iff i x t hi).mp ht) n hn
  have hy : b.blocks[n]? = some b.blocks[n] := List.getElem?_eq_getElem hlt
  have hlabel : b.module.labels[n]? = some (b.blocks[n].role.label n) := by
    rw [Module.labels_getElem?, show b.module.blocks[n]? = some b.blocks[n] from hy]
    rfl
  refine ⟨_, hlabel, ?_⟩
  rw [Ne, Role.label_eq_entry_iff, h.entry_iff n _ hy]
  omega

end Lowering.Accounted

/-- The last block to be filled is the only one that returns. -/
theorem Lowering.Recorded.finish_ret_meets (known : List Nat) :
    Meets (Observed.finish recorder .unlessEnded .ret) (Arranged known []) fun _ r b =>
      Accounted [] r.moments b ∧ b.current < b.blocks.length ∧
        ∀ i, (i, .ret) ∈ endings r.moments ↔ i = b.current := by
  intro r b _ r' b' h hrun
  cases hrun
  refine ⟨h.toAccounted.finish (by simp [Terminator.targets]), ?_, ?_⟩
  · rw [List.length_modify]
    exact h.lt List.mem_cons_self
  · intro i
    have hnone : (i, Terminator.ret) ∉ endings r.moments := fun hmem => h.goesOn _ hmem rfl
    simp [Record.after, Record.note, hnone]

/-- When a program has been lowered all blocks have been ended. -/
theorem exists_accounted_of_lower {p : Program} {m : Module} (h : lower p = .ok m) :
    ∃ b record, lowerRecorded p = .ok (b, record) ∧ b.module = m ∧ Accounted [] record b ∧
      b.current < b.blocks.length ∧ ∀ i, (i, .ret) ∈ endings record ↔ i = b.current := by
  rw [← lowerRecorded_module] at h
  unfold lowerRecorded at h ⊢
  cases hrun : lowerObserved recorder p ⟨[], []⟩ Builder.initial with
  | error e =>
    rw [hrun] at h
    cases h
  | ok x =>
    rw [hrun] at h
    cases h
    have hmeets := (Stmt.lowerAll_meets [] [] [] p).bind fun _ => finish_ret_meets []
    exact ⟨x.2, x.1.2.moments, rfl, rfl, hmeets _ _ _ _ _ Arranged.initial hrun⟩

/-- How the blocks of a program's main function are connected. -/
theorem lower_connects_blocks {p : Program} {m : Module} (h : lower p = .ok m) :
    ∃ b record, lowerRecorded p = .ok (b, record) ∧ b.module = m ∧
      -- each block has an end, and nothing else has ever been made its end
      (∀ i x, m.blocks[i]? = some x → ∃ t, x.terminator = some t ∧
        (endings record).filter (fun e => e.1 = i) = [(i, t)]) ∧
      m.labels.Nodup ∧
      (∀ x ∈ m.blocks, ∀ t ∈ x.terminator, ∀ n ∈ t.targets,
        ∃ label, m.labels[n]? = some label ∧ label ≠ "entry") ∧
      -- the block that is filled last returns, and no other does
      b.current < m.blocks.length ∧
      (∀ i x, m.blocks[i]? = some x → (x.terminator = some .ret ↔ i = b.current)) ∧
      ∀ b' waiting, .boundary b' waiting ∈ record → b'.Suspended waiting := by
  obtain ⟨b, record, hrecorded, rfl, haccounted, hcurrent, hreturns⟩ := exists_accounted_of_lower h
  refine ⟨b, record, hrecorded, rfl, fun i y hy => haccounted.ended_once hy,
    haccounted.labels_nodup, fun y hy t ht n hn => haccounted.target_label hy ht hn, hcurrent, ?_,
    haccounted.boundaries⟩
  intro i y hy
  rw [haccounted.ended_iff i y .ret hy, hreturns]

/-- The block that is being filled at a boundary at which the given blocks wait. -/
def Lowering.Moment.filledWhile? (waiting : List Nat) : Moment → Option Nat
  | .boundary b w => if w = waiting then some b.current else none
  | .ending _ _ => none

/-- A loop in an alternative in an endless loop: while the innermost statement is lowered four
blocks wait for what is around it. -/
theorem connected_nested_loops :
    let assign (n : String) : Stmt := .expression (.assign "x" (.literal .int n))
    let p : Program :=
      [.declare "tibuok" "x" .absent,
        .forLoop .absent .absent .absent
          (.block [.ifElse (.literal .bool "true") (assign "1")
            (.whileLoop (.literal .bool "false") (assign "2"))])]
    ∃ m b record, lower p = .ok m ∧ lowerRecorded p = .ok (b, record) ∧
      m.labels = ["entry", "for.cond.0", "for.body.1", "for.inc.2", "for.end.3", "if.then.4",
        "if.end.5", "if.else.6", "while.cond.7", "while.body.8", "while.end.9"] ∧
      m.labels.Nodup ∧ b.current = 4 ∧
      (∀ i x, m.blocks[i]? = some x → ∃ t, x.terminator = some t ∧
        (endings record).filter (fun e => e.1 = i) = [(i, t)]) ∧
      ∃ b', .boundary b' [10, 6, 4, 3] ∈ record ∧ b'.current = 9 ∧ b'.Suspended [10, 6, 4, 3] := by
  intro assign p
  have hlabels : (lower p).map Module.labels =
      .ok ["entry", "for.cond.0", "for.body.1", "for.inc.2", "for.end.3", "if.then.4",
        "if.end.5", "if.else.6", "while.cond.7", "while.body.8", "while.end.9"] := by
    decide +kernel
  have hrun : (lowerRecorded p).map
      (fun x => (x.1.current, x.2.filterMap (Moment.filledWhile? [10, 6, 4, 3]))) =
        .ok (4, [9, 9]) := by
    decide +kernel
  cases hlower : lower p with
  | error e =>
    rw [hlower] at hlabels
    cases hlabels
  | ok m =>
    rw [hlower] at hlabels
    obtain ⟨b, record, hrecorded, -, honce, hnodup, -, -, -, hboundaries⟩ :=
      lower_connects_blocks hlower
    rw [hrecorded] at hrun
    obtain ⟨hcurrent, hmet⟩ := Prod.mk.inj (Except.ok.inj hrun)
    refine ⟨m, b, record, rfl, hrecorded, Except.ok.inj hlabels, hnodup, hcurrent, honce, ?_⟩
    have hmem : 9 ∈ record.filterMap (Moment.filledWhile? [10, 6, 4, 3]) :=
      hmet ▸ List.mem_cons_self
    obtain ⟨moment, hmoment, hat⟩ := List.mem_filterMap.mp hmem
    cases moment with
    | ending n t => cases hat
    | boundary b' waiting =>
      simp only [Moment.filledWhile?, Option.ite_none_right_eq_some, Option.some.injEq] at hat
      obtain ⟨rfl, hnine⟩ := hat
      exact ⟨b', hmoment, hnine, hboundaries b' _ hmoment⟩

end Binisaya
