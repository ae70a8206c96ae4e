import Binisaya.Proofs.Lowering.Resolution
import Binisaya.Proofs.Semantics.Machine
import Binisaya.Proofs.Semantics.Program
import Mathlib.Data.List.Forall2
import Mathlib.Data.List.Nodup

/-!
# Machines that stand for states

While a program is lowered, `slots` says which variable each name stands for.  `Holds` says that in
the slots of a machine there is what the names hold, in the shadowed ones too.  `Ready` is the whole
relation between a state of a program and a machine that has executed the code so far.  It is kept
by reading, by storing in a slot, which changes no other variable, and by declaring a variable,
whose slot is apart from all others.
-/

namespace Binisaya

open Llvm Lowering

/-! ### Frames in which no value is repeated -/

theorem Frame.get?_inj {α : Type} {t : Frame α} (h : t.values.Nodup) {n k : String} {x : α}
    (hn : t.get? n = some x) (hk : t.get? k = some x) : n = k := by
  have hmem : ∀ {name : String}, t.get? name = some x → (name, x) ∈ t.entries := by
    intro name hname
    obtain ⟨l₁, l₂, hl, -⟩ := List.lookup_eq_some_iff.mp hname
    rw [hl]
    simp
  exact congrArg Prod.fst (List.inj_on_of_nodup_map h (hmem hn) (hmem hk) rfl)

namespace Lowering

/-! ### What variables hold -/

/-- What a variable holds. -/
def content? (m : Module) (s : Machine) (x : Variable) : Option Value :=
  (s.address? m x.slot).bind fun a => (s.memory[a]?).join

/-- A frame of values holds what is in the slots of a frame of variables. -/
def FrameHolds (content : Variable → Option Value) (f : Frame Variable) (g : Frame Value) : Prop :=
  ∀ n, g.get? n = (f.get? n).bind content

/-- The names hold what is in the slots of their variables, and each variable holds a value of its
type. -/
structure Holds (content : Variable → Option Value) (slots : Scopes Variable) (σ : Scopes Value) :
    Prop where
  frames : List.Forall₂ (FrameHolds content) slots.frames σ.frames
  typed : ∀ x ∈ slots.values, ∃ v, content x = some v ∧ v.type = x.type

theorem FrameHolds.congr {content content' : Variable → Option Value} {f : Frame Variable}
    {g : Frame Value} (h : FrameHolds content f g) (hsame : ∀ x ∈ f.values, content' x = content x) :
    FrameHolds content' f g := by
  intro n
  rw [h n]
  cases hn : f.get? n with
  | none => rfl
  | some x => exact (hsame x (Frame.mem_values_of_get? hn)).symm

theorem forall₂_congr {content content' : Variable → Option Value} {fs : List (Frame Variable)}
    {gs : List (Frame Value)} (h : List.Forall₂ (FrameHolds content) fs gs)
    (hsame : ∀ x ∈ fs.flatMap Frame.values, content' x = content x) :
    List.Forall₂ (FrameHolds content') fs gs := by
  induction h with
  | nil => exact .nil
  | cons hf _ ih =>
    simp only [List.flatMap_cons, List.mem_append] at hsame
    exact .cons (hf.congr fun x hx => hsame x (.inl hx)) (ih fun x hx => hsame x (.inr hx))

theorem forall₂_lookup {content : Variable → Option Value} {fs : List (Frame Variable)}
    {gs : List (Frame Value)} (h : List.Forall₂ (FrameHolds content) fs gs) {n : String}
    {x : Variable} {v : Value} (hn : fs.findSome? (·.get? n) = some x) (hx : content x = some v) :
    gs.findSome? (·.get? n) = some v := by
  induction h with
  | nil => cases hn
  | @cons f g fs gs hf _ ih =>
    rw [List.findSome?_cons] at hn ⊢
    rw [hf n]
    cases hget : f.get? n with
    | none =>
      rw [hget] at hn
      exact ih hn
    | some y =>
      rw [hget] at hn
      obtain rfl := Option.some.inj hn
      rw [Option.bind_some, hx]

/-- Assigning to a name changes what its variable holds, and nothing else. -/
theorem forall₂_assign {content content' : Variable → Option Value} {fs : List (Frame Variable)}
    {gs : List (Frame Value)} (h : List.Forall₂ (FrameHolds content) fs gs) {n : String}
    {x : Variable} {v w : Value} (hn : fs.findSome? (·.get? n) = some x) (hx : content x = some w)
    (hx' : content' x = some v) (hnodup : (fs.flatMap Frame.values).Nodup)
    (hothers : ∀ y ∈ fs.flatMap Frame.values, y ≠ x → content' y = content y) :
    List.Forall₂ (FrameHolds content') fs (Scopes.assignIn n v gs) := by
  induction h with
  | nil => cases hn
  | @cons f g fs gs hf hrest ih =>
    rw [List.findSome?_cons] at hn
    rw [List.flatMap_cons, List.nodup_append] at hnodup
    obtain ⟨hnodupf, hnodupfs, hapart⟩ := hnodup
    simp only [List.flatMap_cons, List.mem_append] at hothers
    cases hget : f.get? n with
    | some y =>
      rw [hget] at hn
      obtain rfl := Option.some.inj hn
      have hxf := Frame.mem_values_of_get? hget
      have hbinds : g.binds n = true := by
        rw [Frame.binds, hf n, hget, Option.bind_some, hx]
        rfl
      rw [Scopes.assignIn_of_binds hbinds]
      refine .cons ?_ (forall₂_congr hrest fun z hz => ?_)
      · intro k
        rw [Frame.get?_add]
        split
        · next hk => rw [hk, hget, Option.bind_some, hx']
        · next hk =>
          rw [hf k]
          cases hgetk : f.get? k with
          | none => rfl
          | some z =>
            -- another name of the same frame has another variable
            have hz : z ≠ y := by
              rintro rfl
              exact hk (Frame.get?_inj hnodupf hgetk hget)
            exact (hothers z (.inl (Frame.mem_values_of_get? hgetk)) hz).symm
      · exact hothers z (.inr hz) (Ne.symm (hapart y hxf z hz))
    | none =>
      rw [hget] at hn
      have hxfs : x ∈ fs.flatMap Frame.values := by
        obtain ⟨f', hf', hget'⟩ := List.exists_of_findSome?_eq_some hn
        exact List.mem_flatMap.mpr ⟨f', hf', Frame.mem_values_of_get? hget'⟩
      have hbinds : g.binds n = false := by
        rw [Frame.binds, hf n, hget]
        rfl
      cases hrest with
      | nil => cases hn
      | @cons f' g' fs' gs' hf' hrest' =>
        rw [Scopes.assignIn_of_not_binds hbinds v (List.cons_ne_nil g' gs')]
        refine .cons (hf.congr fun z hz => hothers z (.inl hz) (hapart z hz x hxfs)) ?_
        exact ih hn hnodupfs fun z hz => hothers z (.inr hz)

namespace Holds

variable {content content' : Variable → Option Value} {slots : Scopes Variable} {σ : Scopes Value}

theorem initial (content : Variable → Option Value) : Holds content .initial .initial :=
  ⟨.cons (fun _ => rfl) .nil, nofun⟩

theorem congr (h : Holds content slots σ) (hsame : ∀ x ∈ slots.values, content' x = content x) :
    Holds content' slots σ := by
  refine ⟨forall₂_congr h.frames hsame, fun x hx => ?_⟩
  rw [hsame x hx]
  exact h.typed x hx

theorem lookup (h : Holds content slots σ) {n : String} {x : Variable}
    (hn : slots.lookup n = some x) :
    ∃ v, σ.lookup n = some v ∧ content x = some v ∧ v.type = x.type := by
  obtain ⟨v, hv, htype⟩ := h.typed x (Scopes.mem_values_of_lookup hn)
  exact ⟨v, forall₂_lookup h.frames hn hv, hv, htype⟩

theorem push (h : Holds content slots σ) : Holds content slots.push σ.push :=
  ⟨.cons (fun _ => rfl) h.frames, h.typed⟩

/-- Closing a block leads back to the variables around it. -/
theorem pop {inner : Scopes Variable} (h : Holds content inner σ)
    (houter : inner.outer = slots.frames) : Holds content slots σ.pop := by
  have hframes := h.frames
  rw [Scopes.frames, Scopes.frames, houter, List.forall₂_cons] at hframes
  have hpop : σ.pop.frames = σ.outer := by
    unfold Scopes.pop
    cases hσ : σ.outer with
    | nil =>
      rw [hσ] at hframes
      cases hframes.2
    | cons g gs => rfl
  refine ⟨hpop ▸ hframes.2, fun x hx => h.typed x ?_⟩
  rw [Scopes.values, Scopes.frames, houter, List.flatMap_cons]
  exact List.mem_append_right _ hx

theorem bind (h : Holds content slots σ) {x : Variable} {v : Value} (hx : content x = some v)
    (htype : v.type = x.type) (n : String) : Holds content (slots.bind n x) (σ.bind n v) := by
  have hframes := h.frames
  rw [Scopes.frames, Scopes.frames, List.forall₂_cons] at hframes
  refine ⟨.cons (fun k => ?_) hframes.2, fun y hy => ?_⟩
  · simp only [Scopes.bind, Frame.get?_add]
    split
    · rw [Option.bind_some, hx]
    · exact hframes.1 k
  · rcases List.mem_cons.mp ((slots.values_bind n x).subset hy) with rfl | hy
    · exact ⟨v, hx, htype⟩
    · exact h.typed y hy

theorem assign (h : Holds content slots σ) {n : String} {x : Variable} {v : Value}
    (hn : slots.lookup n = some x) (hx : content' x = some v) (htype : v.type = x.type)
    (hnodup : slots.values.Nodup)
    (hothers : ∀ y ∈ slots.values, y ≠ x → content' y = content y) :
    Holds content' slots (σ.assign n v) := by
  obtain ⟨w, hw, -⟩ := h.typed x (Scopes.mem_values_of_lookup hn)
  refine ⟨?_, fun y hy => ?_⟩
  · rw [Scopes.frames_assign]
    exact forall₂_assign h.frames hn hw hx hnodup hothers
  · by_cases hyx : y = x
    · exact ⟨v, hyx ▸ hx, hyx ▸ htype⟩
    · rw [hothers y hy hyx]
      exact h.typed y hy

end Holds

/-! ### Slots in the memory of a machine -/

section

variable {m : Module} {s t : Machine}

theorem address?_result {p : Place} {type : ValueType} {a : Nat} :
    s.address? m (.result p type) = some a ↔ s.results p = some (.address a) := by
  simp only [Machine.address?, Machine.register?]
  cases s.results p with
  | none => simp
  | some r => cases r <;> simp

theorem content?_eq_some {x : Variable} {p : Place} {type : ValueType}
    (hslot : x.slot = .result p type) {v : Value} :
    content? m s x = some v ↔
      ∃ a, s.results p = some (.address a) ∧ s.memory[a]? = some (some v) := by
  unfold content?
  rw [Option.bind_eq_some_iff, hslot]
  simp only [address?_result, Option.join_eq_some_iff]

/-- Between these machines no result of the code in `b` has changed. -/
def Keeps (b : Builder) (s t : Machine) : Prop :=
  ∀ p, p.index < b.length p.block → t.results p = s.results p

theorem Keeps.trans {b b' : Builder} {u : Machine} (h : Keeps b s t) (h' : Keeps b' t u)
    (hext : Extends b.module b'.module) : Keeps b s u := by
  intro p hp
  rw [h' p (Nat.lt_of_lt_of_le hp (hext.length_le_of p.block)), h p hp]

/-- Variables hold what they held if memory only grows. -/
theorem Holds.grow {env : Environment} {slots : Scopes Variable} {σ : Scopes Value} {b : Builder}
    (h : Holds (content? m s) slots σ) (hnamed : Named env slots b) (hkeeps : Keeps b s t)
    (hmemory : s.memory <+: t.memory) : Holds (content? m t) slots σ := by
  refine h.congr fun x hx => ?_
  obtain ⟨i, hi, hslot⟩ := hnamed.placed x hx
  obtain ⟨v, hv, -⟩ := h.typed x hx
  obtain ⟨a, ha, hget⟩ := (content?_eq_some hslot).mp hv
  rw [hv, content?_eq_some hslot]
  refine ⟨a, (hkeeps _ hi).trans ha, ?_⟩
  obtain ⟨more, hmore⟩ := hmemory
  rw [← hmore, List.getElem?_append_left (List.getElem?_eq_some_iff.mp hget).1]
  exact hget

/-- A variable holds what has been stored in its slot. -/
theorem content?_store (hsound : m.Sound s) {x : Variable} {p : Place} {type : ValueType}
    (hslot : x.slot = .result p type) {a : Nat} (ha : s.results p = some (.address a)) (v : Value) :
    content? m { s with memory := s.memory.set a (some v) }.advance x = some v := by
  rw [content?_eq_some hslot]
  refine ⟨a, ha, ?_⟩
  have hlt := hsound.bounded p a ha
  simp [Machine.advance, hlt]

/-- A variable with another slot holds what it held. -/
theorem content?_store_ne (hsound : m.Sound s) {y : Variable} {p q : Place} {type : ValueType}
    (hslot : y.slot = .result q type) (hne : q ≠ p) {a : Nat}
    (ha : s.results p = some (.address a)) (v : Value) :
    content? m { s with memory := s.memory.set a (some v) }.advance y = content? m s y := by
  unfold content?
  have haddress : Machine.address? m { s with memory := s.memory.set a (some v) }.advance y.slot =
      s.address? m y.slot := by
    rw [hslot]
    rfl
  rw [haddress]
  cases hc : s.address? m y.slot with
  | none => rfl
  | some c =>
    rw [hslot, address?_result] at hc
    have hca : a ≠ c := by
      rintro rfl
      exact hne (hsound.distinct q p a hc ha)
    simp [Machine.advance, List.getElem?_set_ne hca]

/-- Storing in the slot of a name assigns to the name. -/
theorem Holds.store {env : Environment} {slots : Scopes Variable} {σ : Scopes Value} {b : Builder}
    (h : Holds (content? m s) slots σ) (hnamed : Named env slots b) (hsound : m.Sound s)
    {n : String} {x : Variable} (hn : slots.lookup n = some x) {a : Nat}
    (ha : s.address? m x.slot = some a) {v : Value} (htype : v.type = x.type) :
    Holds (content? m { s with memory := s.memory.set a (some v) }.advance) slots
      (σ.assign n v) := by
  have hx := Scopes.mem_values_of_lookup hn
  obtain ⟨i, -, hslot⟩ := hnamed.placed x hx
  rw [hslot, address?_result] at ha
  refine h.assign hn (content?_store hsound hslot ha v) htype (.of_map _ hnamed.distinct) ?_
  intro y hy hne
  obtain ⟨j, -, hslot'⟩ := hnamed.placed y hy
  refine content?_store_ne hsound hslot' ?_ ha v
  rintro heq
  -- in one place there is one value, so the variables have one type and one slot
  obtain ⟨w, hw, hwtype⟩ := h.typed x hx
  obtain ⟨w', hw', hwtype'⟩ := h.typed y hy
  have hsame : content? m s y = content? m s x := by
    unfold content?
    rw [hslot, hslot', heq]
    rfl
  have htypes : y.type = x.type := by
    rw [hw, hw'] at hsame
    rw [← hwtype, ← hwtype', Option.some.inj hsame]
  have hslots : y.slot = x.slot := by rw [hslot, hslot', heq, htypes]
  exact hne (List.inj_on_of_nodup_map hnamed.distinct hy hx hslots)

/-- Storing in a new slot declares a variable. -/
theorem Holds.declare {env : Environment} {slots : Scopes Variable} {σ : Scopes Value} {b : Builder}
    (h : Holds (content? m s) slots σ) (hnamed : Named env slots b) (hsound : m.Sound s)
    {x : Variable} {type : ValueType} (hslot : x.slot = .result ⟨0, b.length 0⟩ type) {a : Nat}
    (ha : s.address? m x.slot = some a) {v : Value} (htype : v.type = x.type) (n : String) :
    Holds (content? m { s with memory := s.memory.set a (some v) }.advance) (slots.bind n x)
      (σ.bind n v) := by
  rw [hslot, address?_result] at ha
  refine (h.congr fun y hy => ?_).bind (content?_store hsound hslot ha v) htype n
  obtain ⟨j, hj, hslot'⟩ := hnamed.placed y hy
  refine content?_store_ne hsound hslot' ?_ ha v
  rintro heq
  cases heq
  exact Nat.lt_irrefl _ hj

end

/-! ### The relation -/

/-- Where the next instruction is added. -/
def Builder.position (b : Builder) : Place := ⟨b.current, b.length b.current⟩

/-- A machine that has executed the code in `b`, up to where the next instruction is added, and then
stands for a state of a program. -/
structure Ready (m : Module) (b : Builder) (slots : Scopes Variable) (σ : State) (s : Machine) :
    Prop where
  place : s.place = b.position
  sound : m.Sound s
  holds : Holds (content? m s) slots σ.scopes
  trace : s.trace = σ.trace

theorem Builder.length_modify_add {b : Builder} {c : Nat} (hc : c < b.blocks.length) (i : Instr)
    (k : Nat) : Builder.length { b with blocks := b.blocks.modify c (Block.add i) } k =
      b.length k + if c = k then 1 else 0 := by
  simp only [Builder.length, getElem?_modify_block]
  cases hk : b.blocks[k]? with
  | none =>
    have hne : c ≠ k := by
      rintro rfl
      rw [List.getElem?_eq_getElem hc] at hk
      cases hk
    simp [hne]
  | some x =>
    by_cases hck : c = k
    · simp [hck, Block.add]
    · simp [hck]

/-- An instruction is found where it has been added. -/
theorem instr?_of_add {m : Module} {b : Builder} {c : Nat} (hc : c < b.blocks.length) {i : Instr}
    (hext : Extends ⟨b.texts, b.blocks.modify c (Block.add i)⟩ m) :
    m.instr? ⟨c, b.length c⟩ = some i := by
  have hx := List.getElem?_eq_getElem hc
  have hadded : (b.blocks.modify c (Block.add i))[c]? = some (Block.add i (b.blocks[c])) := by
    rw [getElem?_modify_block, hx]
    simp
  obtain ⟨y, hy, more, hmore⟩ := hext.isPrefix hadded
  simp only [Module.instr?, hy, Option.bind_some, ← hmore, Block.add, Builder.length, hx,
    Option.map_some, Option.getD_some, List.append_assoc]
  simp

/-- The block that is being filled has an instruction more. -/
structure Adds (b : Builder) (i : Instr) (b' : Builder) : Prop where
  position : b'.position = b.position.next
  contains : b.position.index < b'.length b.position.block
  found : ∀ m, Extends b'.module m → m.instr? b.position = some i

theorem perform_adds {b b' : Builder} (hopen : b.IsOpen) {i : Instr} {u : Unit}
    (h : perform i b = .ok (u, b')) : Adds b i b' := by
  cases h
  have hlength := Builder.length_modify_add hopen.current_lt i b.current
  rw [if_pos rfl] at hlength
  refine ⟨?_, ?_, fun m hext => instr?_of_add hopen.current_lt hext⟩
  · simp only [Builder.position, Place.next, hlength]
  · simp only [Builder.position, hlength]
    omega

theorem emit_adds {b b' : Builder} (hopen : b.IsOpen) {i : Instr} {type : ValueType} {v : Operand}
    (h : emit i type b = .ok (v, b')) : Adds b i b' ∧ v = .result b.position type := by
  cases h
  exact ⟨perform_adds hopen rfl, rfl⟩

section

variable {m : Module} {env : Environment} {slots : Scopes Variable} {σ : State} {b b' : Builder}
  {s : Machine}

/-- Code that adds no instruction changes nothing. -/
theorem Ready.moved (h : Ready m b slots σ s) (hposition : b'.position = b.position) :
    Ready m b' slots σ s :=
  ⟨h.place.trans hposition.symm, h.sound, h.holds, h.trace⟩

theorem Keeps.yield (hplace : s.place = b.position) (r : Register) : Keeps b s (s.yield r) := by
  intro p hp
  simp only [Machine.yield]
  rw [if_neg]
  rintro rfl
  rw [hplace] at hp
  exact Nat.lt_irrefl _ hp

/-- Executing an instruction whose result is a value. -/
theorem Ready.yield (h : Ready m b slots σ s) (hnamed : Named env slots b) {i : Instr}
    (hadds : Adds b i b') (hext : Extends b'.module m) {x : Value}
    (hexec : i.exec m s = some (s.yield (.value x))) :
    m.step s = some (s.yield (.value x)) ∧ Ready m b' slots σ (s.yield (.value x)) := by
  have hstep : m.step s = some (s.yield (.value x)) := by
    rw [Module.step_of_instr (h.place ▸ hadds.found m hext), hexec]
  refine ⟨hstep, ?_, h.sound.step hstep, ?_, h.trace⟩
  · rw [hadds.position, ← h.place]
    rfl
  · exact h.holds.grow hnamed (.yield h.place _) (List.prefix_refl _)

end

end Lowering

end Binisaya
