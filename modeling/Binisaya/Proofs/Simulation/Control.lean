import Binisaya.Proofs.Simulation.Expr

/-!
# From block to block

What happens where the code of a statement leaves a block.  The entry may have slots behind the code
that was there when it was left; the machine reserves them on its way out.  A condition leads to one
of two blocks, and a loop comes back to its condition after every round.
-/

namespace Binisaya

open Llvm Lowering

namespace Lowering

variable {m : Module} {env : Environment} {slots : Scopes Variable} {σ : State} {b b' : Builder}
  {s : Machine} {rounds : Nat}

/-! ### Leaving a block -/

/-- Reserving the slots at the end of a block changes nothing before them. -/
theorem drain {block : Nat} {x : Block} (hx : m.blocks[block]? = some x) (more : List Instr) :
    ∀ {front : List Instr} {s : Machine}, x.instrs = front ++ more →
      (∀ i ∈ more, i.isAlloca = true) → s.place = ⟨block, front.length⟩ →
      ∃ n t, m.stepN n s = some t ∧ t.place = ⟨block, x.instrs.length⟩ ∧
        (∀ p, p.block ≠ block ∨ p.index < front.length → t.results p = s.results p) ∧
        s.memory <+: t.memory ∧ t.trace = s.trace := by
  induction more with
  | nil =>
    intro front s hinstrs _ hplace
    rw [List.append_nil] at hinstrs
    exact ⟨0, s, rfl, hinstrs ▸ hplace, fun _ _ => rfl, List.prefix_refl _, rfl⟩
  | cons i more ih =>
    intro front s hinstrs hslots hplace
    obtain ⟨type, rfl⟩ : ∃ type, i = .alloca type := by
      have hi := hslots i (by simp)
      cases i <;> simp [Instr.isAlloca] at hi ⊢
    have hinstr : m.instr? s.place = some (.alloca type) := by
      rw [hplace, Module.instr?, hx, Option.bind_some, hinstrs]
      simp
    have hstep := (m.stepN_one s).trans (Module.step_of_instr hinstr)
    obtain ⟨n, t, hrun, hplace', hresults, hmemory, htrace⟩ :=
      @ih (front ++ [.alloca type])
        ({ s with memory := s.memory ++ [none] }.yield (.address s.memory.length))
        (by rw [hinstrs]; simp) (fun j hj => hslots j (by simp [hj]))
        (by simp [Machine.yield, hplace, Place.next])
    refine ⟨1 + n, t, Module.stepN_trans hstep hrun, hplace', ?_, ?_, htrace⟩
    · intro p hp
      have hne : p ≠ s.place := by
        rintro rfl
        rw [hplace] at hp
        simp at hp
      rw [hresults p (by simp; omega)]
      simp [Machine.yield, hne]
    · exact (List.prefix_append _ _).trans hmemory

/-- The machine comes to the end of the block that was being filled. -/
theorem Ready.reachesEnd (h : Ready m b slots σ s) (hnamed : Named env slots b) {e : Terminator}
    (hends : Ends b e b') (hext : Extends b'.module m) :
    ∃ n t, m.stepN n s = some t ∧ m.end? t.place = some e ∧ Keeps b s t ∧
      Holds (content? m t) slots σ.scopes ∧ t.trace = σ.trace := by
  obtain ⟨x, hx, hx'⟩ := hends
  obtain ⟨y, hy, ⟨hend, more, hmore, hslots⟩ | ⟨hopen, -⟩⟩ := hext.blocks _ _ hx'
  · have hlength : b.length b.current = x.instrs.length := by
      rw [Builder.length, hx]
      rfl
    obtain ⟨n, t, hrun, hplace, hresults, hmemory, htrace⟩ :=
      drain hy more hmore (fun i hi => (hslots i hi).2)
        (by rw [h.place, Builder.position, hlength])
    have hkeeps : Keeps b s t := by
      intro p hp
      refine hresults p ?_
      by_cases hblock : p.block = b.current
      · rw [hblock, hlength] at hp
        exact .inr hp
      · exact .inl hblock
    refine ⟨n, t, hrun, ?_, hkeeps, h.holds.grow hnamed hkeeps hmemory, htrace.trans h.trace⟩
    rw [hplace, Module.end?, hy, Option.bind_some, if_pos rfl, hend]
  · cases hopen

/-- An empty block begins where its first instruction is to be added. -/
theorem Builder.IsEmpty.position {i : Nat} (h : b.IsEmpty i) (hcurrent : b.current = i) :
    b.position = ⟨i, 0⟩ := by
  obtain ⟨x, hx, hinstrs, -⟩ := h
  simp [Builder.position, Builder.length, hcurrent, hx, hinstrs]

/-- The end of a block leads on to a block that is to be filled next. -/
theorem Ready.leave (h : Ready m b slots σ s) (hnamed : Named env slots b) {e : Terminator}
    (hends : Ends b e b') (hext : Extends b'.module m) {next : Builder} {target : Nat}
    (htarget : ∀ t, Keeps b s t → m.leave t e = some (t.goto target))
    (hposition : next.position = ⟨target, 0⟩) :
    ∃ n t, 0 < n ∧ m.stepN n s = some t ∧ Ready m next slots σ t := by
  obtain ⟨n, t, hrun, hend, hkeeps, hholds, htrace⟩ := h.reachesEnd hnamed hends hext
  have hleave : m.stepN 1 t = some (t.goto target) := by
    rw [Module.stepN_one, Module.step_of_end hend, htarget t hkeeps]
  have hsound := h.sound.stepN (Module.stepN_trans hrun hleave)
  exact ⟨n + 1, t.goto target, Nat.succ_pos n, Module.stepN_trans hrun hleave, hposition.symm,
    hsound, hholds, htrace⟩

theorem Ready.jump (h : Ready m b slots σ s) (hnamed : Named env slots b) {target : Nat}
    (hends : Ends b (.jump target) b') (hext : Extends b'.module m) {next : Builder}
    (hposition : next.position = ⟨target, 0⟩) :
    ∃ n t, 0 < n ∧ m.stepN n s = some t ∧ Ready m next slots σ t :=
  h.leave hnamed hends hext (fun _ _ => rfl) hposition

theorem Gives.branch {start : Builder} {s₀ : Machine} {v : Operand} {passed : Bool}
    (h : Gives m start b slots s₀ v (.bool passed) σ s) (hnamed : Named env slots b)
    {whenTrue whenFalse : Nat} (hends : Ends b (.branch v whenTrue whenFalse) b')
    (hext : Extends b'.module m) {next : Builder}
    (hposition : next.position = ⟨if passed then whenTrue else whenFalse, 0⟩) :
    ∃ n t, m.stepN n s = some t ∧ Ready m next slots σ t := by
  have htarget : ∀ t, Keeps b s t → m.leave t (.branch v whenTrue whenFalse) =
      some (t.goto (if passed then whenTrue else whenFalse)) := by
    intro t hkeeps
    rw [Module.leave, h.settled.value?_eq hkeeps, h.value]
  obtain ⟨n, t, -, hrun, hready⟩ := h.ready.leave hnamed hends hext htarget hposition
  exact ⟨n, t, hrun, hready⟩

/-! ### Conditions -/

/-- The code of a condition decides it. -/
theorem Computes.test {condition : Expr} (h : Computes m rounds env slots condition .bool)
    (hfill : Filling env slots b) {v : Typed} (hlower : condition.lower env b = .ok (v, b'))
    (hext : Extends b'.module m) (hready : Ready m b slots σ s) :
    Simulates m rounds s (condition.test σ)
      fun passed σ' t => Gives m b b' slots s v.operand (.bool passed) σ' t := by
  rw [Expr.test, isAbsent_of_lower hlower, if_neg (by simp)]
  refine (h hfill hlower hext hready).bind fun x σ' t ⟨hgives, hx⟩ => ?_
  cases x <;> cases hx
  exact .pure hgives

/-- A condition leads to the block where it holds or to the other one. -/
theorem Tests.simulates {condition : Expr} {whenFalse : Nat}
    (h : Tests env condition whenFalse b b') (hfill : Filling env slots b)
    (hcomputes : condition.isAbsent = false → Computes m rounds env slots condition .bool)
    (hext : Extends b'.module m) (hempty : b'.IsEmpty b'.current) {next : Builder}
    (hnext : next.position = ⟨whenFalse, 0⟩) (hready : Ready m b slots σ s) :
    Simulates m rounds s (condition.test σ) fun passed σ' t =>
      Ready m (if passed then b' else next) slots σ' t := by
  have hposition := hempty.position rfl
  rcases h with ⟨habsent, hleaves⟩ | ⟨hpresent, v, mid, hlower, hleaves⟩
  · obtain ⟨n, t, -, hrun, hready'⟩ := hready.jump hfill.named hleaves.ends hext hposition
    rw [Expr.test, if_pos habsent]
    exact .after hrun (.pure hready')
  · obtain ⟨hfill', -⟩ := hfill.next (lower_straight env condition) hlower
    have hext' := hleaves.extend.trans hext
    -- decide the condition, then take the branch
    refine Simulates.extend ((hcomputes hpresent).test hfill hlower hext' hready)
      fun passed σ' t hgives => ?_
    refine hgives.branch hfill'.named hleaves.ends hext ?_
    cases passed
    · exact hnext
    · exact hposition

end Lowering

/-! ### Loops -/

/-- A loop shows in a machine if its test and its rounds do, where every round takes a step at
least. -/
theorem Simulates.repeatWhile {m : Module} {rounds : Nat} {test : Exec Bool} {round : Exec Unit}
    {start body after : State → Machine → Prop}
    (htest : ∀ σ s, start σ s → Simulates m rounds s (test σ) fun passed σ' t =>
      if passed then body σ' t else after σ' t)
    (hround : ∀ σ s, body σ s → Simulates m rounds s (round σ) fun _ σ' t =>
      ∃ n u, 0 < n ∧ m.stepN n t = some u ∧ start σ' u) :
    ∀ k ≤ rounds, ∀ σ s, start σ s →
      Simulates m k s (Exec.repeatWhile test round k σ) fun _ σ' t => after σ' t := by
  intro k
  induction k with
  | zero => exact fun _ _ s _ => ⟨0, s, Nat.le_refl 0, rfl⟩
  | succ k ih =>
    intro hk σ s hstart
    rw [Exec.repeatWhile]
    refine ((htest σ s hstart).fewer hk).bind fun passed σ' t hpassed => ?_
    cases passed with
    | false => exact .pure hpassed
    | true =>
      refine ((hround σ' t hpassed).fewer hk).bind fun _ σ'' u ⟨n, w, hn, hrun, hagain⟩ => ?_
      exact ((ih (by omega) σ'' w hagain).later hrun).fewer (by omega)

end Binisaya
