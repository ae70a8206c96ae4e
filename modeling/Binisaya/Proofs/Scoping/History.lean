import Binisaya.Proofs.Scoping
import Binisaya.Proofs.Text.Encoding
import Binisaya.Typing.Ty
import Mathlib.Data.List.Induction
import Mathlib.Data.String.Basic

/-!
# Scopes as a record of what was done

Blocks are opened and closed and names are declared in them.  `Declares` says of an action in such a
history that it bound a name in a block which is still open behind the history; blocks are told
apart by their level, which is counted from the opening and closing actions alone.  Main statement:
the scopes behind a history answer as the history says, also where declarations were refused and
where the last block was asked to close.
-/

namespace Binisaya

/-- What can be done to scopes. -/
inductive ScopeAction (α : Type) where
  | push
  | pop
  | declare (name : String) (value : α)
  | lookup (name : String)
  deriving DecidableEq, Repr

namespace ScopeAction

variable {α : Type}

/-- The scopes behind an action.  A declaration that is refused changes nothing. -/
def apply (s : Scopes α) : ScopeAction α → Scopes α
  | push => s.push
  | pop => s.pop
  | declare name value => (s.declare? name value).getD s
  | lookup _ => s

/-- Whether an action opens a block. -/
def isPush : ScopeAction α → Bool
  | push => true
  | _ => false

/-- Whether an action closes a block. -/
def isPop : ScopeAction α → Bool
  | pop => true
  | _ => false

/-- The number of open blocks behind an action, where there are `level` in front of it.  The last
block stays open. -/
def levelAfter (level : Nat) : ScopeAction α → Nat
  | push => level + 1
  | pop => max (level - 1) 1
  | declare _ _ => level
  | lookup _ => level

end ScopeAction

namespace Scopes

variable {α : Type}

/-- The scopes behind a sequence of actions. -/
def after (actions : List (ScopeAction α)) : Scopes α := actions.foldl ScopeAction.apply .initial

/-- What a question for the type of a name is answered with, and whether the name has one. -/
def typeOf (s : Scopes Ty) (name : String) : Ty × Bool :=
  ((s.lookup name).getD .unknown, (s.lookup name).isSome)

end Scopes

variable {α : Type}

/-- The number of open blocks behind a sequence of actions, which is the level of the innermost. -/
def openLevel (actions : List (ScopeAction α)) : Nat := actions.foldl ScopeAction.levelAfter 1

/-- The `i`-th action has declared a name in the block of the given level, with success, and that
block has been open ever since. -/
structure Declares (actions : List (ScopeAction α)) (i : Nat) (name : String) (value : α)
    (level : Nat) : Prop where
  action : actions[i]? = some (.declare name value)
  accepted : ((Scopes.after (actions.take i)).declare? name value).isSome
  level_eq : openLevel (actions.take i) = level
  stillOpen : ∀ j, i ≤ j → j ≤ actions.length → level ≤ openLevel (actions.take j)

/-- As many blocks are closed as are opened, and never more than have been opened. -/
def Balanced (actions : List (ScopeAction α)) : Prop :=
  actions.countP ScopeAction.isPop = actions.countP ScopeAction.isPush ∧
    ∀ k ≤ actions.length,
      (actions.take k).countP ScopeAction.isPop ≤ (actions.take k).countP ScopeAction.isPush

instance (actions : List (ScopeAction α)) : Decidable (Balanced actions) :=
  inferInstanceAs (Decidable (_ ∧ _))

/-! ### Levels -/

/-- The frame of the block with the given level, where the innermost frame stands first. -/
def frameAt : List (Frame α) → Nat → Frame α
  | [], _ => .empty
  | frame :: frames, level => if level = frames.length + 1 then frame else frameAt frames level

theorem openLevel_concat (actions : List (ScopeAction α)) (a : ScopeAction α) :
    openLevel (actions ++ [a]) = a.levelAfter (openLevel actions) := by
  simp [openLevel]

namespace Scopes

theorem after_concat (actions : List (ScopeAction α)) (a : ScopeAction α) :
    after (actions ++ [a]) = a.apply (after actions) := by
  simp [after]

theorem declare?_eq_none_iff {s : Scopes α} {name : String} {value : α} :
    s.declare? name value = none ↔ (s.innermost.get? name).isSome := by
  unfold declare? Frame.binds
  split <;> simp_all

/-- One action changes the number of open blocks as its kind says. -/
theorem depth_apply (s : Scopes α) (a : ScopeAction α) :
    (a.apply s).depth = a.levelAfter s.depth := by
  obtain ⟨frame, frames⟩ := s
  cases a with
  | push => simp [ScopeAction.apply, ScopeAction.levelAfter, depth, Scopes.frames, push]
  | pop =>
    cases frames with
    | nil => simp [ScopeAction.apply, ScopeAction.levelAfter, depth, Scopes.frames, pop]
    | cons next frames =>
      simp [ScopeAction.apply, ScopeAction.levelAfter, depth, Scopes.frames, pop]
  | declare name value =>
    simp only [ScopeAction.apply, ScopeAction.levelAfter, declare?]
    split <;> simp [depth, Scopes.frames, bind]
  | lookup name => rfl

theorem depth_after (actions : List (ScopeAction α)) :
    (after actions).depth = openLevel actions := by
  induction actions using List.reverseRecOn with
  | nil => rfl
  | append_singleton actions a ih => rw [after_concat, depth_apply, ih, openLevel_concat]

end Scopes

theorem frameAt_of_length_lt {frames : List (Frame α)} {level : Nat} (h : frames.length < level) :
    frameAt frames level = .empty := by
  induction frames with
  | nil => rfl
  | cons frame frames ih =>
    rw [List.length_cons] at h
    rw [frameAt, if_neg (by omega), ih (by omega)]

/-! ### One action -/

/-- Opening, closing and looking up leave the frames of the blocks that stay open as they are, and
a new frame is empty. -/
theorem Scopes.frameAt_apply (s : Scopes α) {a : ScopeAction α}
    (h : ∀ name value, a ≠ .declare name value) (level : Nat) :
    frameAt (a.apply s).frames level =
      if level ≤ (a.apply s).depth then frameAt s.frames level else .empty := by
  by_cases hlevel : level ≤ (a.apply s).depth
  · rw [if_pos hlevel]
    obtain ⟨frame, frames⟩ := s
    cases a with
    | push =>
      simp only [ScopeAction.apply, push, depth, Scopes.frames, frameAt, List.length_cons]
        at hlevel ⊢
      split
      · next htop => rw [if_neg (by omega), frameAt_of_length_lt (by omega)]
      · rfl
    | pop =>
      cases frames with
      | nil => rfl
      | cons next frames =>
        simp only [ScopeAction.apply, pop, depth, Scopes.frames, List.length_cons] at hlevel ⊢
        rw [frameAt, frameAt.eq_def (frame :: _)]
        simp only [List.length_cons]
        rw [if_neg (show level ≠ frames.length + 1 + 1 by omega), frameAt]
    | declare name value => exact absurd rfl (h name value)
    | lookup name => rfl
  · rw [if_neg hlevel, frameAt_of_length_lt (by simpa [depth] using hlevel)]

theorem level_le_of_get? {frames : List (Frame α)} {level : Nat} {name : String} {value : α}
    (h : (frameAt frames level).get? name = some value) : level ≤ frames.length := by
  by_contra hlevel
  rw [frameAt_of_length_lt (Nat.lt_of_not_le hlevel), Frame.get?_empty] at h
  cases h

/-- A new binding is one of the innermost block. -/
theorem Scopes.get?_frameAt_bind (s : Scopes α) {other : String}
    (hfree : s.innermost.get? other = none) (given : α) (level : Nat) (name : String) (value : α) :
    (frameAt (s.bind other given).frames level).get? name = some value ↔
      (frameAt s.frames level).get? name = some value ∨
        ((other = name ∧ given = value) ∧ level = s.depth) := by
  by_cases hlevel : level = s.depth
  · have hnew : frameAt (s.bind other given).frames level = s.innermost.add other given :=
      if_pos hlevel
    have hold : frameAt s.frames level = s.innermost := if_pos hlevel
    rw [hnew, hold, Frame.get?_add]
    by_cases hname : name = other
    · subst hname
      simp [hfree, hlevel]
    · simp [hname, Ne.symm hname]
  · have hnew : frameAt (s.bind other given).frames level = frameAt s.outer level := if_neg hlevel
    have hold : frameAt s.frames level = frameAt s.outer level := if_neg hlevel
    rw [hnew, hold]
    simp [hlevel]

/-- A name is bound in a block behind an action if it was bound there before and the block stays
open, or if the action declares it there. -/
theorem Scopes.get?_frameAt_apply (s : Scopes α) (a : ScopeAction α) (level : Nat) (name : String)
    (value : α) :
    (frameAt (a.apply s).frames level).get? name = some value ↔
      ((frameAt s.frames level).get? name = some value ∧ level ≤ (a.apply s).depth) ∨
      (a = .declare name value ∧ (s.declare? name value).isSome ∧ level = s.depth) := by
  cases a with
  | declare other given =>
    have hopen : (frameAt s.frames level).get? name = some value → level ≤ s.depth :=
      level_le_of_get?
    rw [Scopes.depth_apply, ScopeAction.levelAfter, and_iff_left_of_imp hopen]
    cases hget : s.innermost.get? other with
    | some bound =>
      have hrefused : ∀ v, s.declare? other v = none := fun v => by
        rw [declare?_eq_none_iff, hget, Option.isSome_some]
      rw [ScopeAction.apply, hrefused, Option.getD_none, iff_self_or]
      rintro ⟨hdeclare, hsome, -⟩
      cases hdeclare
      rw [hrefused] at hsome
      cases hsome
    | none =>
      have haccepted : ∀ v, s.declare? other v = some (s.bind other v) := fun v => by
        rw [declare?, if_neg (by simp [Frame.binds, hget])]
      rw [ScopeAction.apply, haccepted, Option.getD_some, Scopes.get?_frameAt_bind s hget]
      refine or_congr_right ⟨?_, ?_⟩
      · rintro ⟨⟨rfl, rfl⟩, hlevel⟩
        exact ⟨rfl, by rw [haccepted, Option.isSome_some], hlevel⟩
      · rintro ⟨hdeclare, -, hlevel⟩
        cases hdeclare
        exact ⟨⟨rfl, rfl⟩, hlevel⟩
  | push | pop | lookup other =>
    rw [Scopes.frameAt_apply s (by simp)]
    split <;> simp_all

/-! ### Histories -/

/-- What an action has declared is declared behind one action more, unless that closes the block;
and the last action may declare something itself. -/
theorem declares_concat_iff {actions : List (ScopeAction α)} {a : ScopeAction α} {i : Nat}
    {name : String} {value : α} {level : Nat} :
    Declares (actions ++ [a]) i name value level ↔
      (Declares actions i name value level ∧ level ≤ openLevel (actions ++ [a])) ∨
      (i = actions.length ∧ a = .declare name value ∧
        ((Scopes.after actions).declare? name value).isSome ∧ level = openLevel actions) := by
  have htake : ∀ j ≤ actions.length, (actions ++ [a]).take j = actions.take j := fun j hj =>
    List.take_append_of_le_length hj
  have hall : (actions ++ [a]).take (actions.length + 1) = actions ++ [a] :=
    List.take_of_length_le (by simp)
  constructor
  · rintro ⟨haction, haccepted, hlevel, hopen⟩
    by_cases hi : i < actions.length
    · left
      rw [htake i (by omega)] at haccepted hlevel
      rw [List.getElem?_append_left hi] at haction
      refine ⟨⟨haction, haccepted, hlevel, ?_⟩, ?_⟩
      · intro j hij hj
        have hstill := hopen j hij (by simp; omega)
        rwa [htake j hj] at hstill
      · have hstill := hopen (actions.length + 1) (by omega) (by simp)
        rwa [hall] at hstill
    · right
      obtain ⟨hlength, -⟩ := List.getElem?_eq_some_iff.mp haction
      obtain rfl : i = actions.length := by
        rw [List.length_append, List.length_singleton] at hlength
        omega
      rw [htake _ (Nat.le_refl _), List.take_length] at haccepted hlevel
      refine ⟨rfl, ?_, haccepted, hlevel.symm⟩
      simpa using haction
  · rintro (⟨⟨haction, haccepted, hlevel, hopen⟩, hlast⟩ | ⟨rfl, rfl, haccepted, rfl⟩)
    · obtain ⟨hi, -⟩ := List.getElem?_eq_some_iff.mp haction
      refine ⟨by rwa [List.getElem?_append_left hi], by rwa [htake i (by omega)],
        by rwa [htake i (by omega)], ?_⟩
      intro j hij hj
      rw [List.length_append, List.length_singleton] at hj
      rcases Nat.lt_or_eq_of_le hj with hj | rfl
      · rw [htake j (by omega)]
        exact hopen j hij (by omega)
      · rwa [hall]
    · refine ⟨by simp, by rwa [htake _ (Nat.le_refl _), List.take_length],
        by rw [htake _ (Nat.le_refl _), List.take_length], ?_⟩
      intro j hij hj
      rw [List.length_append, List.length_singleton] at hj
      rcases Nat.lt_or_eq_of_le hj with hj | rfl
      · obtain rfl : j = actions.length := by omega
        rw [htake _ (Nat.le_refl _), List.take_length]
      · rw [hall, openLevel_concat, ScopeAction.levelAfter]

/-- The frames behind a history hold what the history has declared in blocks still open. -/
theorem Scopes.get?_frameAt_after (actions : List (ScopeAction α)) (level : Nat) (name : String)
    (value : α) :
    (frameAt (after actions).frames level).get? name = some value ↔
      ∃ i, Declares actions i name value level := by
  induction actions using List.reverseRecOn with
  | nil =>
    constructor
    · intro h
      have hempty : frameAt (after ([] : List (ScopeAction α))).frames level = .empty := by
        simp [after, initial, Scopes.frames, frameAt]
      rw [hempty] at h
      cases h
    · rintro ⟨i, h⟩
      simpa using h.action
  | append_singleton actions a ih =>
    rw [after_concat, get?_frameAt_apply, ih, depth_apply, depth_after, ← openLevel_concat]
    simp only [declares_concat_iff, exists_or, exists_and_right, exists_eq, true_and]

theorem Scopes.frameAt_depth (s : Scopes α) : frameAt s.frames s.depth = s.innermost := if_pos rfl

/-- A declaration is refused if the innermost block has one of that name. -/
theorem Scopes.declare?_after_eq_none_iff (actions : List (ScopeAction α)) (name : String)
    (value : α) :
    (after actions).declare? name value = none ↔
      ∃ i bound, Declares actions i name bound (openLevel actions) := by
  rw [declare?_eq_none_iff, ← frameAt_depth, depth_after, Option.isSome_iff_exists, exists_comm]
  simp only [get?_frameAt_after]

/-- What was declared is declared at every moment since. -/
theorem Declares.take {actions : List (ScopeAction α)} {i j : Nat} {name : String} {value : α}
    {level : Nat} (h : Declares actions i name value level) (hij : i < j)
    (hj : j ≤ actions.length) : Declares (actions.take j) i name value level := by
  have htake : ∀ k ≤ j, (actions.take j).take k = actions.take k := fun k hk => by
    rw [List.take_take, Nat.min_eq_left hk]
  refine ⟨?_, ?_, ?_, ?_⟩
  · rw [List.getElem?_take_of_lt hij]
    exact h.action
  · rw [htake i (Nat.le_of_lt hij)]
    exact h.accepted
  · rw [htake i (Nat.le_of_lt hij)]
    exact h.level_eq
  · intro k hik hk
    rw [List.length_take] at hk
    rw [htake k (by omega)]
    exact h.stillOpen k hik (by omega)

/-- A name is declared at most once in a block. -/
theorem Declares.not_lt {actions : List (ScopeAction α)} {i j : Nat} {name : String}
    {value other : α} {level : Nat} (hi : Declares actions i name value level)
    (hj : Declares actions j name other level) : ¬ j < i := by
  intro hlt
  obtain ⟨hlength, -⟩ := List.getElem?_eq_some_iff.mp hi.action
  have hbefore := hj.take hlt (Nat.le_of_lt hlength)
  rw [← hi.level_eq] at hbefore
  have hrefused := (Scopes.declare?_after_eq_none_iff _ name value).mpr ⟨j, other, hbefore⟩
  have haccepted := hi.accepted
  rw [hrefused] at haccepted
  cases haccepted

/-- A frame that says nothing about a name leaves the name to the others. -/
theorem get?_frameAt_cons_of_none {frame : Frame α} {name : String} (h : frame.get? name = none)
    (frames : List (Frame α)) (level : Nat) :
    (frameAt (frame :: frames) level).get? name = (frameAt frames level).get? name := by
  rw [frameAt]
  split
  · rw [h, frameAt_of_length_lt (by omega), Frame.get?_empty]
  · rfl

/-- Looking up finds the binding in the innermost block that has one. -/
theorem findSome?_get?_eq_some_iff (frames : List (Frame α)) (name : String) (value : α) :
    frames.findSome? (·.get? name) = some value ↔
      ∃ level, (frameAt frames level).get? name = some value ∧
        ∀ level' bound, (frameAt frames level').get? name = some bound → level' ≤ level := by
  induction frames with
  | nil => simp [frameAt]
  | cons frame frames ih =>
    rw [List.findSome?_cons]
    cases hget : frame.get? name with
    | some bound =>
      have htop : frameAt (frame :: frames) (frames.length + 1) = frame := if_pos rfl
      constructor
      · rintro ⟨⟩
        exact ⟨frames.length + 1, by rw [htop, hget], fun _ _ h => level_le_of_get? h⟩
      · rintro ⟨level, hlevel, hmax⟩
        have hge := hmax (frames.length + 1) bound (by rw [htop, hget])
        have hle := level_le_of_get? hlevel
        rw [List.length_cons] at hle
        obtain rfl : level = frames.length + 1 := by omega
        rwa [htop, hget] at hlevel
    | none =>
      simp only [get?_frameAt_cons_of_none hget]
      exact ih

theorem findSome?_get?_eq_none_iff (frames : List (Frame α)) (name : String) :
    frames.findSome? (·.get? name) = none ↔ ∀ level, (frameAt frames level).get? name = none := by
  induction frames with
  | nil => simp [frameAt]
  | cons frame frames ih =>
    rw [List.findSome?_cons]
    cases hget : frame.get? name with
    | some bound =>
      have htop : frameAt (frame :: frames) (frames.length + 1) = frame := if_pos rfl
      refine iff_of_false (by simp) fun h => ?_
      rw [← htop, h] at hget
      cases hget
    | none =>
      simp only [get?_frameAt_cons_of_none hget]
      exact ih

/-- A name means what has been declared in the innermost block that declares it. -/
theorem Scopes.lookup_after_eq_some_iff (actions : List (ScopeAction α)) (name : String)
    (value : α) :
    (after actions).lookup name = some value ↔
      ∃ i level, Declares actions i name value level ∧
        ∀ j bound level', Declares actions j name bound level' → level' ≤ level := by
  unfold lookup
  rw [findSome?_get?_eq_some_iff, exists_comm]
  simp only [get?_frameAt_after, exists_and_right, forall_exists_index]
  refine exists_congr fun level => and_congr_right fun _ => ?_
  constructor
  · exact fun h j bound level' hj => h level' bound j hj
  · exact fun h level' bound j hj => h j bound level' hj

theorem Scopes.lookup_after_eq_none_iff (actions : List (ScopeAction α)) (name : String) :
    (after actions).lookup name = none ↔
      ∀ i value level, ¬ Declares actions i name value level := by
  unfold lookup
  rw [findSome?_get?_eq_none_iff]
  simp only [Option.eq_none_iff_forall_ne_some, ne_eq, get?_frameAt_after, not_exists]
  exact ⟨fun h i value level => h level value i, fun h level value i => h i value level⟩

/-! ### Balanced stretches -/

/-- An action leaves alone the frames of the blocks around one that stays open. -/
theorem Scopes.frames_apply {s : Scopes α} {inner base : List (Frame α)}
    (hs : s.frames = inner ++ base) (a : ScopeAction α)
    (hopen : [a].countP ScopeAction.isPop < inner.length) :
    ∃ inner', (a.apply s).frames = inner' ++ base ∧
      inner'.length + [a].countP ScopeAction.isPop =
        inner.length + [a].countP ScopeAction.isPush := by
  obtain ⟨frame, frames, rfl⟩ := List.exists_cons_of_length_pos (Nat.zero_lt_of_lt hopen)
  obtain ⟨rfl, houter⟩ := List.cons_eq_cons.mp hs
  cases a with
  | push => exact ⟨.empty :: s.innermost :: frames, congrArg (Frame.empty :: ·) hs, rfl⟩
  | pop =>
    obtain ⟨next, others, rfl⟩ : ∃ next others, frames = next :: others :=
      List.exists_cons_of_length_pos (by simpa [ScopeAction.isPop] using hopen)
    refine ⟨next :: others, ?_, rfl⟩
    rw [ScopeAction.apply, pop, houter]
    rfl
  | declare name value =>
    rw [ScopeAction.apply, declare?]
    split
    · exact ⟨s.innermost :: frames, hs, rfl⟩
    · exact ⟨s.innermost.add name value :: frames, congrArg (_ :: ·) houter, rfl⟩
  | lookup name => exact ⟨s.innermost :: frames, hs, rfl⟩

theorem Scopes.frames_foldl {s : Scopes α} {inner base : List (Frame α)}
    (hs : s.frames = inner ++ base) (stretch : List (ScopeAction α))
    (hopen : ∀ k ≤ stretch.length, (stretch.take k).countP ScopeAction.isPop <
      inner.length + (stretch.take k).countP ScopeAction.isPush) :
    ∃ inner', (stretch.foldl ScopeAction.apply s).frames = inner' ++ base ∧
      inner'.length + stretch.countP ScopeAction.isPop =
        inner.length + stretch.countP ScopeAction.isPush := by
  induction stretch generalizing s inner with
  | nil => exact ⟨inner, hs, rfl⟩
  | cons a stretch ih =>
    have hsplit : ∀ (p : ScopeAction α → Bool) (l : List (ScopeAction α)),
        (a :: l).countP p = [a].countP p + l.countP p := fun p l => by
      rw [← List.countP_append, List.singleton_append]
    have hstays : [a].countP ScopeAction.isPop < inner.length := by
      have hzero : 0 < inner.length := by simpa using hopen 0 (Nat.zero_le _)
      have hone := hopen 1 (by simp)
      cases a <;> simp_all [ScopeAction.isPop, ScopeAction.isPush]
    obtain ⟨inner', hs', hlength⟩ := frames_apply hs a hstays
    have hrest : ∀ k ≤ stretch.length, (stretch.take k).countP ScopeAction.isPop <
        inner'.length + (stretch.take k).countP ScopeAction.isPush := by
      intro k hk
      have hk := hopen (k + 1) (Nat.succ_le_succ hk)
      rw [List.take_succ_cons, hsplit _ (stretch.take k), hsplit _ (stretch.take k)] at hk
      omega
    obtain ⟨inner'', hs'', hlength'⟩ := ih hs' hrest
    refine ⟨inner'', hs'', ?_⟩
    rw [hsplit _ stretch, hsplit _ stretch]
    omega

/-- Behind a block that has been opened, filled and closed, the scopes are as before. -/
theorem Scopes.after_enclosed (actions : List (ScopeAction α)) {stretch : List (ScopeAction α)}
    (h : Balanced stretch) : after (actions ++ .push :: stretch ++ [.pop]) = after actions := by
  have hpush : (after actions).push.frames = [.empty] ++ (after actions).frames := rfl
  obtain ⟨inner, hframes, hlength⟩ := frames_foldl hpush stretch fun k hk => by
    have hk := h.2 k hk
    rw [List.length_singleton]
    omega
  obtain ⟨frame, rfl⟩ := List.length_eq_one_iff.mp (show inner.length = 1 by
    have hsame := h.1
    rw [List.length_singleton] at hlength
    omega)
  rw [after_concat]
  refine pop_of_outer ?_
  have hafter : after (actions ++ .push :: stretch) =
      stretch.foldl ScopeAction.apply (after actions).push := by
    rw [after, List.foldl_append, List.foldl_cons]
    rfl
  rw [hafter]
  exact (List.cons_eq_cons.mp hframes).2

/-! ### Names that mean something -/

theorem mem_insertName {name other : String} {names : List String} :
    other ∈ insertName name names ↔ other = name ∨ other ∈ names := by
  induction names with
  | nil => simp [insertName]
  | cons n ns ih =>
    unfold insertName
    split_ifs with heq hlt
    · subst heq
      simp
    · simp
    · rw [List.mem_cons, ih, List.mem_cons]
      tauto

theorem pairwise_insertName {names : List String} (name : String) (h : names.Pairwise (· < ·)) :
    (insertName name names).Pairwise (· < ·) := by
  induction names with
  | nil => simp [insertName]
  | cons n ns ih =>
    obtain ⟨hn, hns⟩ := List.pairwise_cons.mp h
    unfold insertName
    split_ifs with heq hlt
    · exact h
    · refine List.pairwise_cons.mpr ⟨?_, h⟩
      intro other hother
      rcases List.mem_cons.mp hother with rfl | hother
      · exact hlt
      · exact lt_trans hlt (hn other hother)
    · refine List.pairwise_cons.mpr ⟨?_, ih hns⟩
      intro other hother
      rcases mem_insertName.mp hother with rfl | hother
      · exact lt_of_le_of_ne (not_lt.mp hlt) (Ne.symm heq)
      · exact hn other hother

namespace Scopes

theorem mem_foldr_insertName {name : String} {names : List String} :
    name ∈ names.foldr insertName [] ↔ name ∈ names := by
  induction names with
  | nil => rfl
  | cons n ns ih => rw [List.foldr_cons, mem_insertName, ih, List.mem_cons]

theorem mem_visible_iff (s : Scopes α) (name : String) :
    name ∈ s.visible ↔ (s.lookup name).isSome := by
  unfold visible lookup
  rw [mem_foldr_insertName, List.mem_flatMap, List.findSome?_isSome_iff]
  refine exists_congr fun frame => and_congr_right fun _ => ?_
  rw [Frame.names, Frame.get?, Option.isSome_iff_ne_none, ne_eq, List.lookup_eq_none_iff]
  simp

theorem visible_pairwise (s : Scopes α) : s.visible.Pairwise (· < ·) := by
  unfold visible
  induction s.frames.flatMap Frame.names with
  | nil => exact .nil
  | cons n ns ih => exact pairwise_insertName n ih

end Scopes

/-- The scopes behind every sequence of actions are what the actions say.  At least one block is
open.  A name has the type with which it was first declared in the innermost open block that
declares it, and no type if no open block does.  A declaration is refused, and changes nothing, if
the innermost block has one of that name.  A block that is opened, filled and closed again leaves
nothing behind.  The names that mean something are in the strict order of their bytes. -/
theorem scopes_answer_by_history (actions : List (ScopeAction Ty)) :
    let s := Scopes.after actions
    (1 ≤ s.depth ∧ s.depth = openLevel actions) ∧
    (∀ name,
      (∀ type, s.typeOf name = (type, true) ↔
        ∃ i level, Declares actions i name type level ∧
          (∀ j < i, ∀ other, ¬ Declares actions j name other level) ∧
          ∀ j other level', Declares actions j name other level' → level' ≤ level) ∧
      (s.typeOf name = (.unknown, false) ↔ ∀ i type level, ¬ Declares actions i name type level)) ∧
    (∀ name type,
      (s.declare? name type = none ↔ ∃ i bound, Declares actions i name bound s.depth) ∧
      (s.declare? name type = none → (ScopeAction.declare name type).apply s = s)) ∧
    (∀ stretch, Balanced stretch →
      let t := Scopes.after (actions ++ .push :: stretch ++ [.pop])
      (∀ name, t.typeOf name = s.typeOf name) ∧ t.visible = s.visible) ∧
    s.visible.Pairwise (fun a b => Utf8.encode a.toList < Utf8.encode b.toList) ∧
    ∀ name, name ∈ s.visible ↔ (s.typeOf name).2 = true := by
  intro s
  have hfound : ∀ name type, s.typeOf name = (type, true) ↔ s.lookup name = some type := by
    intro name type
    unfold Scopes.typeOf
    cases s.lookup name <;> simp
  have hmissing : ∀ name, s.typeOf name = (.unknown, false) ↔ s.lookup name = none := by
    intro name
    unfold Scopes.typeOf
    cases s.lookup name <;> simp
  refine ⟨⟨?_, Scopes.depth_after actions⟩, ?_, ?_, ?_, ?_, s.mem_visible_iff⟩
  · exact Nat.le_add_left 1 _
  · intro name
    refine ⟨fun type => ?_, ?_⟩
    · rw [hfound, Scopes.lookup_after_eq_some_iff]
      refine exists_congr fun i => exists_congr fun level => and_congr_right fun hi => ?_
      exact (and_iff_right fun j hj other hother => hi.not_lt hother hj).symm
    · rw [hmissing, Scopes.lookup_after_eq_none_iff]
  · intro name type
    refine ⟨?_, ?_⟩
    · rw [Scopes.declare?_after_eq_none_iff, Scopes.depth_after]
    · intro hrefused
      rw [ScopeAction.apply, hrefused, Option.getD_none]
  · intro stretch hbalanced t
    have hsame : t = s := Scopes.after_enclosed actions hbalanced
    rw [hsame]
    exact ⟨fun _ => rfl, rfl⟩
  · exact s.visible_pairwise.imp fun h => Utf8.encode_lt (String.lt_iff_toList_lt.mp h)

/-- In front of all, a closing action is ignored.  Then `a` is declared and refused a second time,
and a block with `b` is opened.  In a block within that, `a` is declared again and a further block
is opened and closed.  Behind that block `a` has the type of its first declaration, and a further
`b` is refused. -/
theorem scopes_behind_shadowing :
    let actions : List (ScopeAction Ty) :=
      [.pop, .declare "a" .int, .declare "a" .string, .push, .declare "b" .bool]
    let stretch : List (ScopeAction Ty) := [.declare "a" .float, .push, .pop, .lookup "a"]
    let t := Scopes.after (actions ++ .push :: stretch ++ [.pop])
    Balanced stretch ∧ Declares actions 1 "a" .int 1 ∧ t.typeOf "a" = (.int, true) ∧
      Declares actions 4 "b" .bool 2 ∧ (Scopes.after actions).declare? "b" .int = none ∧
      t.visible = ["a", "b"] := by
  intro actions stretch t
  obtain ⟨-, htype, hrefused, hstretch, -, -⟩ := scopes_answer_by_history actions
  have hbalanced : Balanced stretch := by decide
  have hfirst : Declares actions 1 "a" .int 1 := by
    refine ⟨rfl, by decide, rfl, fun j _ _ => ?_⟩
    rw [← Scopes.depth_after]
    exact Nat.le_add_left 1 _
  have hinner : Declares actions 4 "b" .bool 2 := by
    refine ⟨rfl, by decide, rfl, fun j hj hlength => ?_⟩
    obtain rfl | rfl : j = 4 ∨ j = 5 := by
      have : actions.length = 5 := rfl
      omega
    · decide
    · decide
  obtain ⟨hsame, hvisible⟩ := hstretch stretch hbalanced
  refine ⟨hbalanced, hfirst, (hsame "a").trans ?_, hinner, ?_, hvisible.trans (by decide)⟩
  · refine ((htype "a").1 .int).mpr
      ⟨1, 1, hfirst, fun j hj other h => ?_, fun j other level h => ?_⟩
    · exact absurd hj (hfirst.not_lt h)
    · -- the other declaration of `a` stands in the same block
      have haction := h.action
      rcases j with _ | _ | _ | _ | _ | j <;> simp [actions] at haction
      · exact Nat.le_of_eq h.level_eq.symm
      · exact Nat.le_of_eq h.level_eq.symm
  · exact (hrefused "b" .int).1.mpr ⟨4, .bool, hinner⟩

end Binisaya
