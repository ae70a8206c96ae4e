import Binisaya.Scope

/-!
# Frames and scopes

What looking up a name gives after a name is bound or assigned, a block is opened or a block is
closed.  `Scopes.map` changes what names are bound to, `Scopes.values` lists it, shadowed bindings
included.
-/

namespace Binisaya

namespace Frame

variable {α : Type}

@[simp] theorem get?_empty (name : String) : (empty : Frame α).get? name = none := rfl

theorem lookup_filter_ne (entries : List (String × α)) {name other : String} (h : other ≠ name) :
    (entries.filter fun entry => entry.1 != name).lookup other = entries.lookup other := by
  induction entries with
  | nil => rfl
  | cons entry entries ih =>
    obtain ⟨key, value⟩ := entry
    by_cases hkey : key = name
    · subst hkey
      simp [List.lookup_cons, ih, beq_eq_false_iff_ne.mpr h]
    · rw [List.filter_cons_of_pos (by simpa using hkey), List.lookup_cons, List.lookup_cons, ih]

theorem get?_add (t : Frame α) (name other : String) (value : α) :
    (t.add name value).get? other = if other = name then some value else t.get? other := by
  unfold get? add
  by_cases h : other = name
  · subst h
    simp
  · simp only [List.lookup_cons, beq_eq_false_iff_ne.mpr h, h, if_false]
    exact lookup_filter_ne t.entries h

/-- The same names, bound to something else. -/
def map {β : Type} (f : α → β) (t : Frame α) : Frame β := ⟨t.entries.map fun e => (e.1, f e.2)⟩

theorem get?_map {β : Type} (f : α → β) (t : Frame α) (name : String) :
    (t.map f).get? name = (t.get? name).map f := by
  unfold get? map
  induction t.entries with
  | nil => rfl
  | cons entry entries ih =>
    rw [List.map_cons, List.lookup_cons, List.lookup_cons, ih]
    split <;> rfl

theorem binds_map {β : Type} (f : α → β) (t : Frame α) (name : String) :
    (t.map f).binds name = t.binds name := by
  simp [binds, get?_map]

theorem map_add {β : Type} (f : α → β) (t : Frame α) (name : String) (value : α) :
    (t.add name value).map f = (t.map f).add name (f value) := by
  simp [map, add, List.filter_map, Function.comp_def]

/-- What the names are bound to. -/
def values (t : Frame α) : List α := t.entries.map Prod.snd

theorem mem_values_of_get? {t : Frame α} {name : String} {value : α}
    (h : t.get? name = some value) : value ∈ t.values := by
  obtain ⟨l₁, l₂, hl, -⟩ := List.lookup_eq_some_iff.mp h
  rw [values, hl]
  simp

theorem values_add (t : Frame α) (name : String) (value : α) :
    (t.add name value).values.Sublist (value :: t.values) := by
  unfold values add
  rw [List.map_cons]
  exact (List.filter_sublist.map _).cons_cons _

end Frame

namespace Scopes

variable {α : Type}

theorem lookup_eq (s : Scopes α) (name : String) :
    s.lookup name = (s.innermost.get? name).or (s.outer.findSome? (·.get? name)) := by
  unfold lookup frames
  rw [List.findSome?_cons]
  cases s.innermost.get? name <;> rfl

@[simp] theorem lookup_initial (name : String) : (initial : Scopes α).lookup name = none := rfl

@[simp] theorem push_outer (s : Scopes α) : s.push.outer = s.frames := rfl

@[simp] theorem push_innermost (s : Scopes α) : s.push.innermost = .empty := rfl

@[simp] theorem bind_outer (s : Scopes α) (name : String) (value : α) :
    (s.bind name value).outer = s.outer := rfl

@[simp] theorem lookup_push (s : Scopes α) (name : String) : s.push.lookup name = s.lookup name := by
  rw [lookup_eq]
  rfl

theorem lookup_bind (s : Scopes α) (name other : String) (value : α) :
    (s.bind name value).lookup other = if other = name then some value else s.lookup other := by
  rw [lookup_eq, lookup_eq]
  simp only [bind, Frame.get?_add]
  split <;> rfl

/-- Closing a block whose surroundings are the frames of `t` leads back to `t`. -/
theorem pop_of_outer {s t : Scopes α} (h : s.outer = t.frames) : s.pop = t := by
  unfold pop
  rw [h]
  rfl

/-- The same names, bound to something else. -/
def map {β : Type} (f : α → β) (s : Scopes α) : Scopes β :=
  ⟨s.innermost.map f, s.outer.map (Frame.map f)⟩

@[simp] theorem map_initial {β : Type} (f : α → β) : (initial : Scopes α).map f = initial := rfl

@[simp] theorem map_push {β : Type} (f : α → β) (s : Scopes α) : s.push.map f = (s.map f).push := rfl

@[simp] theorem map_bind {β : Type} (f : α → β) (s : Scopes α) (name : String) (value : α) :
    (s.bind name value).map f = (s.map f).bind name (f value) := by
  simp [map, bind, Frame.map_add]

theorem frames_map {β : Type} (f : α → β) (s : Scopes α) :
    (s.map f).frames = s.frames.map (Frame.map f) := rfl

theorem lookup_map {β : Type} (f : α → β) (s : Scopes α) (name : String) :
    (s.map f).lookup name = (s.lookup name).map f := by
  unfold lookup
  rw [frames_map, List.findSome?_map, List.map_findSome?]
  congr 1
  funext t
  exact Frame.get?_map f t name

theorem map_pop {β : Type} (f : α → β) (s : Scopes α) : s.pop.map f = (s.map f).pop := by
  obtain ⟨frame, frames⟩ := s
  cases frames <;> rfl

theorem map_assignIn {β : Type} (f : α → β) (name : String) (value : α) (frames : List (Frame α)) :
    (assignIn name value frames).map (Frame.map f) =
      assignIn name (f value) (frames.map (Frame.map f)) := by
  fun_induction assignIn name value frames with
  | case1 => rfl
  | case2 frame => simp [assignIn, Frame.map_add]
  | case3 frame frames hframes hbinds =>
    obtain ⟨next, others, rfl⟩ := List.exists_cons_of_ne_nil hframes
    simp [assignIn, Frame.binds_map, hbinds, Frame.map_add]
  | case4 frame frames hframes hbinds ih =>
    obtain ⟨next, others, rfl⟩ := List.exists_cons_of_ne_nil hframes
    simp only [List.map_cons] at ih
    simp [assignIn, Frame.binds_map, hbinds, ih]

theorem map_assign {β : Type} (f : α → β) (s : Scopes α) (name : String) (value : α) :
    (s.assign name value).map f = (s.map f).assign name (f value) := by
  unfold assign
  have hbinds : (s.map f).innermost.binds name = s.innermost.binds name := Frame.binds_map f _ name
  have hempty : (s.map f).outer.isEmpty = s.outer.isEmpty := List.isEmpty_map
  rw [hbinds, hempty]
  split
  · exact map_bind f s name value
  · simp only [map, map_assignIn]

theorem assignIn_of_binds {name : String} {frame : Frame α} (h : frame.binds name = true) (value : α)
    (frames : List (Frame α)) :
    assignIn name value (frame :: frames) = frame.add name value :: frames := by
  cases frames with
  | nil => rfl
  | cons next frames => simp [assignIn, h]

theorem assignIn_of_not_binds {name : String} {frame : Frame α} (h : frame.binds name = false)
    (value : α) {frames : List (Frame α)} (hne : frames ≠ []) :
    assignIn name value (frame :: frames) = frame :: assignIn name value frames := by
  obtain ⟨next, frames, rfl⟩ := List.exists_cons_of_ne_nil hne
  simp [assignIn, h]

theorem frames_assign (s : Scopes α) (name : String) (value : α) :
    (s.assign name value).frames = assignIn name value s.frames := by
  obtain ⟨frame, frames⟩ := s
  cases frames with
  | nil => simp [assign, Scopes.frames, assignIn, bind]
  | cons next frames =>
    by_cases h : frame.binds name = true
    · simp [assign, Scopes.frames, assignIn, bind, h]
    · simp [assign, Scopes.frames, assignIn, h]

theorem findSome?_assignIn (name other : String) (value : α) {frames : List (Frame α)}
    (hne : frames ≠ []) :
    (assignIn name value frames).findSome? (·.get? other) =
      if other = name then some value else frames.findSome? (·.get? other) := by
  induction frames with
  | nil => exact absurd rfl hne
  | cons frame frames ih =>
    -- the last frame takes the name whether it binds it or not
    by_cases hhere : frame.binds name = true ∨ frames = []
    · have hassign : assignIn name value (frame :: frames) = frame.add name value :: frames := by
        rcases hhere with h | rfl
        · exact assignIn_of_binds h value frames
        · rfl
      rw [hassign, List.findSome?_cons, List.findSome?_cons, Frame.get?_add]
      by_cases hname : other = name
      · rw [if_pos hname, if_pos hname]
      · rw [if_neg hname, if_neg hname]
    · obtain ⟨hbinds, hframes⟩ := not_or.mp hhere
      rw [Bool.not_eq_true] at hbinds
      have hnone : frame.get? name = none := by simpa [Frame.binds] using hbinds
      rw [assignIn_of_not_binds hbinds value hframes, List.findSome?_cons, List.findSome?_cons,
        ih hframes]
      by_cases hname : other = name
      · rw [hname, hnone, if_pos rfl]
      · rw [if_neg hname, if_neg hname]

/-- What a name means after an assignment: the value that was assigned to it last. -/
theorem lookup_assign (s : Scopes α) (name other : String) (value : α) :
    (s.assign name value).lookup other = if other = name then some value else s.lookup other := by
  unfold lookup
  rw [frames_assign]
  exact findSome?_assignIn name other value (List.cons_ne_nil _ _)

/-- What all names are bound to, shadowed ones included. -/
def values (s : Scopes α) : List α := s.frames.flatMap Frame.values

theorem mem_values_of_lookup {s : Scopes α} {name : String} {value : α}
    (h : s.lookup name = some value) : value ∈ s.values := by
  obtain ⟨t, ht, hget⟩ := List.exists_of_findSome?_eq_some h
  exact List.mem_flatMap.mpr ⟨t, ht, Frame.mem_values_of_get? hget⟩

@[simp] theorem values_initial : (initial : Scopes α).values = [] := rfl

@[simp] theorem values_push (s : Scopes α) : s.push.values = s.values := rfl

theorem values_bind (s : Scopes α) (name : String) (value : α) :
    (s.bind name value).values.Sublist (value :: s.values) := by
  simp only [values, frames, bind, List.flatMap_cons]
  rw [← List.cons_append]
  exact (Frame.values_add _ _ _).append (List.Sublist.refl _)

theorem values_pop (s : Scopes α) : s.pop.values.Sublist s.values := by
  unfold pop
  split
  · exact List.Sublist.refl _
  · rename_i frame frames houter
    simp only [values, Scopes.frames, houter, List.flatMap_cons]
    exact List.sublist_append_right _ _

theorem mem_values_assignIn {name : String} {value v : α} {frames : List (Frame α)}
    (hv : v ∈ (assignIn name value frames).flatMap Frame.values) :
    v = value ∨ v ∈ frames.flatMap Frame.values := by
  fun_induction assignIn name value frames with
  | case1 => exact .inr hv
  | case2 frame =>
    simpa using (Frame.values_add frame name value).subset (by simpa using hv)
  | case3 frame frames hframes hbinds =>
    rw [List.flatMap_cons, List.mem_append] at hv ⊢
    rcases hv with hv | hv
    · exact (List.mem_cons.mp ((Frame.values_add frame name value).subset hv)).imp_right .inl
    · exact .inr (.inr hv)
  | case4 frame frames hframes hbinds ih =>
    rw [List.flatMap_cons, List.mem_append] at hv ⊢
    rcases hv with hv | hv
    · exact .inr (.inl hv)
    · exact (ih hv).imp_right .inr

theorem mem_values_assign {s : Scopes α} {name : String} {value v : α}
    (h : v ∈ (s.assign name value).values) : v = value ∨ v ∈ s.values := by
  rw [values, frames_assign] at h
  exact mem_values_assignIn h

@[simp] theorem depth_push (s : Scopes α) : s.push.depth = s.depth + 1 := rfl

@[simp] theorem depth_bind (s : Scopes α) (name : String) (value : α) :
    (s.bind name value).depth = s.depth := rfl

theorem length_assignIn (name : String) (value : α) (frames : List (Frame α)) :
    (assignIn name value frames).length = frames.length := by
  fun_induction assignIn name value frames with
  | case1 | case2 | case3 => rfl
  | case4 frame frames _ _ ih => rw [List.length_cons, List.length_cons, ih]

@[simp] theorem depth_assign (s : Scopes α) (name : String) (value : α) :
    (s.assign name value).depth = s.depth := by
  rw [depth, frames_assign, length_assignIn, depth]

/-- Closing a block leads back to the depth at which it was opened. -/
theorem depth_pop {s t : Scopes α} (h : s.depth = t.push.depth) : s.pop.depth = t.depth := by
  obtain ⟨frame, frames⟩ := s
  cases frames with
  | nil => simp [depth, Scopes.frames, push] at h
  | cons next frames => simpa [depth, Scopes.frames, push, pop] using h

end Scopes

end Binisaya
