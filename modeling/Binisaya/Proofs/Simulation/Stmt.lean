import Binisaya.Proofs.Simulation.Control

/-!
# The code of a program does what the program does

The code of every statement shows what the statement does; main statement: a checked program
terminates with a trace exactly if its module returns with that trace.  Two kinds of programs are
left out: those with an initial value that mentions the name that it is for, which checking and
lowering take for different variables, and those that put truth values in order, where the true
value comes first in the module and last in the program.
-/

namespace Binisaya

open Llvm Lowering

mutual

/-- Whether in a statement some two truth values are put in order.  The names in an initial value
mean what they mean in front of the declaration. -/
def Stmt.ordersTruths (types : Scopes Ty) : Stmt → Bool
  | .absent => false
  | .declare _ _ initial => initial.ordersTruths types
  | .print value => value.ordersTruths types
  | .expression value => value.ordersTruths types
  | .block body => Stmt.anyOrdersTruths types.push body
  | .ifElse condition consequent alternative =>
    condition.ordersTruths types || consequent.ordersTruths types || alternative.ordersTruths types
  | .whileLoop condition body => condition.ordersTruths types || body.ordersTruths types
  | .forLoop initial condition increment body =>
    let inner := (initial.check types.push).1
    initial.ordersTruths types.push || condition.ordersTruths inner ||
      increment.ordersTruths inner || body.ordersTruths inner

/-- Whether some statement in a sequence does so. -/
def Stmt.anyOrdersTruths (types : Scopes Ty) : List Stmt → Bool
  | [] => false
  | s :: ss => s.ordersTruths types || Stmt.anyOrdersTruths (s.check types).1 ss

end

namespace Lowering

variable {m : Module} {env : Environment} {slots : Scopes Variable} {σ : State} {b b' : Builder}
  {s : Machine} {rounds : Nat}

/-! ### Printing -/

theorem call_steps (hready : Ready m b slots σ s) (hfill : Filling env slots b) {helper : Helper}
    {v : Operand} {u : Unit} (h : perform (.call helper v) b = .ok (u, b'))
    (hext : Extends b'.module m) {x : Value} (hvalue : s.value? m v = some x)
    (htype : x.type.valueType = helper.argument) :
    ∃ n t, m.stepN n s = some t ∧
      Ready m b' slots { σ with trace := σ.trace ++ [(helper, x)] } t := by
  have hadds := perform_adds hfill.isOpen h
  have hstep : m.step s = some { s with trace := s.trace ++ [(helper, x)] }.advance := by
    rw [Module.step_of_instr (hready.place ▸ hadds.found m hext)]
    simp [Instr.exec, hvalue, htype]
  refine ⟨1, _, (m.stepN_one s).trans hstep, ?_, hready.sound.step hstep, hready.holds, ?_⟩
  · rw [hadds.position, ← hready.place]
    rfl
  · simp [Machine.advance, hready.trace]

/-- The code that prints a value prints it. -/
theorem print_steps (hready : Ready m b slots σ s) (hfill : Filling env slots b) {v : Typed}
    {u : Unit} (h : print v b = .ok (u, b')) (hext : Extends b'.module m) {x : Value}
    (hvalue : s.value? m v.operand = some x) (htype : x.type = v.type) :
    ∃ n t, m.stepN n s = some t ∧
      Ready m b' slots { σ with trace := σ.trace ++ [x.printed] } t := by
  unfold print at h
  rw [← htype] at h
  cases x with
  | bool c =>
    obtain ⟨w, mid, hemit, h⟩ := Lower.bind_eq_ok h
    obtain ⟨hfill', -⟩ := hfill.next (emit_straight _ _) hemit
    obtain ⟨-, hext'⟩ := hfill'.next (perform_straight _) h
    have hexec : (Instr.convert .zext v.operand .i32).exec m s =
        (some (Value.int (if c then 1 else 0))).map fun z => s.yield (.value z) := by
      simp only [Instr.exec, hvalue]
      cases c <;> rfl
    obtain ⟨n, t, hrun, hgives⟩ :=
      (emit_simulates hready hfill hemit (hext'.trans hext) hexec : Simulates m 0 s _ _)
    obtain ⟨k, t', hrun', hready'⟩ := call_steps hgives.ready hfill' h hext hgives.value rfl
    exact ⟨n + k, t', Module.stepN_trans hrun hrun', hready'⟩
  | int n => exact call_steps hready hfill h hext hvalue rfl
  | float y => exact call_steps hready hfill h hext hvalue rfl
  | char n => exact call_steps hready hfill h hext hvalue rfl
  | text y => exact call_steps hready hfill h hext hvalue rfl

/-! ### Declarations -/

/-- Where a slot is reserved in the block that is being filled, the machine reserves it on its way;
else it was reserved in the entry. -/
theorem reserve_steps (hready : Ready m b slots σ s) (hfill : Filling env slots b)
    {type : ValueType} {slot : Operand} (h : reserve type b = .ok (slot, b'))
    (hext : Extends b'.module m) :
    m.instr? ⟨0, b.length 0⟩ = some (.alloca type) ∧
      ∃ n t, m.stepN n s = some t ∧ Ready m b' slots σ t := by
  cases h
  have hpos := hfill.isOpen.length_pos
  have hinstr : m.instr? ⟨0, b.length 0⟩ = some (.alloca type) := instr?_of_add hpos hext
  have hlength := Builder.length_modify_add hpos (.alloca type) b.current
  refine ⟨hinstr, ?_⟩
  by_cases hcurrent : b.current = 0
  · rw [hcurrent, if_pos rfl] at hlength
    have hplace : s.place = ⟨0, b.length 0⟩ := by
      rw [hready.place, Builder.position, hcurrent]
    have hstep : m.step s =
        some ({ s with memory := s.memory ++ [none] }.yield (.address s.memory.length)) :=
      Module.step_of_instr (hplace ▸ hinstr)
    refine ⟨1, _, (m.stepN_one s).trans hstep, ?_, hready.sound.step hstep, ?_, hready.trace⟩
    · simp only [Machine.yield, hplace, Place.next, Builder.position, hcurrent, hlength]
    · exact hready.holds.grow hfill.named (.yield hready.place _) (List.prefix_append _ _)
  · rw [if_neg (Ne.symm hcurrent), Nat.add_zero] at hlength
    exact ⟨0, s, rfl, hready.moved (by simp only [Builder.position, hlength])⟩

/-- The code of an initial value computes it. -/
theorem initialValue_simulates {initial : Expr} {type : Ty} (htype : type ≠ .unknown)
    (hyields : initial.isAbsent = false → Yields (initial.lower env) (·.HasType type))
    (hcomputes : initial.isAbsent = false → Computes m rounds env slots initial type)
    (hready : Ready m b slots σ s) (hfill : Filling env slots b) {v : Operand}
    (h : initialValue env type initial b = .ok (v, b')) (hext : Extends b'.module m) :
    Simulates m rounds s (initial.evalInitial type σ) (Evaluated m b b' slots s v type) := by
  unfold initialValue at h
  unfold Expr.evalInitial
  cases habsent : initial.isAbsent with
  | true =>
    rw [habsent, if_pos rfl] at h
    cases h
    have hzero : s.value? m type.zero = some (Value.zero type) ∧ (Value.zero type).type = type ∧
        ∀ p t, type.zero ≠ .result p t := by
      cases type <;> first | exact absurd rfl htype | exact ⟨rfl, rfl, nofun⟩
    rw [if_pos rfl]
    exact .pure ⟨⟨hready, fun _ _ => rfl, hzero.1, fun p t heq => absurd heq (hzero.2.2 p t)⟩,
      hzero.2.1⟩
  | false =>
    rw [habsent, if_neg (by simp)] at h
    rw [if_neg (by simp)]
    obtain ⟨given, mid, hrun, h⟩ := Lower.bind_eq_ok h
    rw [widen_of_type_eq ((hyields habsent).of_ok hrun).1] at h
    cases h
    exact hcomputes habsent hfill hrun hext hready

/-! ### Statements -/

/-- Code that takes a machine from one point to another, where it stands for the state that a
computation leads to. -/
def Runs (m : Module) (b b' : Builder) (slots slots' : Scopes Variable) (f : Nat → Exec Unit) :
    Prop :=
  ∀ rounds σ s, Ready m b slots σ s →
    Simulates m rounds s (f rounds σ) fun _ σ' t => Ready m b' slots' σ' t

/-- The code of a statement that is no declaration keeps to its variables. -/
theorem Runs.kept {env' : Environment} {after : Scopes Ty} {declares : Bool} {f : Nat → Exec Unit}
    (h : ∃ slots', LeadsTo env slots after declares (env', slots') env' b' ∧
      Runs m b b' slots slots' f) (hnot : declares = false) :
    env' = env ∧ Runs m b b' slots slots f := by
  obtain ⟨slots', hleads, hruns⟩ := h
  obtain ⟨rfl, -, rfl⟩ := hleads.kept_eq hnot
  exact ⟨rfl, hruns⟩

theorem openBlock_simulates (h : Ready m b slots σ s) :
    Simulates m rounds s (Exec.openBlock σ) fun _ σ' t => Ready m b slots.push σ' t :=
  ⟨0, s, rfl, h.place, h.sound, h.holds.push, h.trace⟩

theorem closeBlock_simulates {inner : Scopes Variable} (h : Ready m b inner σ s)
    (houter : inner.outer = slots.frames) :
    Simulates m rounds s (Exec.closeBlock σ) fun _ σ' t => Ready m b slots σ' t :=
  ⟨0, s, rfl, h.place, h.sound, h.holds.pop houter, h.trace⟩

theorem declare_runs {type name : String} {initial : Expr} {env' : Environment}
    {after : Scopes Ty} (hfill : Filling env slots b)
    (hwf : (Stmt.declare type name initial).WellFormed)
    (htyped : (Stmt.declare type name initial).WellTyped (slots.map Variable.type) after)
    (hself : initial.mentions.contains name = false)
    (horder : initial.ordersTruths (slots.map Variable.type) = false)
    (h : declaration env (.ofWord type) name initial b = .ok (env', b'))
    (hext : Extends b'.module m) :
    ∃ slots', LeadsTo env slots after true (env', slots') env' b' ∧
      Runs m b b' slots slots' fun rounds => (Stmt.declare type name initial).run rounds := by
  rw [Stmt.WellFormed] at hwf
  obtain ⟨hword, hinitial⟩ := hwf
  have hknown := Ty.ofWord_ne_unknown hword
  obtain ⟨hafter, -, hvalue⟩ := htyped.of_declare
  have htype : initial.isAbsent = false → HasType (slots.map Variable.type) initial (.ofWord type) :=
    fun hpresent => by
      rcases hvalue with rfl | hvalue
      · cases hpresent
      · exact hvalue.of_bind hself
  have hwf' : initial.isAbsent = false → initial.WellFormed := fun hpresent => by
    refine hinitial.resolve_left ?_
    rintro rfl
    cases hpresent
  have henv := hfill.named.envTyped
  obtain ⟨slot, b₁, hreserve, h⟩ := Lower.bind_eq_ok h
  obtain ⟨value, b₂, hvalue, h⟩ := Lower.bind_eq_ok h
  obtain ⟨_, b₃, hstore, h⟩ := Lower.bind_eq_ok h
  cases h
  obtain ⟨hfill₁, hext₁⟩ := hfill.next (reserve_straight _) hreserve
  obtain ⟨hfill₂, hext₂⟩ := hfill₁.next (initialValue_straight env _ initial) hvalue
  obtain ⟨hfill₃, hext₃⟩ := hfill₂.next (store_straight _ _) hstore
  obtain ⟨b₁', hreserve', hlength⟩ := reserve_eq hfill.isOpen (Ty.ofWord type).valueType
  rw [hreserve'] at hreserve
  cases hreserve
  let x : Variable := ⟨.result ⟨0, b.length 0⟩ (.pointer (Ty.ofWord type).valueType), .ofWord type⟩
  refine ⟨slots.bind name x, ⟨rfl, ?_, ?_, rfl, nofun⟩, ?_⟩
  · exact (hfill.named.bind hlength name (.ofWord type)).mono
      ((hext₂.trans hext₃).length_le_of 0)
  · rw [hafter, Scopes.map_bind]
  · intro rounds σ s hready
    obtain ⟨hinstr, n, s₁, hrun, hready₁⟩ :=
      reserve_steps hready hfill hreserve' (hext₂.trans (hext₃.trans hext))
    simp only [Stmt.run]
    refine .after hrun ((initialValue_simulates hknown
      (fun hp => lower_yields henv (htype hp) (hwf' hp))
      (fun hp => lower_computes henv (htype hp) (hwf' hp) horder)
      hready₁ hfill₁ hvalue (hext₃.trans hext)).bind fun y σ' s₂ ⟨hgives, hy⟩ => ?_)
    -- the slot has been reserved before, in this block or in the entry
    have hbefore : s₂.place.block = 0 → b.length 0 < s₂.place.index := by
      rw [hgives.ready.place]
      simp only [Builder.position]
      intro hcurrent
      rw [hcurrent]
      have := hext₂.length_le_of 0
      omega
    obtain ⟨a, ha⟩ := hgives.ready.sound.reserved _ _ hinstr hbefore
    have haddress : s₂.address? m x.slot = some a := address?_result.mpr ha
    obtain ⟨hstep, hplace⟩ :=
      store_steps hgives.ready.place hfill₂.isOpen hstore hext hgives.value haddress
    refine ⟨1, _, (m.stepN_one s₂).trans hstep, hplace, hgives.ready.sound.step hstep, ?_,
      hgives.ready.trace⟩
    exact hgives.ready.holds.declare hfill.named hgives.ready.sound rfl haddress hy name

theorem print_runs {value : Expr} {type : Ty} {v : Typed} {mid : Builder} {u : Unit}
    (hfill : Filling env slots b)
    (hyields : Yields (value.lower env) (·.HasType type))
    (hcomputes : ∀ rounds, Computes m rounds env slots value type)
    (hvalue : value.lower env b = .ok (v, mid)) (hprint : print v mid = .ok (u, b'))
    (hext : Extends b'.module m) :
    Runs m b b' slots slots fun rounds => (Stmt.print value).run rounds := by
  intro rounds σ s hready
  obtain ⟨hfill', -⟩ := hfill.next (lower_straight env value) hvalue
  obtain ⟨-, hext'⟩ := hfill'.next (print_straight v) hprint
  simp only [Stmt.run]
  refine (hcomputes rounds hfill hvalue (hext'.trans hext) hready).bind
    fun x σ' t ⟨hgives, hx⟩ => ?_
  exact print_steps hgives.ready hfill' hprint hext hgives.value
    (hx.trans (hyields.of_ok hvalue).1.symm)

/-- A point that lowering comes to later, with the same variables. -/
theorem Filling.advance (h : Filling env slots b) (hadvance : Advances b b') :
    Filling env slots b' :=
  ⟨h.named.mono (hadvance.extend.length_le_of 0), hadvance.isOpen⟩

/-- Each arm of a conditional leads to its end. -/
theorem ifElse_runs {condition : Expr} {consequent alternative : Stmt} {hasAlternative : Bool}
    {arms : Arms} {b₁ b₂ b₃ last : Builder} (hfill : Filling env slots b)
    (hcomputes : ∀ rounds, Computes m rounds env slots condition .bool)
    (harms : openArms env condition hasAlternative b = .ok (arms, b₁)) (hfirst : Advances b₁ b₂)
    (hleaves : Leaves b₂ (.jump arms.endBlock) arms.elseBlock b₃) (hext : Extends b₃.module m)
    (hlast : last.position = ⟨arms.endBlock, 0⟩)
    (hconsequent : Runs m b₁ b₂ slots slots fun rounds => consequent.run rounds)
    (halternative : Runs m b₃ last slots slots fun rounds => alternative.run rounds) :
    Runs m b last slots slots fun rounds =>
      (Stmt.ifElse condition consequent alternative).run rounds := by
  obtain ⟨hopened, v, mid, hlower, hextMid, hends⟩ := openArms_opens hfill.isOpen harms
  obtain ⟨-, helseEmpty, -⟩ := hopened.between hfill.isOpen hfirst hleaves
  obtain ⟨hfillMid, -⟩ := hfill.next (lower_straight env condition) hlower
  have hfill₂ := (hfill.advance hopened.advance).advance hfirst
  have hext₁ := hfirst.extend.trans (hleaves.extend.trans hext)
  intro rounds σ s hready
  simp only [Stmt.run]
  refine ((hcomputes rounds).test hfill hlower (hextMid.trans hext₁) hready).bind
    fun passed σ' t hgives => ?_
  cases passed with
  | false =>
    obtain ⟨n, u, hrun, hready'⟩ :=
      hgives.branch hfillMid.named hends hext₁ (helseEmpty.position hleaves.current)
    exact .after hrun (halternative rounds σ' u hready')
  | true =>
    obtain ⟨n, u, hrun, hready'⟩ :=
      hgives.branch hfillMid.named hends hext₁ (hopened.thenEmpty.position hopened.current)
    refine .after hrun ((hconsequent rounds σ' u hready').extend fun _ σ'' w hready'' => ?_)
    obtain ⟨k, w', -, hrun', hdone⟩ := hready''.jump hfill₂.named hleaves.ends hext hlast
    exact ⟨k, w', hrun', hdone⟩

theorem Tests.extend {condition : Expr} {whenFalse : Nat} (h : Tests env condition whenFalse b b')
    (hopen : b.IsOpen) : Extends b.module b'.module := by
  rcases h with ⟨-, hleaves⟩ | ⟨-, v, mid, hlower, hleaves⟩
  · exact hleaves.extend
  · exact (lower_straight env condition _ _ _ hopen hlower).1.extend.trans hleaves.extend

/-- A loop leads to its end, if every round leads back to its condition. -/
theorem LoopOpened.runs {condition : Expr} {blocks : Rounds} {mid b₁ last : Builder}
    (h : LoopOpened env condition b blocks mid b₁) (hfill : Filling env slots b)
    (hcomputes : ∀ rounds, condition.isAbsent = false →
      Computes m rounds env slots condition .bool)
    (hext : Extends b₁.module m) (hlast : last.position = ⟨blocks.endBlock, 0⟩)
    {round : Nat → Exec Unit}
    (hround : ∀ rounds σ s, Ready m b₁ slots σ s →
      Simulates m rounds s (round rounds σ) fun _ σ' t =>
        ∃ n u, 0 < n ∧ m.stepN n t = some u ∧ Ready m mid slots σ' u) :
    Runs m b last slots slots fun rounds =>
      Exec.repeatWhile condition.test (round rounds) rounds := by
  intro rounds σ s hready
  have hfillMid := hfill.advance h.advanceMid
  have hextMid := (h.tests.extend hfillMid.isOpen).trans hext
  obtain ⟨n, t, -, hrun, hstart⟩ :=
    hready.jump hfill.named h.enters hextMid (h.emptyMid.position h.currentMid)
  refine .after hrun (Simulates.repeatWhile ?_ (hround rounds) rounds (Nat.le_refl _) σ t hstart)
  intro σ' u hready'
  refine (h.tests.simulates hfillMid (hcomputes rounds) hext h.bodyEmpty hlast hready').weaken
    fun passed σ'' w _ hpassed => ?_
  cases passed <;> exact hpassed

/-- The code of an expression that is evaluated for its effect. -/
theorem evaluateOptional_runs {e : Expr} {u : Unit} (hfill : Filling env slots b)
    (hcomputes : ∀ rounds, e.isAbsent = false →
      ∃ type, Computes m rounds env slots e type)
    (h : evaluateOptional env e b = .ok (u, b')) (hext : Extends b'.module m) :
    Runs m b b' slots slots fun _ => e.evalOptional := by
  intro rounds σ s hready
  unfold evaluateOptional at h
  simp only [Expr.evalOptional]
  cases habsent : e.isAbsent with
  | true =>
    rw [habsent, if_pos rfl] at h
    cases h
    exact .pure hready
  | false =>
    rw [habsent, if_neg (by simp)] at h
    obtain ⟨v, mid, hlower, h⟩ := Lower.bind_eq_ok h
    cases h
    obtain ⟨type, hcomputes⟩ := hcomputes rounds habsent
    exact (hcomputes hfill hlower hext hready).bind fun _ _ _ hgives => .pure hgives.1.ready

/-- The first clause of a counting loop leads to the variables of the loop, also where there is
none. -/
theorem loopInitial_runs {initial : Stmt} {inner : Scopes Ty} {env' : Environment}
    (hfill : Filling env slots b) (hknown : Known (slots.map Variable.type))
    (hwf : initial = .absent ∨ initial.WellFormed)
    (hclause : Stmt.ClauseWellTyped (slots.map Variable.type).push initial inner)
    (h : (if initial.isAbsent then pure env else initial.lower env) b = .ok (env', b'))
    (hruns : initial.WellFormed → initial.WellTyped (slots.map Variable.type).push inner →
      initial.lower env b = .ok (env', b') →
      ∃ slots', LeadsTo env slots.push inner initial.isDeclare (env', slots') env' b' ∧
        Runs m b b' slots.push slots' fun rounds => initial.run rounds) :
    ∃ slots', Named env' slots' b' ∧ slots'.map Variable.type = inner ∧
      slots'.outer = slots.frames ∧ Known inner ∧
      (initial.check (slots.map Variable.type).push).1 = inner ∧
      Runs m b b' slots.push slots' fun rounds => initial.run rounds := by
  rcases hwf with rfl | hwf
  · cases hclause with
    | absent =>
      rw [show Stmt.absent.isAbsent = true from rfl, if_pos rfl] at h
      cases h
      refine ⟨slots.push, hfill.named.push, rfl, rfl, hknown.push, by rw [Stmt.check], ?_⟩
      intro rounds σ s hready
      simp only [Stmt.run]
      exact .pure hready
    | present htyped => cases htyped
  · rw [hwf.isAbsent, if_neg (by simp)] at h
    have htyped := (Stmt.clauseWellTyped_iff hwf).mp hclause
    have hcheck := (Stmt.wellTyped_iff hknown.push initial hwf).mp htyped
    obtain ⟨slots', hleads, hruns⟩ := hruns hwf htyped h
    exact ⟨slots', hleads.named, hleads.types, hleads.outer, hknown.push.check hwf htyped,
      by rw [hcheck], hruns⟩

/-- A counting loop runs its first clause once, and its last one at the end of every round. -/
theorem forLoop_runs {initial body : Stmt} {condition increment : Expr} {inner : Scopes Variable}
    {env' : Environment} {blocks : Rounds} {b₀ b₁ b₂ b₃ b₄ : Builder} {u : Unit}
    (houter : inner.outer = slots.frames)
    (hinitial : Runs m b b₀ slots.push inner fun rounds => initial.run rounds)
    (hfill : Filling env' inner b₀)
    (hcondition : ∀ rounds, condition.isAbsent = false →
      Computes m rounds env' inner condition .bool)
    (hincrement : ∀ rounds, increment.isAbsent = false →
      ∃ type, Computes m rounds env' inner increment type)
    (hblocks : openFor env' condition b₀ = .ok (blocks, b₁)) (hadvance : Advances b₁ b₂)
    (hbody : Runs m b₁ b₂ inner inner fun rounds => body.run rounds)
    (hleaves : Leaves b₂ (.jump blocks.incBlock) blocks.incBlock b₃)
    (hlower : evaluateOptional env' increment b₃ = .ok (u, b₄))
    (hleaves' : Leaves b₄ (.jump blocks.condBlock) blocks.endBlock b')
    (hext : Extends b'.module m) :
    Runs m b b' slots slots fun rounds =>
      (Stmt.forLoop initial condition increment body).run rounds := by
  obtain ⟨⟨mid, hloop⟩, hinc, hnewInc, hincBody, hincEnd⟩ := openFor_opens hfill.isOpen hblocks
  obtain ⟨hadvance₃, hempty₃⟩ := hloop.leave hfill.isOpen hadvance hinc hincBody hnewInc hleaves
  have hfill₂ := (hfill.advance hloop.advance).advance hadvance
  have hfill₃ := hfill.advance hadvance₃
  obtain ⟨hfill₄, hext₄⟩ := hfill₃.next (evaluateOptional_straight env' increment) hlower
  have hafter := (evaluateOptional_straight env' increment _ _ _ hfill₃.isOpen hlower).1
  obtain ⟨-, hempty₅⟩ := hloop.increment hfill.isOpen hinc hincBody hnewInc hincEnd hadvance hleaves
    hafter hleaves'
  have hext₃ := hext₄.trans (hleaves'.extend.trans hext)
  have hround : ∀ rounds σ s, Ready m b₁ inner σ s → Simulates m rounds s
      ((do body.run rounds; increment.evalOptional : Exec Unit) σ) fun _ σ' t =>
        ∃ n u, 0 < n ∧ m.stepN n t = some u ∧ Ready m mid inner σ' u := by
    intro rounds σ s hready
    refine (hbody rounds σ s hready).bind fun _ σ₁ s₁ hready₁ => ?_
    obtain ⟨n, s₂, -, hrun, hready₂⟩ :=
      hready₁.jump hfill₂.named hleaves.ends hext₃ (hempty₃.position hleaves.current)
    refine .after hrun ((evaluateOptional_runs hfill₃ hincrement hlower (hleaves'.extend.trans hext)
      rounds σ₁ s₂ hready₂).weaken fun _ σ₃ s₃ _ hready₃ => ?_)
    exact hready₃.jump hfill₄.named hleaves'.ends hext (hloop.emptyMid.position hloop.currentMid)
  have hloopRuns := hloop.runs hfill hcondition
    (hadvance.extend.trans (hleaves.extend.trans hext₃)) (hempty₅.position hleaves'.current) hround
  intro rounds σ s hready
  simp only [Stmt.run]
  refine (openBlock_simulates hready).bind fun _ σ₁ s₁ hready₁ => ?_
  refine (hinitial rounds σ₁ s₁ hready₁).bind fun _ σ₂ s₂ hready₂ => ?_
  refine (hloopRuns rounds σ₂ s₂ hready₂).bind fun _ σ₃ s₃ hready₃ => ?_
  exact closeBlock_simulates hready₃ houter

end Lowering

mutual

/-- The code of a statement does what the statement does. -/
theorem Stmt.lower_runs {m : Module} {env env' : Environment} {slots : Scopes Variable}
    {after : Scopes Ty} {b b' : Builder} (hfill : Filling env slots b)
    (hknown : Known (slots.map Variable.type)) :
    (s : Stmt) → s.WellFormed → s.WellTyped (slots.map Variable.type) after →
      s.selfInitial = false → s.ordersTruths (slots.map Variable.type) = false →
      s.lower env b = .ok (env', b') → Extends b'.module m →
      ∃ slots', LeadsTo env slots after s.isDeclare (env', slots') env' b' ∧
        Runs m b b' slots slots' fun rounds => s.run rounds
  | .absent, hwf, _, _, _, _, _ => by simp [Stmt.WellFormed] at hwf
  | .declare type name initial, hwf, htyped, hself, horder, h, hext => by
    rw [Stmt.selfInitial] at hself
    rw [Stmt.ordersTruths] at horder
    rw [Stmt.lower] at h
    exact declare_runs hfill hwf htyped hself horder h hext
  | .print value, hwf, htyped, _, horder, h, hext => by
    rw [Stmt.WellFormed] at hwf
    rw [Stmt.ordersTruths] at horder
    rw [Stmt.lower] at h
    cases htyped with
    | print hvalue =>
      have henv := hfill.named.envTyped
      have hadvance := (((lower_straight env value).bind fun v =>
        (print_straight v).bind fun _ => .pure env) _ _ _ hfill.isOpen h).1
      obtain ⟨v, mid, hlower, h⟩ := Lower.bind_eq_ok h
      obtain ⟨u, last, hprint, h⟩ := Lower.bind_eq_ok h
      cases h
      exact ⟨slots, .unchanged hfill.named hadvance.extend,
        print_runs hfill (lower_yields henv hvalue hwf)
          (fun _ => lower_computes henv hvalue hwf horder) hlower hprint hext⟩
  | .expression value, hwf, htyped, _, horder, h, hext => by
    rw [Stmt.WellFormed] at hwf
    rw [Stmt.ordersTruths] at horder
    rw [Stmt.lower] at h
    cases htyped with
    | expression hvalue =>
      obtain ⟨v, mid, hlower, h⟩ := Lower.bind_eq_ok h
      cases h
      obtain ⟨-, hext'⟩ := hfill.next (lower_straight env value) hlower
      refine ⟨slots, .unchanged hfill.named hext', fun rounds σ s hready => ?_⟩
      simp only [Stmt.run]
      exact (lower_computes hfill.named.envTyped hvalue hwf horder hfill hlower hext hready).bind
        fun _ _ _ hgives => .pure hgives.1.ready
  | .block body, hwf, htyped, hself, horder, h, hext => by
    rw [Stmt.WellFormed] at hwf
    rw [Stmt.selfInitial] at hself
    rw [Stmt.ordersTruths] at horder
    rw [Stmt.lower] at h
    cases htyped with
    | block hbody =>
      obtain ⟨inner, mid, hlower, h⟩ := Lower.bind_eq_ok h
      cases h
      have hadvance := Stmt.lowerAll_advances hfill.isOpen body hlower
      obtain ⟨slots', -, houter, hruns⟩ :=
        Stmt.lowerAll_runs ⟨hfill.named.push, hfill.isOpen⟩ hknown.push body hwf hbody hself horder
          hlower hext
      refine ⟨slots, .unchanged hfill.named hadvance.extend, fun rounds σ s hready => ?_⟩
      simp only [Stmt.run]
      refine (openBlock_simulates hready).bind fun _ σ₁ s₁ hready₁ => ?_
      refine (hruns rounds σ₁ s₁ hready₁).bind fun _ σ₂ s₂ hready₂ => ?_
      exact closeBlock_simulates hready₂ houter
  | .ifElse condition consequent alternative, hwf, htyped, hself, horder, h, hext => by
    rw [Stmt.WellFormed] at hwf
    obtain ⟨hcondition, hconsequent, hnot, halternative⟩ := hwf
    rw [Stmt.selfInitial, Bool.or_eq_false_iff] at hself
    rw [Stmt.ordersTruths, Bool.or_eq_false_iff, Bool.or_eq_false_iff] at horder
    have hbool : HasType (slots.map Variable.type) condition .bool := by
      cases htyped <;> assumption
    have hthen : consequent.WellTyped (slots.map Variable.type) (slots.map Variable.type) := by
      cases htyped <;> assumption
    obtain rfl : after = slots.map Variable.type := by
      cases htyped <;> rfl
    rw [Stmt.lower] at h
    obtain ⟨arms, b₁, harms, h⟩ := Lower.bind_eq_ok h
    obtain ⟨between, b₂, hrun₂, h⟩ := Lower.bind_eq_ok h
    obtain ⟨u, b₃, hleave, h⟩ := Lower.bind_eq_ok h
    obtain ⟨hopened, -⟩ := openArms_opens hfill.isOpen harms
    have hfill₁ := hfill.advance hopened.advance
    have hfirst := Stmt.lower_advances hfill₁.isOpen consequent hrun₂
    have hleaves := leave_leaves hfirst.isOpen hleave
    obtain ⟨hadvance₃, -, hendEmpty⟩ := hopened.between hfill.isOpen hfirst hleaves
    have hcomputes : ∀ rounds, Computes m rounds env slots condition .bool := fun _ =>
      lower_computes hfill.named.envTyped hbool hcondition horder.1.1
    have hconsequentRuns (hext₃ : Extends b₃.module m) :=
      Runs.kept (Stmt.lower_runs hfill₁ hknown consequent hconsequent hthen hself.1 horder.1.2 hrun₂
        (hleaves.extend.trans hext₃)) hnot
    rcases halternative with rfl | ⟨halternative, hnot', -⟩
    · rw [show Stmt.absent.isAbsent = true from rfl, if_pos rfl] at h
      cases h
      obtain ⟨rfl, hruns⟩ := hconsequentRuns hext
      have hlast := hendEmpty.position (hleaves.current.trans (hopened.else_eq_end.mpr rfl))
      refine ⟨slots, .unchanged hfill.named hadvance₃.extend,
        ifElse_runs hfill hcomputes harms hfirst hleaves hext hlast hruns ?_⟩
      intro rounds σ s hready
      simp only [Stmt.run]
      exact .pure hready
    · rw [halternative.isAbsent] at hopened h
      rw [if_neg (by simp)] at h
      obtain ⟨env₄, b₄, hrun₄, h⟩ := Lower.bind_eq_ok h
      obtain ⟨u', b₅, hleave', h⟩ := Lower.bind_eq_ok h
      cases h
      have helse : alternative.WellTyped (slots.map Variable.type) (slots.map Variable.type) := by
        cases htyped with
        | ifThen => simp [Stmt.WellFormed] at halternative
        | ifElse _ _ helse => exact helse
      have hfill₃ := hfill.advance hadvance₃
      have hsecond := Stmt.lower_advances hfill₃.isOpen alternative hrun₄
      have hleaves' := leave_leaves hsecond.isOpen hleave'
      obtain ⟨hadvance₅, hempty₅⟩ :=
        hopened.done hfill.isOpen hadvance₃ hleaves.current hendEmpty hsecond hleaves'
      have hlast := hempty₅.position hleaves'.current
      have hext₄ := hleaves'.extend.trans hext
      obtain ⟨rfl, hruns⟩ := hconsequentRuns (hsecond.extend.trans hext₄)
      obtain ⟨rfl, hruns'⟩ := Runs.kept (Stmt.lower_runs hfill₃ hknown alternative halternative
        helse hself.2 horder.2 hrun₄ hext₄) hnot'
      refine ⟨slots, .unchanged hfill.named hadvance₅.extend,
        ifElse_runs hfill hcomputes harms hfirst hleaves (hsecond.extend.trans hext₄) hlast hruns
          fun rounds σ s hready => ?_⟩
      refine (hruns' rounds σ s hready).extend fun _ σ' t hready' => ?_
      obtain ⟨n, w, -, hrun, hdone⟩ :=
        hready'.jump (hfill₃.advance hsecond).named hleaves'.ends hext hlast
      exact ⟨n, w, hrun, hdone⟩
  | .whileLoop condition body, hwf, htyped, hself, horder, h, hext => by
    rw [Stmt.WellFormed] at hwf
    obtain ⟨hcondition, hbody, hnot⟩ := hwf
    rw [Stmt.selfInitial] at hself
    rw [Stmt.ordersTruths, Bool.or_eq_false_iff] at horder
    cases htyped with
    | whileLoop hbool hbodyTyped =>
      rw [Stmt.lower] at h
      obtain ⟨blocks, b₁, hblocks, h⟩ := Lower.bind_eq_ok h
      obtain ⟨env₂, b₂, hrun₂, h⟩ := Lower.bind_eq_ok h
      obtain ⟨u, b₃, hleave, h⟩ := Lower.bind_eq_ok h
      cases h
      obtain ⟨mid, hloop⟩ := openWhile_opens hfill.isOpen hblocks
      have hfill₁ := hfill.advance hloop.advance
      have hadvance := Stmt.lower_advances hfill₁.isOpen body hrun₂
      have hleaves := leave_leaves hadvance.isOpen hleave
      obtain ⟨hadvance₃, hempty⟩ := hloop.leave hfill.isOpen hadvance hloop.endEmpty
        hloop.end_ne_body hloop.newEnd hleaves
      have hext₂ := hleaves.extend.trans hext
      obtain ⟨rfl, hruns⟩ := Runs.kept (Stmt.lower_runs hfill₁ hknown body hbody hbodyTyped hself
        horder.2 hrun₂ hext₂) hnot
      refine ⟨slots, .unchanged hfill.named hadvance₃.extend, fun rounds σ s hready => ?_⟩
      have hround := fun rounds σ s hready =>
        (hruns rounds σ s hready).weaken fun _ _ _ _ hready' =>
          hready'.jump (hfill₁.advance hadvance).named hleaves.ends hext
            (hloop.emptyMid.position hloop.currentMid)
      simp only [Stmt.run]
      exact hloop.runs hfill
        (fun _ _ => lower_computes hfill.named.envTyped hbool hcondition horder.1)
        (hadvance.extend.trans hext₂) (hempty.position hleaves.current) hround rounds σ s hready
  | .forLoop initial condition increment body, hwf, htyped, hself, horder, h, hext => by
    rw [Stmt.WellFormed] at hwf
    obtain ⟨hinitial, hcondition, hincrement, hbody, hnot⟩ := hwf
    rw [Stmt.selfInitial, Bool.or_eq_false_iff] at hself
    simp only [Stmt.ordersTruths, Bool.or_eq_false_iff] at horder
    obtain ⟨⟨⟨horderInitial, horderCondition⟩, horderIncrement⟩, horderBody⟩ := horder
    cases htyped with
    | @forLoop _ inner _ _ _ _ hclause hbool hbodyTyped hincTyped =>
      rw [Stmt.lower] at h
      obtain ⟨env₀, b₀, hrun₀, h⟩ := Lower.bind_eq_ok h
      obtain ⟨blocks, b₁, hblocks, h⟩ := Lower.bind_eq_ok h
      obtain ⟨env₂, b₂, hrun₂, h⟩ := Lower.bind_eq_ok h
      obtain ⟨u, b₃, hleave, h⟩ := Lower.bind_eq_ok h
      obtain ⟨u', b₄, hrun₄, h⟩ := Lower.bind_eq_ok h
      obtain ⟨u'', b₅, hleave', h⟩ := Lower.bind_eq_ok h
      cases h
      have hstart : Advances b b₀ := by
        split at hrun₀
        · cases hrun₀
          exact .refl hfill.isOpen
        · exact Stmt.lower_advances hfill.isOpen initial hrun₀
      obtain ⟨⟨mid, hloop⟩, hinc, hnewInc, hincBody, hincEnd⟩ := openFor_opens hstart.isOpen hblocks
      have hadvance := Stmt.lower_advances hloop.advance.isOpen body hrun₂
      have hleaves := leave_leaves hadvance.isOpen hleave
      obtain ⟨hadvance₃, -⟩ := hloop.leave hstart.isOpen hadvance hinc hincBody hnewInc hleaves
      have hafter := (evaluateOptional_straight _ increment _ _ _ hadvance₃.isOpen hrun₄).1
      have hleaves' := leave_leaves hafter.isOpen hleave'
      obtain ⟨hadvance₅, -⟩ := hloop.increment hstart.isOpen hinc hincBody hnewInc hincEnd hadvance
        hleaves hafter hleaves'
      have hext₂ := hleaves.extend.trans (hafter.extend.trans (hleaves'.extend.trans hext))
      have hext₀ := hloop.advance.extend.trans (hadvance.extend.trans hext₂)
      obtain ⟨inner', hnamed₀, rfl, houter, hknown₀, hcheck, hinitialRuns⟩ :=
        loopInitial_runs hfill hknown (hinitial.imp_right And.left) hclause hrun₀
          fun hwf htyped hrun => Stmt.lower_runs ⟨hfill.named.push, hfill.isOpen⟩ hknown.push initial
            hwf htyped hself.1 horderInitial hrun hext₀
      rw [hcheck] at horderCondition horderIncrement horderBody
      have hfill₀ : Filling env₀ inner' b₀ := ⟨hnamed₀, hstart.isOpen⟩
      obtain ⟨rfl, hbodyRuns⟩ := Runs.kept (Stmt.lower_runs (hfill₀.advance hloop.advance) hknown₀
        body hbody hbodyTyped hself.2 horderBody hrun₂ hext₂) hnot
      have hcondition' : ∀ rounds, condition.isAbsent = false →
          Computes m rounds env₂ inner' condition .bool := by
        intro rounds hpresent
        rcases hcondition with rfl | hcondition
        · cases hpresent
        · rcases hbool with rfl | hbool
          · cases hpresent
          · exact lower_computes hnamed₀.envTyped hbool hcondition horderCondition
      have hincrement' : ∀ rounds, increment.isAbsent = false →
          ∃ type, Computes m rounds env₂ inner' increment type := by
        intro rounds hpresent
        rcases hincrement with rfl | hincrement
        · cases hpresent
        · rcases hincTyped with rfl | ⟨type, hincTyped⟩
          · cases hpresent
          · exact ⟨type, lower_computes hnamed₀.envTyped hincTyped hincrement horderIncrement⟩
      exact ⟨slots, .unchanged hfill.named (hstart.trans hadvance₅).extend,
        forLoop_runs houter hinitialRuns hfill₀ hcondition' hincrement' hblocks hadvance hbodyRuns
          hleaves hrun₄ hleaves' hext⟩

theorem Stmt.lowerAll_runs {m : Module} {env env' : Environment} {slots : Scopes Variable}
    {after : Scopes Ty} {b b' : Builder} (hfill : Filling env slots b)
    (hknown : Known (slots.map Variable.type)) :
    (ss : List Stmt) → Stmt.AllWellFormed ss →
      Stmt.WellTypedAll (slots.map Variable.type) ss after → Stmt.anySelfInitial ss = false →
      Stmt.anyOrdersTruths (slots.map Variable.type) ss = false →
      Stmt.lowerAll env ss b = .ok (env', b') → Extends b'.module m →
      ∃ slots', Named env' slots' b' ∧ slots'.outer = slots.outer ∧
        Runs m b b' slots slots' fun rounds => Stmt.runAll rounds ss
  | [], _, _, _, _, h, _ => by
    rw [Stmt.lowerAll] at h
    cases h
    refine ⟨slots, hfill.named, rfl, fun rounds σ s hready => ?_⟩
    simp only [Stmt.runAll]
    exact .pure hready
  | s :: ss, hwf, htyped, hself, horder, h, hext => by
    obtain ⟨hs, hss⟩ := hwf
    rw [Stmt.anySelfInitial, Bool.or_eq_false_iff] at hself
    rw [Stmt.anyOrdersTruths, Bool.or_eq_false_iff] at horder
    rw [Stmt.lowerAll] at h
    obtain ⟨between, mid, hfirst, hothers⟩ := Lower.bind_eq_ok h
    cases htyped with
    | cons htypedFirst htypedOthers =>
      have hadvance := Stmt.lower_advances hfill.isOpen s hfirst
      have hadvance' := Stmt.lowerAll_advances hadvance.isOpen ss hothers
      obtain ⟨slots₁, hleads, hruns⟩ := Stmt.lower_runs hfill hknown s hs htypedFirst hself.1
        horder.1 hfirst (hadvance'.extend.trans hext)
      have htypes := hleads.types
      have hknown' := hknown.check hs htypedFirst
      have hcheck := (Stmt.wellTyped_iff hknown s hs).mp htypedFirst
      rw [hcheck] at horder
      rw [← htypes] at htypedOthers hknown' horder
      obtain ⟨slots₂, hnamed, houter, hruns'⟩ := Stmt.lowerAll_runs
        ⟨hleads.named, hadvance.isOpen⟩ hknown' ss hss htypedOthers hself.2 horder.2 hothers hext
      refine ⟨slots₂, hnamed, houter.trans hleads.outer, fun rounds σ s hready => ?_⟩
      simp only [Stmt.runAll]
      exact (hruns rounds σ s hready).bind fun _ σ' t hready' => hruns' rounds σ' t hready'

end

/-! ### Programs -/

theorem Lowering.Ready.initial (m : Module) : Ready m .initial .initial .initial .initial :=
  ⟨rfl, .initial m, .initial _, rfl⟩

/-- Where a computation shows in a machine for every number of rounds, the computation comes to its
end exactly if the machine does. -/
theorem Simulates.returns_iff {m : Module} {f : Nat → Exec Unit}
    (h : ∀ rounds, Simulates m rounds .initial (f rounds .initial) fun _ σ t =>
      m.AtReturn t ∧ t.trace = σ.trace) (trace : List Event) :
    (∃ rounds σ, f rounds .initial = .done ((), σ) ∧ σ.trace = trace) ↔ m.Returns trace := by
  constructor
  · rintro ⟨rounds, σ, hdone, rfl⟩
    have hsim := h rounds
    rw [hdone] at hsim
    obtain ⟨n, t, hrun, hreturn, htrace⟩ := hsim
    exact ⟨n, t, hrun, hreturn, htrace⟩
  · rintro ⟨n, t, hrun, hreturn, rfl⟩
    -- with more rounds than the machine takes steps the computation is not broken off
    have hsim := h (n + 1)
    cases hf : f (n + 1) .initial with
    | done x =>
      rw [hf] at hsim
      obtain ⟨k, u, hrun', hreturn', htrace⟩ := hsim
      obtain rfl := Module.stepN_last_unique hrun hreturn.step hrun' hreturn'.step
      exact ⟨n + 1, x.2, hf, htrace.symm⟩
    | stuck =>
      rw [hf] at hsim
      obtain ⟨k, u, hrun', hlast, hnot⟩ := hsim
      obtain rfl := Module.stepN_last_unique hrun hreturn.step hrun' hlast
      exact absurd hreturn hnot
    | unfinished =>
      rw [hf] at hsim
      obtain ⟨k, u, hk, hrun'⟩ := hsim
      have := Module.stepN_le hrun hreturn.step hrun'
      omega

/-- The module of a program shows what the program does. -/
theorem lower_simulates {p : Program} {m : Module} (hwf : WellFormed p) {after : Scopes Ty}
    (htyped : Stmt.WellTypedAll .initial p after) (hself : Stmt.anySelfInitial p = false)
    (horder : Stmt.anyOrdersTruths .initial p = false) (hlower : lower p = .ok m) (rounds : Nat) :
    Simulates m rounds .initial (Stmt.runAll rounds p .initial) fun _ σ t =>
      m.AtReturn t ∧ t.trace = σ.trace := by
  rw [lower_eq] at hlower
  cases hrun : (Stmt.lowerAll [] p >>= fun _ => finish .unlessEnded .ret) Builder.initial with
  | error e =>
    rw [hrun] at hlower
    cases hlower
  | ok x =>
    obtain ⟨u, last⟩ := x
    rw [hrun] at hlower
    obtain rfl := Except.ok.inj hlower
    obtain ⟨env', b', hall, hfinish⟩ := Lower.bind_eq_ok hrun
    have hadvance := Stmt.lowerAll_advances Builder.isOpen_initial p hall
    have hleave : leave .unlessEnded .ret b'.current b' = .ok ((), last) := by
      rw [leave, Lower.bind_of_ok hfinish]
      cases hfinish
      rfl
    have hleaves := leave_leaves hadvance.isOpen hleave
    obtain ⟨slots, hnamed, -, hruns⟩ := Stmt.lowerAll_runs ⟨Named.initial, Builder.isOpen_initial⟩
      Known.initial p hwf htyped hself horder hall hleaves.extend
    refine (hruns rounds .initial .initial (.initial _)).extend fun _ σ t hready => ?_
    obtain ⟨n, v, hrun', hend, -, -, htrace⟩ :=
      hready.reachesEnd hnamed hleaves.ends (Extends.refl last.module)
    exact ⟨n, v, hrun', hend, htrace⟩

/-- A checked program terminates with a trace exactly if its module returns with that trace. -/
theorem terminates_iff_returns {text : List Char} {p : Program} {m : Module}
    (hparse : parse (tokenize text) = .ok p) (hclean : analyze p = [])
    (hself : Stmt.anySelfInitial p = false) (horder : Stmt.anyOrdersTruths .initial p = false)
    (hlower : lower p = .ok m) (trace : List Event) : Terminates p trace ↔ m.Returns trace := by
  have hwf := parse_wellFormed hparse
  have htyped : Stmt.WellTypedAll .initial p (Stmt.checkAll .initial p).1 :=
    (Stmt.wellTypedAll_iff Known.initial p hwf).mpr (Prod.ext rfl (analyze_eq_nil.mp hclean))
  exact Simulates.returns_iff (lower_simulates hwf htyped hself horder hlower) trace

/-- A counting loop whose second round prints an inner variable in place of the one that counts,
and a quotient by zero, behind which neither the program nor its module gets. -/
theorem returns_shadowing_loop :
    (let text := "alang (tibuok x = 2; x > 0; x = x - 1) \x7b lutaw z = 0.5; ".toList ++
      "ug (x == 1) \x7b tibuok x = 7; imprenta_gawas x; \x7d edi imprenta_gawas z < x; \x7d".toList
    let p : Program :=
      [.forLoop (.declare "tibuok" "x" (.literal .int "2"))
        (.binary .greater (.name "x") (.literal .int "0"))
        (.assign "x" (.binary .subtract (.name "x") (.literal .int "1")))
        (.block [.declare "lutaw" "z" (.literal .float "0.5"),
          .ifElse (.binary .equal (.name "x") (.literal .int "1"))
            (.block [.declare "tibuok" "x" (.literal .int "7"), .print (.name "x")])
            (.print (.binary .less (.name "z") (.name "x")))])]
    let trace : List Event := [(.printInt, .int 1), (.printInt, .int 7)]
    parse (tokenize text) = .ok p ∧ analyze p = [] ∧ Stmt.anySelfInitial p = false ∧
      Stmt.anyOrdersTruths .initial p = false ∧ Terminates p trace ∧
      ∃ m, lower p = .ok m ∧ m.Returns trace) ∧
    (let text := "imprenta_gawas 1 / 0;".toList
    let p : Program := [.print (.binary .divide (.literal .int "1") (.literal .int "0"))]
    parse (tokenize text) = .ok p ∧ analyze p = [] ∧
      ∃ m, lower p = .ok m ∧ ∀ trace, ¬m.Returns trace) := by
  constructor
  · intro text p trace
    have hwf : WellFormed p := by
      simp only [p, WellFormed, Stmt.AllWellFormed, Stmt.WellFormed, reduceCtorEq, false_or]
      decide
    have htokens : (tokenize text).map Token.bare = unparse p := by
      simp only [text]
      decide +kernel
    have hparse := parse_of_spelled hwf htokens
    have hclean : analyze p = [] := by decide
    have hself : Stmt.anySelfInitial p = false := by decide
    have horder : Stmt.anyOrdersTruths .initial p = false := by decide
    have hterminates : Terminates p trace := ⟨3, ⟨.initial, trace⟩, by decide +kernel, rfl⟩
    refine ⟨hparse, hclean, hself, horder, hterminates, ?_⟩
    cases hlower : lower p with
    | error e =>
      have hok : (lower p).isOk = true := by decide +kernel
      rw [hlower] at hok
      cases hok
    | ok m =>
      exact ⟨m, rfl,
        (terminates_iff_returns hparse hclean hself horder hlower trace).mp hterminates⟩
  · intro text p
    have hwf : WellFormed p := by
      simp only [p, WellFormed, Stmt.AllWellFormed, Stmt.WellFormed]
      decide
    have htokens : (tokenize text).map Token.bare = unparse p := by
      simp only [text]
      decide +kernel
    have hparse := parse_of_spelled hwf htokens
    have hclean : analyze p = [] := by decide
    refine ⟨hparse, hclean, _, rfl, fun trace hreturns => ?_⟩
    obtain ⟨rounds, σ, hdone, -⟩ :=
      (terminates_iff_returns hparse hclean (by decide) (by decide) rfl trace).mpr hreturns
    have hstuck : Stmt.runAll rounds p .initial = .stuck := rfl
    rw [hstuck] at hdone
    cases hdone

end Binisaya
