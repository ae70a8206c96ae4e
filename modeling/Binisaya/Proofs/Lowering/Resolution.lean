import Binisaya.Proofs.Grammar.Completeness
import Binisaya.Proofs.Lowering.Observed
import Binisaya.Proofs.Lowering.Typing
import Binisaya.Token.Lexer

/-!
# Which variable a name stands for

The checker finds the meaning of a name in scopes, where a declaration binds its name before its
initial value is looked at.  Lowering finds it in an environment, where the name is bound after the
initial value.  `watcher` observes the lowering of a program with both at hand, the scopes handled as
the checker handles them and binding each name to the variable of its declaration, and stops it where
the two do not give what is expected of them: the same variable, except for the name of a declaration
within its own initial value, which they take for different variables.  Main statement: on programs
with which the checker finds nothing wrong it never stops for that reason; and where no initial
value mentions the name that it is for, no name is unknown and no store is of the wrong type.
-/

namespace Binisaya

open Llvm Lowering

/-! ### Names in expressions -/

/-- The names that an expression reads or assigns. -/
def Expr.mentions : Expr → List String
  | .absent => []
  | .literal _ _ => []
  | .name n => [n]
  | .assign target value => target :: value.mentions
  | .group inner => inner.mentions
  | .unary _ operand => operand.mentions
  | .binary _ left right => left.mentions ++ right.mentions

mutual

/-- Whether some declaration in a statement mentions its name in its initial value. -/
def Stmt.selfInitial : Stmt → Bool
  | .declare _ name initial => initial.mentions.contains name
  | .block body => Stmt.anySelfInitial body
  | .ifElse _ consequent alternative => consequent.selfInitial || alternative.selfInitial
  | .whileLoop _ body => body.selfInitial
  | .forLoop initial _ _ body => initial.selfInitial || body.selfInitial
  | _ => false

/-- Whether some declaration in a sequence of statements does so. -/
def Stmt.anySelfInitial : List Stmt → Bool
  | [] => false
  | s :: ss => s.selfInitial || Stmt.anySelfInitial ss

end

/-- The type of an expression depends only on the names that it mentions. -/
theorem HasType.congr {scopes scopes' : Scopes Ty} {e : Expr} {t : Ty} (h : HasType scopes e t)
    (hsame : ∀ n ∈ e.mentions, scopes.lookup n = scopes'.lookup n) : HasType scopes' e t := by
  induction h with
  | int text => exact .int text
  | float text => exact .float text
  | bool text => exact .bool text
  | string text => exact .string text
  | @name n _ hn =>
    have hlookup := hsame n (by simp [Expr.mentions])
    exact .name (hlookup ▸ hn)
  | @assign target _ _ htarget _ ih =>
    have hlookup := hsame target (by simp [Expr.mentions])
    exact .assign (hlookup ▸ htarget) (ih fun n hn => hsame n (by simp [Expr.mentions, hn]))
  | group _ ih => exact .group (ih hsame)
  | negate _ ht ih => exact .negate (ih hsame) ht
  | not _ ih => exact .not (ih hsame)
  | arithmetic hop _ _ ihleft ihright =>
    exact .arithmetic hop (ihleft fun n hn => hsame n (by simp [Expr.mentions, hn]))
      (ihright fun n hn => hsame n (by simp [Expr.mentions, hn]))
  | comparison hop _ _ ihleft ihright =>
    exact .comparison hop (ihleft fun n hn => hsame n (by simp [Expr.mentions, hn]))
      (ihright fun n hn => hsame n (by simp [Expr.mentions, hn]))
  | logical hop _ _ ihleft ihright =>
    exact .logical hop (ihleft fun n hn => hsame n (by simp [Expr.mentions, hn]))
      (ihright fun n hn => hsame n (by simp [Expr.mentions, hn]))

/-- The binding of a name that an expression does not mention has nothing to do with its type. -/
theorem HasType.of_bind {scopes : Scopes Ty} {name : String} {u : Ty} {e : Expr} {t : Ty}
    (h : HasType (scopes.bind name u) e t) (hclean : e.mentions.contains name = false) :
    HasType scopes e t := by
  refine h.congr fun n hn => ?_
  rw [Scopes.lookup_bind, if_neg]
  rintro rfl
  simp [hn] at hclean

namespace Lowering

/-! ### Lowering under watch -/

/-- Why lowering under watch stops. -/
inductive Halt where
  /-- A name stands for other variables than expected. -/
  | astray (name : String) (built checked : Option Variable)
  /-- Lowering stops by itself. -/
  | failure (cause : LoweringFailure)
  deriving DecidableEq, Repr

/-- Steps of lowering under watch, with the scopes at hand. -/
abbrev Watched (α : Type) := StateT (Scopes Variable) (StateT Builder (Except Halt)) α

instance : MonadLift Lower Watched :=
  ⟨fun f scopes b => ((f b).mapError .failure).map fun x => ((x.1, scopes), x.2)⟩

namespace Watched

variable {α β : Type}

theorem bind_run (f : Watched α) (k : α → Watched β) (scopes : Scopes Variable) (b : Builder) :
    (f >>= k) scopes b = (f scopes b).bind fun x => k x.1.1 x.1.2 x.2 := rfl

theorem lift_run (f : Lower α) (scopes : Scopes Variable) (b : Builder) :
    (liftM f : Watched α) scopes b =
      ((f b).mapError Halt.failure).map fun x => ((x.1, scopes), x.2) := rfl

instance : LawfulMonadLift Lower Watched where
  monadLift_pure _ := rfl
  monadLift_bind f k := by
    funext scopes b
    show (liftM (f >>= k) : Watched _) scopes b =
      ((liftM f : Watched _) >>= fun a => liftM (k a)) scopes b
    rw [bind_run, lift_run, lift_run]
    cases hrun : f b with
    | error e =>
      rw [Lower.bind_of_error hrun]
      rfl
    | ok x =>
      rw [Lower.bind_of_ok hrun]
      rfl

end Watched

/-- The first name in an expression that the environment and the scopes do not take for the same
variable; or, if the expression is the initial value of a declaration of the name, do not take for
different ones. -/
def stray? (env : Environment) (scopes : Scopes Variable) (declared : Option String) (e : Expr) :
    Option String :=
  e.mentions.find? fun n =>
    decide (env.lookup n = scopes.lookup n) == decide (declared = some n)

theorem stray?_eq_none_iff {env : Environment} {scopes : Scopes Variable} {declared : Option String}
    {e : Expr} : stray? env scopes declared e = none ↔
      ∀ n ∈ e.mentions, (env.lookup n = scopes.lookup n ↔ declared ≠ some n) := by
  rw [stray?, List.find?_eq_none]
  refine forall₂_congr fun n _ => ?_
  by_cases hsame : env.lookup n = scopes.lookup n <;> by_cases hself : declared = some n <;>
    simp [hsame, hself]

/-- Stops at a stray name. -/
def watch (env : Environment) (declared : Option String) (e : Expr) : Watched Unit := do
  let scopes ← get
  match stray? env scopes declared e with
  | none => pure ()
  | some n => throw (.astray n (env.lookup n) (scopes.lookup n))

/-- Watches the names in expressions.  The scopes change as they do when a program is checked. -/
def watcher : Observer Watched
  | .value _ _ => pure ()
  | .block _ => pure ()
  | .name .opened => modify Scopes.push
  | .name .closed => modify Scopes.pop
  | .name (.declared name v) => modify fun scopes => scopes.bind name v
  | .name (.met env declared e) => watch env declared e

theorem watcher_ignoresValues : watcher.IgnoresValues := fun _ _ => rfl

theorem watcher_ignoresBlocks : watcher.IgnoresBlocks := fun _ => rfl

end Lowering

/-- The module of a program, and the scopes at its end, where lowering is watched. -/
def lowerWatched (p : Program) : Except Halt (Scopes Variable × Module) := do
  let ((_, scopes), b) ← lowerObserved watcher p .initial .initial
  pure (scopes, ⟨b.texts, b.blocks⟩)

namespace Lowering

/-! ### Variables and their slots -/

/-- The environment and the scopes at a point of lowering.  They agree on every name; and all
variables in the scopes, the shadowed ones too, have slots of their own in the entry. -/
structure Named (env : Environment) (scopes : Scopes Variable) (b : Builder) : Prop where
  agree : ∀ n, env.lookup n = scopes.lookup n
  placed : ∀ v ∈ scopes.values,
    ∃ i, i < b.length 0 ∧ v.slot = .result ⟨0, i⟩ (.pointer v.type.valueType)
  distinct : (scopes.values.map Variable.slot).Nodup

theorem Extends.length_le_of {b b' : Builder} (h : Extends b.module b'.module) (i : Nat) :
    b.length i ≤ b'.length i := by
  unfold Builder.length
  cases hx : b.blocks[i]? with
  | none => simp
  | some x =>
    obtain ⟨y, hy, hprefix⟩ := h.isPrefix hx
    rw [show b'.blocks[i]? = some y from hy]
    exact hprefix.length_le

/-- A new slot stands behind all that the entry holds. -/
theorem reserve_eq {b : Builder} (hopen : b.IsOpen) (type : ValueType) :
    ∃ b', reserve type b = .ok (.result ⟨0, b.length 0⟩ (.pointer type), b') ∧
      b'.length 0 = b.length 0 + 1 := by
  refine ⟨_, rfl, ?_⟩
  have hfirst := List.getElem?_eq_getElem hopen.length_pos
  simp only [Builder.length, getElem?_modify_block, hfirst]
  simp [Block.add]

namespace Named

variable {env : Environment} {scopes : Scopes Variable} {b b' : Builder}

theorem initial : Named [] .initial .initial :=
  ⟨fun _ => rfl, by simp, by simp⟩

theorem mono (h : Named env scopes b) (hlength : b.length 0 ≤ b'.length 0) :
    Named env scopes b' := by
  refine ⟨h.agree, ?_, h.distinct⟩
  intro v hv
  obtain ⟨i, hi, hslot⟩ := h.placed v hv
  exact ⟨i, by omega, hslot⟩

theorem push (h : Named env scopes b) : Named env scopes.push b := by
  refine ⟨fun n => ?_, h.placed, h.distinct⟩
  rw [Scopes.lookup_push]
  exact h.agree n

/-- No variable has the slot that is reserved next. -/
theorem slot_ne (h : Named env scopes b) {v : Variable} (hv : v ∈ scopes.values)
    (type : ValueType) : v.slot ≠ .result ⟨0, b.length 0⟩ type := by
  obtain ⟨i, hi, hslot⟩ := h.placed v hv
  rw [hslot]
  intro heq
  cases heq
  omega

theorem bind (h : Named env scopes b) (hlength : b'.length 0 = b.length 0 + 1) (name : String)
    (t : Ty) :
    Named ((name, ⟨.result ⟨0, b.length 0⟩ (.pointer t.valueType), t⟩) :: env)
      (scopes.bind name ⟨.result ⟨0, b.length 0⟩ (.pointer t.valueType), t⟩) b' := by
  have hsublist := scopes.values_bind name ⟨.result ⟨0, b.length 0⟩ (.pointer t.valueType), t⟩
  refine ⟨?_, ?_, ?_⟩
  · intro n
    rw [Scopes.lookup_bind, List.lookup_cons, h.agree]
    by_cases hn : n = name
    · simp [hn]
    · simp [hn, beq_eq_false_iff_ne.mpr hn]
  · intro v hv
    rcases List.mem_cons.mp (hsublist.subset hv) with rfl | hv
    · exact ⟨b.length 0, by omega, rfl⟩
    · obtain ⟨i, hi, hslot⟩ := h.placed v hv
      exact ⟨i, by omega, hslot⟩
  · refine List.Nodup.sublist (hsublist.map Variable.slot) ?_
    rw [List.map_cons, List.nodup_cons]
    refine ⟨?_, h.distinct⟩
    intro hmem
    obtain ⟨v, hv, hslot⟩ := List.mem_map.mp hmem
    exact h.slot_ne hv _ hslot

/-- The variables have the types that the checker gives their names. -/
theorem envTyped (h : Named env scopes b) : EnvTyped env (scopes.map Variable.type) := by
  intro name t hname
  rw [Scopes.lookup_map] at hname
  obtain ⟨v, hv, rfl⟩ := Option.map_eq_some_iff.mp hname
  obtain ⟨i, -, hslot⟩ := h.placed v (Scopes.mem_values_of_lookup hv)
  exact ⟨v, (h.agree name).trans hv, rfl, by rw [hslot]; rfl⟩

end Named

/-! ### Lowering under watch follows lowering -/

/-- A watched run answers as the run that it watches does: with its result, or its failure. -/
def Follows {α β : Type} (watched : Except Halt (α × Builder))
    (plain : Except LoweringFailure (β × Builder)) (clean : Prop) (done : α → β → Builder → Prop) :
    Prop :=
  match plain with
  | .ok (c, b) => ∃ a, watched = .ok (a, b) ∧ done a c b
  | .error e => watched = .error (.failure e) ∧ (clean → e.Unsupported)

namespace Follows

variable {α β α' β' : Type} {clean : Prop} {scopes : Scopes Variable} {b : Builder}

theorem pure {a : α} {c : β} {done : α × Scopes Variable → β → Builder → Prop}
    (h : done (a, scopes) c b) :
    Follows ((Pure.pure a : Watched α) scopes b) ((Pure.pure c : Lower β) b) clean done :=
  ⟨(a, scopes), rfl, h⟩

theorem bind {f : Watched α} {g : Lower β} {f' : α → Watched α'} {g' : β → Lower β'}
    {done : α × Scopes Variable → β → Builder → Prop}
    {done' : α' × Scopes Variable → β' → Builder → Prop}
    (h : Follows (f scopes b) (g b) clean done)
    (h' : ∀ a scopes' c mid, g b = .ok (c, mid) → done (a, scopes') c mid →
      Follows (f' a scopes' mid) (g' c mid) clean done') :
    Follows ((f >>= f') scopes b) ((g >>= g') b) clean done' := by
  rw [Watched.bind_run]
  cases hg : g b with
  | error e =>
    rw [hg] at h
    rw [h.1, Lower.bind_of_error hg]
    exact ⟨rfl, h.2⟩
  | ok x =>
    rw [hg] at h
    obtain ⟨a, hf, hdone⟩ := h
    rw [hf, Lower.bind_of_ok hg]
    exact h' a.1 a.2 x.1 x.2 hg hdone

/-- Plain steps are taken alike, and do not touch the scopes. -/
theorem step {f : Lower α} {f' : α → Watched α'} {g' : α → Lower β'}
    {done : α' × Scopes Variable → β' → Builder → Prop}
    (h : ∀ e, f b = .error e → clean → e.Unsupported)
    (h' : ∀ a mid, f b = .ok (a, mid) → Follows (f' a scopes mid) (g' a mid) clean done) :
    Follows ((liftM f >>= f') scopes b) ((f >>= g') b) clean done := by
  have hrun : Follows ((liftM f : Watched α) scopes b) (f b) clean fun a c mid =>
      a = (c, scopes) ∧ f b = .ok (c, mid) := by
    rw [Watched.lift_run]
    cases hf : f b with
    | error e => exact ⟨rfl, h e hf⟩
    | ok x => exact ⟨(x.1, scopes), rfl, rfl, rfl⟩
  refine hrun.bind fun a scopes' c mid _ ⟨heq, hok⟩ => ?_
  cases heq
  exact h' a mid hok

theorem weaken {watched : Except Halt (α × Builder)} {plain : Except LoweringFailure (β × Builder)}
    {clean' : Prop} {done done' : α → β → Builder → Prop} (h : Follows watched plain clean done)
    (hclean : clean' → clean) (hdone : ∀ a c b, plain = .ok (c, b) → done a c b → done' a c b) :
    Follows watched plain clean' done' := by
  cases plain with
  | error e => exact ⟨h.1, fun hc => h.2 (hclean hc)⟩
  | ok x =>
    obtain ⟨a, hwatched, ha⟩ := h
    exact ⟨a, hwatched, hdone a x.1 x.2 rfl ha⟩

/-- A part of a statement is clean where all of the statement is. -/
theorem left {watched : Except Halt (α × Builder)} {plain : Except LoweringFailure (β × Builder)}
    {x y : Bool} {done : α → β → Builder → Prop} (h : Follows watched plain (x = false) done) :
    Follows watched plain ((x || y) = false) done :=
  h.weaken (fun hc => (Bool.or_eq_false_iff.mp hc).1) fun _ _ _ _ hdone => hdone

@[inherit_doc left]
theorem right {watched : Except Halt (α × Builder)} {plain : Except LoweringFailure (β × Builder)}
    {x y : Bool} {done : α → β → Builder → Prop} (h : Follows watched plain (y = false) done) :
    Follows watched plain ((x || y) = false) done :=
  h.weaken (fun hc => (Bool.or_eq_false_iff.mp hc).2) fun _ _ _ _ hdone => hdone

end Follows

section

variable {α : Type} {env : Environment} {scopes : Scopes Variable} {b : Builder}

theorem opened_bind (f : Unit → Watched α) (b' : Builder) :
    (watcher (.name .opened) >>= f) scopes b' = f () scopes.push b' := rfl

theorem closed_bind (f : Unit → Watched α) (b' : Builder) :
    (watcher (.name .closed) >>= f) scopes b' = f () scopes.pop b' := rfl

theorem declared_bind (name : String) (v : Variable) (f : Unit → Watched α) (b' : Builder) :
    (watcher (.name (.declared name v)) >>= f) scopes b' = f () (scopes.bind name v) b' := rfl

/-- Watching passes over an expression whose names are as expected. -/
theorem met_bind {declared : Option String} {e : Expr}
    (h : stray? env scopes declared e = none) (f : Unit → Watched α) (b' : Builder) :
    (watcher (.name (.met env declared e)) >>= f) scopes b' = f () scopes b' := by
  have hwatch : watch env declared e scopes b' = .ok (((), scopes), b') := by
    show (match stray? env scopes declared e with
      | none => (Pure.pure () : Watched Unit)
      | some n => throw (Halt.astray n (env.lookup n) (scopes.lookup n))) scopes b' = _
    rw [h]
    rfl
  rw [Watched.bind_run, watcher, hwatch]
  rfl

theorem met_named (h : Named env scopes b) (e : Expr) (f : Unit → Watched α) (b' : Builder) :
    (watcher (.name (.met env none e)) >>= f) scopes b' = f () scopes b' :=
  met_bind (stray?_eq_none_iff.mpr fun n _ => ⟨fun _ => by simp, fun _ => h.agree n⟩) f b'

/-- Within the initial value of a declaration exactly the declared name is astray. -/
theorem met_initial (h : Named env scopes b) (type : ValueType) (t : Ty) (name : String) (e : Expr)
    (f : Unit → Watched α) (b' : Builder) :
    (watcher (.name (.met env (some name) e)) >>= f)
        (scopes.bind name ⟨.result ⟨0, b.length 0⟩ type, t⟩) b' =
      f () (scopes.bind name ⟨.result ⟨0, b.length 0⟩ type, t⟩) b' := by
  refine met_bind (stray?_eq_none_iff.mpr fun n _ => ?_) f b'
  rw [Scopes.lookup_bind, h.agree]
  by_cases hn : n = name
  · subst hn
    simp only [if_true, ne_eq, not_true_eq_false, iff_false]
    intro hsome
    exact h.slot_ne (Scopes.mem_values_of_lookup hsome) type rfl
  · simp [hn, Ne.symm hn]

end

end Lowering

open Lowering

/-- What a watched statement leads to.  Behind it the scopes are those of the checker, with variables
in place of types, and unless it is a declaration nothing has changed. -/
structure LeadsTo (env : Environment) (scopes : Scopes Variable) (after : Scopes Ty)
    (declares : Bool) (watched : Environment × Scopes Variable) (env' : Environment) (b : Builder) :
    Prop where
  same : watched.1 = env'
  named : Named env' watched.2 b
  types : watched.2.map Variable.type = after
  outer : watched.2.outer = scopes.outer
  kept : declares = false → env' = env ∧ watched.2 = scopes

/-- What is behind code that declares nothing. -/
theorem LeadsTo.unchanged {env : Environment} {scopes : Scopes Variable} {b b' : Builder}
    {declares : Bool} (hnamed : Named env scopes b) (hext : Extends b.module b'.module) :
    LeadsTo env scopes (scopes.map Variable.type) declares (env, scopes) env b' :=
  ⟨rfl, hnamed.mono (hext.length_le_of 0), rfl, rfl, fun _ => ⟨rfl, rfl⟩⟩

/-- A statement that is no declaration leaves the variables as they are. -/
theorem LeadsTo.kept_eq {env env' last : Environment} {scopes scopes' : Scopes Variable}
    {after : Scopes Ty} {declares : Bool} {b : Builder}
    (h : LeadsTo env scopes after declares (last, scopes') env' b) (hnot : declares = false) :
    env = env' ∧ env = last ∧ scopes = scopes' := by
  obtain ⟨henv, hscopes⟩ := h.kept hnot
  exact ⟨henv.symm, (h.same.trans henv).symm, hscopes.symm⟩

theorem Stmt.declare_follows {env : Environment} {scopes : Scopes Variable} {after : Scopes Ty}
    {b : Builder} {type name : String} {initial : Expr} (hnamed : Named env scopes b)
    (hopen : b.IsOpen) (hwf : (Stmt.declare type name initial).WellFormed)
    (htyped : (Stmt.declare type name initial).WellTyped (scopes.map Variable.type) after) :
    Follows ((Stmt.declare type name initial).lowerObserved watcher env scopes b)
      ((Stmt.declare type name initial).lower env b) (initial.mentions.contains name = false)
      (LeadsTo env scopes after true) := by
  rw [Stmt.WellFormed] at hwf
  obtain ⟨htype, hinitial⟩ := hwf
  have hknown := Ty.ofWord_ne_unknown htype
  obtain ⟨hafter, -, hvalue⟩ := htyped.of_declare
  obtain ⟨b₁, hreserve, hlength⟩ := reserve_eq hopen (Ty.ofWord type).valueType
  have hadvance := (reserve_straight _ _ _ _ hopen hreserve).1
  rw [Stmt.lowerObserved, Stmt.lower, watcher_ignoresBlocks.within_eq, Observed.declaration,
    declaration]
  refine .step (by simp [hreserve]) fun slot mid hrun => ?_
  rw [hreserve] at hrun
  cases hrun
  rw [declared_bind, met_initial hnamed, watcher_ignoresValues.initialValue_eq]
  -- without a mention of its own name the initial value is well typed in front of the declaration
  have hyields : initial.mentions.contains name = false →
      Yields (initialValue env (.ofWord type) initial) fun v =>
        v.type = (Ty.ofWord type).valueType := by
    intro hclean
    refine initialValue_yields hnamed.envTyped hknown hinitial ?_
    exact hvalue.imp_right fun hvalue => hvalue.of_bind hclean
  refine .step (fun e he hclean => (hyields hclean).of_error he) fun value b₂ hrun => ?_
  have hadvance₂ := (initialValue_straight _ _ _ _ _ _ hadvance.isOpen hrun).1
  refine .step (fun e he hclean => ?_) fun u b₃ hrun' => ?_
  · have hvalue := (hyields hclean).of_ok hrun
    exact (store_yields (by rw [hvalue]; rfl)).of_error he
  · have hadvance₃ := (store_straight _ _ _ _ _ hadvance₂.isOpen hrun').1
    refine .pure ⟨rfl, ?_, ?_, rfl, by simp⟩
    · exact (hnamed.bind hlength name (.ofWord type)).mono
        ((hadvance₂.trans hadvance₃).extend.length_le_of 0)
    · rw [hafter, Scopes.map_bind]

theorem Known.check {scopes after : Scopes Ty} (hknown : Known scopes) {s : Stmt}
    (hwf : s.WellFormed) (htyped : s.WellTyped scopes after) : Known after := by
  have hcheck := (Stmt.wellTyped_iff hknown s hwf).mp htyped
  have hafter := Stmt.check_known hknown hwf
  rwa [hcheck] at hafter

/-- Watching finds nothing in the first clause of a counting loop, also where there is none. -/
theorem Stmt.loopInitial_follows {env : Environment} {scopes : Scopes Variable} {inner : Scopes Ty}
    {b : Builder} {initial : Stmt} (hnamed : Named env scopes b) (hopen : b.IsOpen)
    (hknown : Known (scopes.map Variable.type)) (hwf : initial = .absent ∨ initial.WellFormed)
    (hclause : Stmt.ClauseWellTyped (scopes.map Variable.type).push initial inner)
    (hfollows : initial.WellFormed → initial.WellTyped (scopes.map Variable.type).push inner →
      Follows (initial.lowerObserved watcher env scopes.push b) (initial.lower env b)
        (initial.selfInitial = false) (LeadsTo env scopes.push inner initial.isDeclare)) :
    Follows
      ((if initial.isAbsent then pure env else initial.lowerObserved watcher env) scopes.push b)
      ((if initial.isAbsent then pure env else initial.lower env) b) (initial.selfInitial = false)
      fun watched env' b' => watched.1 = env' ∧ Named env' watched.2 b' ∧
        watched.2.map Variable.type = inner ∧ watched.2.outer = scopes.frames ∧ Known inner ∧
        Advances b b' := by
  rcases hwf with rfl | hwf
  · cases hclause with
    | absent =>
      rw [show Stmt.absent.isAbsent = true from rfl, if_pos rfl, if_pos rfl]
      exact .pure ⟨rfl, hnamed.push, rfl, rfl, hknown.push, .refl hopen⟩
    | present htyped => cases htyped
  · rw [hwf.isAbsent, if_neg (by simp), if_neg (by simp)]
    have htyped := (Stmt.clauseWellTyped_iff hwf).mp hclause
    refine (hfollows hwf htyped).weaken id fun watched env' b' hrun hdone => ?_
    exact ⟨hdone.same, hdone.named, hdone.types, hdone.outer, hknown.push.check hwf htyped,
      Stmt.lower_advances hopen initial hrun⟩

mutual

/-- On a well-typed statement watching finds nothing to stop for. -/
theorem Stmt.lower_follows {env : Environment} {scopes : Scopes Variable}
    {after : Scopes Ty} {b : Builder} (hnamed : Named env scopes b) (hopen : b.IsOpen)
    (hknown : Known (scopes.map Variable.type)) :
    (s : Stmt) → s.WellFormed → s.WellTyped (scopes.map Variable.type) after →
      Follows (s.lowerObserved watcher env scopes b) (s.lower env b) (s.selfInitial = false)
        (LeadsTo env scopes after s.isDeclare)
  | .absent, hwf, _ => by simp [Stmt.WellFormed] at hwf
  | .declare type name initial, hwf, htyped => by
    rw [Stmt.selfInitial, Stmt.isDeclare]
    exact Stmt.declare_follows hnamed hopen hwf htyped
  | .print value, hwf, htyped => by
    rw [Stmt.WellFormed] at hwf
    cases htyped with
    | print hvalue =>
      have hyields := lower_yields hnamed.envTyped hvalue hwf
      rw [Stmt.lowerObserved, Stmt.lower, watcher_ignoresBlocks.within_eq, met_named hnamed,
        watcher_ignoresValues.expr_eq]
      refine .step (fun e he _ => hyields.of_error he) fun v b₁ hrun => ?_
      have hprint := print_yields (hyields.of_ok hrun) (hvalue.ne_unknown hknown)
      have hadvance := (lower_straight env value _ _ _ hopen hrun).1
      refine .step (fun e he _ => hprint.of_error he) fun _ b₂ hrun' => ?_
      have hadvance' := hadvance.trans (print_straight _ _ _ _ hadvance.isOpen hrun').1
      exact .pure (.unchanged hnamed hadvance'.extend)
  | .expression value, hwf, htyped => by
    rw [Stmt.WellFormed] at hwf
    cases htyped with
    | expression hvalue =>
      have hyields := lower_yields hnamed.envTyped hvalue hwf
      rw [Stmt.lowerObserved, Stmt.lower, watcher_ignoresBlocks.within_eq, met_named hnamed,
        watcher_ignoresValues.expr_eq]
      refine .step (fun e he _ => hyields.of_error he) fun v b₁ hrun => ?_
      have hadvance := (lower_straight env value _ _ _ hopen hrun).1
      exact .pure (.unchanged hnamed hadvance.extend)
  | .block body, hwf, htyped => by
    rw [Stmt.WellFormed] at hwf
    cases htyped with
    | block hbody =>
      rw [Stmt.lowerObserved, Stmt.lower, Stmt.selfInitial, watcher_ignoresBlocks.within_eq,
        opened_bind]
      refine (Stmt.lowerAll_follows hnamed.push hopen hknown.push body hwf hbody).bind
        fun _ inner env' b₁ hrun ⟨_, houter⟩ => ?_
      have hadvance := Stmt.lowerAll_advances hopen body hrun
      rw [closed_bind, Scopes.pop_of_outer houter]
      exact .pure (.unchanged hnamed hadvance.extend)
  | .ifElse condition consequent alternative, hwf, htyped => by
    rw [Stmt.WellFormed] at hwf
    obtain ⟨hcondition, hconsequent, hnot, halternative⟩ := hwf
    have hbool : HasType (scopes.map Variable.type) condition .bool := by
      cases htyped <;> assumption
    have hthen : consequent.WellTyped (scopes.map Variable.type) (scopes.map Variable.type) := by
      cases htyped <;> assumption
    obtain rfl : after = scopes.map Variable.type := by
      cases htyped <;> rfl
    have hyields := openArms_yields hnamed.envTyped hcondition hbool (!alternative.isAbsent)
    rw [Stmt.lowerObserved, Stmt.lower, Stmt.selfInitial, watcher_ignoresBlocks.within_eq,
      met_named hnamed, watcher_ignoresValues.openArms_eq watcher_ignoresBlocks]
    simp only [watcher_ignoresBlocks.leave_eq]
    refine .step (fun e he _ => hyields.of_error he) fun arms b₁ hrun => ?_
    obtain ⟨hopened, -⟩ := openArms_opens hopen hrun
    have hnamed₁ := hnamed.mono (hopened.advance.extend.length_le_of 0)
    refine (Stmt.lower_follows hnamed₁ hopened.advance.isOpen hknown consequent hconsequent
      hthen).left.bind fun between scopes₂ env₂ b₂ hrun₂ hbetween => ?_
    have hfirst := Stmt.lower_advances hopened.advance.isOpen consequent hrun₂
    refine .step (fun e he _ => (leave_yields _ _).of_error he) fun _ b₃ hrun₃ => ?_
    have hleaves := leave_leaves hfirst.isOpen hrun₃
    obtain ⟨hadvance₃, -, hend⟩ := hopened.between hopen hfirst hleaves
    obtain ⟨rfl, rfl, rfl⟩ := hbetween.kept_eq hnot
    rcases halternative with rfl | ⟨halternative, hnot', -⟩
    · rw [show Stmt.absent.isAbsent = true from rfl, if_pos rfl, if_pos rfl]
      exact .pure (.unchanged hnamed hadvance₃.extend)
    · rw [halternative.isAbsent] at hopened ⊢
      rw [if_neg (by simp), if_neg (by simp)]
      have helse : alternative.WellTyped (scopes.map Variable.type)
          (scopes.map Variable.type) := by
        cases htyped with
        | ifThen => simp [Stmt.WellFormed] at halternative
        | ifElse _ _ helse => exact helse
      have hnamed₃ := hnamed.mono (hadvance₃.extend.length_le_of 0)
      refine (Stmt.lower_follows hnamed₃ hadvance₃.isOpen hknown alternative halternative
        helse).right.bind fun last scopes₄ env₄ b₄ hrun₄ hlast => ?_
      have hsecond := Stmt.lower_advances hadvance₃.isOpen alternative hrun₄
      refine .step (fun e he _ => (leave_yields _ _).of_error he) fun _ b₅ hrun₅ => ?_
      have hleaves' := leave_leaves hsecond.isOpen hrun₅
      obtain ⟨hadvance₅, -⟩ :=
        hopened.done hopen hadvance₃ hleaves.current hend hsecond hleaves'
      obtain ⟨rfl, rfl, rfl⟩ := hlast.kept_eq hnot'
      exact .pure (.unchanged hnamed hadvance₅.extend)
  | .whileLoop condition body, hwf, htyped => by
    rw [Stmt.WellFormed] at hwf
    obtain ⟨hcondition, hbody, hnot⟩ := hwf
    cases htyped with
    | whileLoop hbool hbodyTyped =>
      have hyields := openWhile_yields hnamed.envTyped hcondition hbool
      rw [Stmt.lowerObserved, Stmt.lower, Stmt.selfInitial, watcher_ignoresBlocks.within_eq,
        met_named hnamed, watcher_ignoresValues.openWhile_eq watcher_ignoresBlocks]
      simp only [watcher_ignoresBlocks.leave_eq]
      refine .step (fun e he _ => hyields.of_error he) fun rounds b₁ hrun => ?_
      obtain ⟨mid, hloop⟩ := openWhile_opens hopen hrun
      have hnamed₁ := hnamed.mono (hloop.advance.extend.length_le_of 0)
      refine (Stmt.lower_follows hnamed₁ hloop.advance.isOpen hknown body hbody
        hbodyTyped).bind fun last scopes₂ env₂ b₂ hrun₂ hlast => ?_
      have hadvance := Stmt.lower_advances hloop.advance.isOpen body hrun₂
      refine .step (fun e he _ => (leave_yields _ _).of_error he) fun _ b₃ hrun₃ => ?_
      have hleaves := leave_leaves hadvance.isOpen hrun₃
      obtain ⟨hadvance₃, -⟩ :=
        hloop.leave hopen hadvance hloop.endEmpty hloop.end_ne_body hloop.newEnd hleaves
      obtain ⟨rfl, rfl, rfl⟩ := hlast.kept_eq hnot
      exact .pure (.unchanged hnamed hadvance₃.extend)
  | .forLoop initial condition increment body, hwf, htyped => by
    rw [Stmt.WellFormed] at hwf
    obtain ⟨hinitial, hcondition, hincrement, hbody, hnot⟩ := hwf
    cases htyped with
    | @forLoop _ inner _ _ _ _ hclause hbool hbodyTyped hincTyped =>
      rw [Stmt.lowerObserved, Stmt.lower, Stmt.selfInitial, watcher_ignoresBlocks.within_eq,
        opened_bind]
      simp only [watcher_ignoresBlocks.leave_eq]
      have hfirst := Stmt.loopInitial_follows hnamed hopen hknown (hinitial.imp_right And.left)
        hclause (Stmt.lower_follows hnamed.push hopen hknown.push initial)
      refine hfirst.left.bind
        fun env' scopes' env₀ b₀ _ ⟨hsame, hnamed₀, htypes, houter, hknown₀, hstart⟩ => ?_
      obtain rfl : env' = env₀ := hsame
      dsimp only at hnamed₀ htypes houter
      rw [← htypes] at hbool hbodyTyped hincTyped hknown₀
      have hyields := openFor_yields hnamed₀.envTyped hcondition hbool
      rw [met_named hnamed₀, watcher_ignoresValues.openFor_eq watcher_ignoresBlocks]
      refine .step (fun e he _ => hyields.of_error he) fun rounds b₁ hrun => ?_
      obtain ⟨⟨mid, hloop⟩, hinc, hnewInc, hincBody, hincEnd⟩ := openFor_opens hstart.isOpen hrun
      have hnamed₁ := hnamed₀.mono (hloop.advance.extend.length_le_of 0)
      refine (Stmt.lower_follows hnamed₁ hloop.advance.isOpen hknown₀ body hbody
        hbodyTyped).right.bind fun last scopes₂ env₂ b₂ hrun₂ hlast => ?_
      have hadvance := Stmt.lower_advances hloop.advance.isOpen body hrun₂
      refine .step (fun e he _ => (leave_yields _ _).of_error he) fun _ b₃ hrun₃ => ?_
      have hleaves := leave_leaves hadvance.isOpen hrun₃
      obtain ⟨hbetween, -⟩ := hloop.leave hstart.isOpen hadvance hinc hincBody hnewInc hleaves
      obtain ⟨rfl, rfl, rfl⟩ := hlast.kept_eq hnot
      rw [met_named hnamed₀, watcher_ignoresValues.evaluateOptional_eq]
      have hyields' := evaluateOptional_yields hnamed₀.envTyped hincrement hincTyped
      refine .step (fun e he _ => hyields'.of_error he) fun _ b₄ hrun₄ => ?_
      have hafter := (evaluateOptional_straight _ increment _ _ _ hbetween.isOpen hrun₄).1
      refine .step (fun e he _ => (leave_yields _ _).of_error he) fun _ b₅ hrun₅ => ?_
      have hleaves' := leave_leaves hafter.isOpen hrun₅
      obtain ⟨hadvance₅, -⟩ := hloop.increment hstart.isOpen hinc hincBody hnewInc hincEnd hadvance
        hleaves hafter hleaves'
      rw [closed_bind, show scopes'.pop = scopes from Scopes.pop_of_outer houter]
      exact .pure (.unchanged hnamed (hstart.trans hadvance₅).extend)

theorem Stmt.lowerAll_follows {env : Environment} {scopes : Scopes Variable}
    {after : Scopes Ty} {b : Builder} (hnamed : Named env scopes b) (hopen : b.IsOpen)
    (hknown : Known (scopes.map Variable.type)) :
    (ss : List Stmt) → Stmt.AllWellFormed ss →
      Stmt.WellTypedAll (scopes.map Variable.type) ss after →
      Follows (Stmt.lowerAllObserved watcher env ss scopes b) (Stmt.lowerAll env ss b)
        (Stmt.anySelfInitial ss = false)
        fun watched _ _ => watched.2.map Variable.type = after ∧ watched.2.outer = scopes.outer
  | [], _, htyped => by
    cases htyped
    exact .pure ⟨rfl, rfl⟩
  | s :: ss, hwf, htyped => by
    obtain ⟨hs, hss⟩ := hwf
    cases htyped with
    | cons hfirst hothers =>
      rw [Stmt.lowerAllObserved, Stmt.lowerAll, Stmt.anySelfInitial]
      refine (Stmt.lower_follows hnamed hopen hknown s hs hfirst).left.bind
        fun env' scopes' env₁ b₁ hrun hbetween => ?_
      have hadvance := Stmt.lower_advances hopen s hrun
      obtain rfl : env' = env₁ := hbetween.same
      have htypes := hbetween.types
      have hknown' := hknown.check hs hfirst
      rw [← htypes] at hothers hknown'
      refine (Stmt.lowerAll_follows hbetween.named hadvance.isOpen hknown' ss hss
        hothers).right.weaken id fun _ _ _ _ hdone => ?_
      exact ⟨hdone.1, hdone.2.trans hbetween.outer⟩

end

/-- Every name that is met when a checked program is lowered stands for the variable of the
declaration that the checker finds for it, unless it stands in the initial value of a declaration of
that very name: then lowering takes it for another variable or for none.  Without such mentions of
a name no name is unknown to lowering, and every value is stored in a slot of its type. -/
theorem lower_resolves_as_checked {text : List Char} {p : Program}
    (hparse : parse (tokenize text) = .ok p) (hclean : analyze p = []) :
    (match lower p with
      | .ok m => ∃ scopes, lowerWatched p = .ok (scopes, m) ∧
          scopes.map Variable.type = (Stmt.checkAll .initial p).1
      | .error e => lowerWatched p = .error (.failure e)) ∧
    (Stmt.anySelfInitial p = false →
      (∀ name, lower p ≠ .error (.error (.undefinedName name))) ∧
        ∀ value slot, lower p ≠ .error (.storeMismatch value slot)) := by
  have hwf := parse_wellFormed hparse
  have htyped : Stmt.WellTypedAll .initial p (Stmt.checkAll .initial p).1 :=
    (Stmt.wellTypedAll_iff Known.initial p hwf).mpr (Prod.ext rfl (analyze_eq_nil.mp hclean))
  have hfollows : Follows (lowerObserved watcher p .initial .initial)
      ((Stmt.lowerAll [] p >>= fun _ => finish .unlessEnded .ret) .initial)
      (Stmt.anySelfInitial p = false)
      fun watched _ _ => watched.2.map Variable.type = (Stmt.checkAll .initial p).1 :=
    (Stmt.lowerAll_follows Named.initial Builder.isOpen_initial Known.initial p hwf htyped).bind
      fun _ scopes _ _ _ hdone => ⟨((), scopes), rfl, hdone.1⟩
  rw [lower_eq]
  unfold lowerWatched
  cases hrun : (Stmt.lowerAll [] p >>= fun _ => finish .unlessEnded .ret) Builder.initial with
  | error e =>
    rw [hrun] at hfollows
    refine ⟨by rw [hfollows.1]; rfl, fun hself => ⟨?_, ?_⟩⟩
    · rintro name heq
      cases heq
      exact hfollows.2 hself
    · rintro value slot heq
      cases heq
      exact hfollows.2 hself
  | ok x =>
    rw [hrun] at hfollows
    obtain ⟨watched, hwatched, htypes⟩ := hfollows
    exact ⟨⟨watched.2, by rw [hwatched]; rfl, htypes⟩, fun _ => ⟨nofun, nofun⟩⟩

/-- `tibuok x; { karhan x; x = "a"; } x = 1;` has two variables of one name, and each mention is
lowered to a use of the right one. -/
theorem lower_resolves_shadowed :
    let text := "tibuok x; \x7b karhan x; x = \"a\"; \x7d x = 1;".toList
    let p : Program :=
      [.declare "tibuok" "x" .absent,
        .block [.declare "karhan" "x" .absent,
          .expression (.assign "x" (.literal .string "a"))],
        .expression (.assign "x" (.literal .int "1"))]
    parse (tokenize text) = .ok p ∧ analyze p = [] ∧ Stmt.anySelfInitial p = false ∧
      (∃ scopes m, lower p = .ok m ∧ lowerWatched p = .ok (scopes, m) ∧
        scopes.map Variable.type = (Stmt.checkAll .initial p).1) ∧
      ∀ name, lower p ≠ .error (.error (.undefinedName name)) := by
  intro text p
  have hwf : WellFormed p := by
    simp only [p, WellFormed, Stmt.AllWellFormed, Stmt.WellFormed]
    decide
  have htokens : (tokenize text).map Token.bare = unparse p := by
    simp only [text]
    decide +kernel
  have hparse := parse_of_spelled hwf htokens
  have hclean : analyze p = [] := by decide
  have hself : Stmt.anySelfInitial p = false := by decide
  obtain ⟨hsame, hnames⟩ := lower_resolves_as_checked hparse hclean
  refine ⟨hparse, hclean, hself, ?_, (hnames hself).1⟩
  obtain ⟨scopes, hwatched, htypes⟩ := hsame
  exact ⟨scopes, _, rfl, hwatched, htypes⟩

/-- The checker lets a declaration mention its own name in its initial value, and lowering then
takes the name for no variable, or for one of another type. -/
theorem lower_self_initial :
    (let text := "tibuok x = (x);".toList
     let p : Program := [.declare "tibuok" "x" (.group (.name "x"))]
     parse (tokenize text) = .ok p ∧ analyze p = [] ∧
       lower p = .error (.error (.undefinedName "x"))) ∧
    (let text := "tibuok x; \x7b karhan x = x; \x7d".toList
     let p : Program :=
       [.declare "tibuok" "x" .absent, .block [.declare "karhan" "x" (.name "x")]]
     parse (tokenize text) = .ok p ∧ analyze p = [] ∧
       lower p = .error (.storeMismatch .i32 (.pointer .text))) := by
  refine ⟨⟨parse_of_spelled ?_ ?_, by decide, rfl⟩, parse_of_spelled ?_ ?_, by decide, rfl⟩
  · simp only [WellFormed, Stmt.AllWellFormed, Stmt.WellFormed]
    decide
  · rw [String.toList_ofList]
    decide +kernel
  · simp only [WellFormed, Stmt.AllWellFormed, Stmt.WellFormed]
    decide
  · rw [String.toList_ofList]
    decide +kernel

end Binisaya
