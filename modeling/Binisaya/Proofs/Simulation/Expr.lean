import Binisaya.Proofs.Simulation.Relation

/-!
# The code of an expression computes its value

`Simulates` says how a computation shows in the machine that executes its code: if it is done, the
machine arrives where the code ends; if it gets stuck, so does the machine; and if it is broken off,
the machine has gone on for as many steps at least as there were rounds.  Main statement: evaluating
a well-typed expression shows in this way, and where the code ends its operand has the value of the
expression.
-/

namespace Binisaya

open Llvm Lowering

/-! ### Truth values in order -/

/-- The comparisons that ask for an order. -/
def BinaryOp.isOrder : BinaryOp → Bool
  | .less | .lessEqual | .greater | .greaterEqual => true
  | _ => false

/-- Whether in an expression some two truth values are put in order. -/
def Expr.ordersTruths (types : Scopes Ty) : Expr → Bool
  | .absent => false
  | .literal _ _ => false
  | .name _ => false
  | .assign _ value => value.ordersTruths types
  | .group inner => inner.ordersTruths types
  | .unary _ operand => operand.ordersTruths types
  | .binary op left right =>
    op.isOrder && left.type types = .bool && right.type types = .bool ||
      left.ordersTruths types || right.ordersTruths types

/-! ### Operations on values -/

/-- A number in a wider type. -/
def Value.widen : Value → Ty → Value
  | .char n, .int => .int (n.signExtend 32)
  | .int n, .float => .float (.ofInt n.toInt)
  | .char n, .float => .float (.ofInt n.toInt)
  | v, _ => v

theorem Llvm.Comparison.holds_eq {op : BinaryOp} {how : Comparison}
    (h : comparison? op = some how) (o : Ordering) : how.holds o = op.holds o := by
  cases op <;> cases h <;> rfl

namespace Value

variable {op : BinaryOp} {x y z : Value}

/-- The operation of an arithmetic operator does what the operator does. -/
theorem result?_eq_arithmetic? {t : Ty} {operation : Operation}
    (hop : arithmeticOperation? op t = some operation) (hx : x.type = t) (hy : y.type = t) :
    operation.result? x y = arithmetic? op x y := by
  subst hx
  cases x <;> cases y <;> cases hy <;> cases op <;> cases hop <;> rfl

theorem arithmetic?_type (h : arithmetic? op x y = some z) : z.type = x.type := by
  cases x <;> cases y <;> first | cases h | skip
  all_goals
    obtain ⟨w, -, rfl⟩ := Option.map_eq_some_iff.mp h
    rfl

theorem onFloats?_eq_compare? {how : Comparison} (h : comparison? op = some how)
    (hx : x.type.isNumeric = true) (hy : y.type.isNumeric = true)
    (hfloat : x.type = .float ∨ y.type = .float) :
    how.onFloats? (x.widen .float) (y.widen .float) = compare? op x y := by
  have hholds := Comparison.holds_eq h
  cases x <;> cases hx <;> cases y <;> cases hy <;> simp [type] at hfloat <;>
    simp only [widen, Comparison.onFloats?, hholds] <;> rfl

theorem onWords?_widen_eq_compare? {how : Comparison} (h : comparison? op = some how)
    (hx : x.type = .int ∨ x.type = .char) (hy : y.type = .int ∨ y.type = .char) :
    how.onWords? (x.widen .int) (y.widen .int) = compare? op x y := by
  have hholds := Comparison.holds_eq h
  have hextend : ∀ n : BitVec 8, (n.signExtend 32).toInt = n.toInt := fun n =>
    BitVec.toInt_signExtend_of_le (by decide)
  cases x <;> simp [type] at hx <;> cases y <;> simp [type] at hy <;>
    simp only [widen, Comparison.onWords?, hholds, hextend] <;> rfl

/-- As a signed word of one bit the true value comes before the false one, so only a comparison that
asks for no order is the same on truth values as on words. -/
theorem onWords?_eq_compare? {how : Comparison} (h : comparison? op = some how)
    (htype : x.type = y.type) (hfloat : x.type ≠ .float) (htext : x.type ≠ .string)
    (hbool : x.type = .bool → op.isOrder = false) : how.onWords? x y = compare? op x y := by
  have hholds := Comparison.holds_eq h
  cases x <;> cases y <;> cases htype <;> simp [type] at hfloat htext
  · simp only [Comparison.onWords?, hholds]
    rfl
  · simp only [Comparison.onWords?, hholds]
    rfl
  · next a c =>
    have hop := hbool rfl
    cases op <;> cases hop <;> cases h <;> cases a <;> cases c <;> rfl

theorem binary?_of_comparison {how : Comparison} (h : comparison? op = some how) (x y : Value) :
    x.binary? op y = (compare? op x y).map bool := by
  cases op <;> cases h <;> rfl

end Value

/-! ### Simulation -/

/-- How a computation shows in a machine. -/
def Simulates {α : Type} (m : Module) (rounds : Nat) (s : Machine) (e : Ending (α × State))
    (post : α → State → Machine → Prop) : Prop :=
  match e with
  | .done (a, σ) => ∃ n t, m.stepN n s = some t ∧ post a σ t
  | .stuck => ∃ n t, m.stepN n s = some t ∧ m.step t = none ∧ ¬m.AtReturn t
  | .unfinished => ∃ n t, rounds ≤ n ∧ m.stepN n s = some t

namespace Simulates

variable {α β : Type} {m : Module} {rounds : Nat} {s : Machine}
  {post : α → State → Machine → Prop}

theorem pure {a : α} {σ : State} (h : post a σ s) :
    Simulates m rounds s ((Pure.pure a : Exec α) σ) post :=
  ⟨0, s, rfl, h⟩

theorem fewer {e : Ending (α × State)} {k : Nat} (h : Simulates m rounds s e post)
    (hk : k ≤ rounds) : Simulates m k s e post := by
  cases e with
  | done x => exact h
  | stuck => exact h
  | unfinished =>
    obtain ⟨n, t, hn, hrun⟩ := h
    exact ⟨n, t, by omega, hrun⟩

/-- What is shown after some steps is shown before them, and in as many steps more. -/
theorem later {e : Ending (α × State)} {n : Nat} {t : Machine} (hrun : m.stepN n s = some t)
    (h : Simulates m rounds t e post) : Simulates m (n + rounds) s e post := by
  cases e with
  | done x =>
    obtain ⟨k, u, hrest, hpost⟩ := h
    exact ⟨n + k, u, Module.stepN_trans hrun hrest, hpost⟩
  | stuck =>
    obtain ⟨k, u, hrest, hstuck⟩ := h
    exact ⟨n + k, u, Module.stepN_trans hrun hrest, hstuck⟩
  | unfinished =>
    obtain ⟨k, u, hk, hrest⟩ := h
    exact ⟨n + k, u, by omega, Module.stepN_trans hrun hrest⟩

theorem after {e : Ending (α × State)} {n : Nat} {t : Machine} (hrun : m.stepN n s = some t)
    (h : Simulates m rounds t e post) : Simulates m rounds s e post :=
  (h.later hrun).fewer (Nat.le_add_left _ _)

theorem bind {f : Exec α} {g : α → Exec β} {σ : State} {post' : β → State → Machine → Prop}
    (h : Simulates m rounds s (f σ) post)
    (h' : ∀ a σ' t, post a σ' t → Simulates m rounds t (g a σ') post') :
    Simulates m rounds s ((f >>= g) σ) post' := by
  have hbind : (f >>= g) σ = (f σ).bind fun x => g x.1 x.2 := rfl
  rw [hbind]
  cases hf : f σ with
  | done x =>
    rw [hf] at h
    obtain ⟨n, t, hrun, hpost⟩ := h
    exact (h' x.1 x.2 t hpost).after hrun
  | stuck =>
    rw [hf] at h
    exact h
  | unfinished =>
    rw [hf] at h
    exact h

theorem weaken {e : Ending (α × State)} {post' : α → State → Machine → Prop}
    (h : Simulates m rounds s e post)
    (h' : ∀ a σ t, e = .done (a, σ) → post a σ t → post' a σ t) :
    Simulates m rounds s e post' := by
  cases e with
  | done x =>
    obtain ⟨n, t, hrun, hpost⟩ := h
    exact ⟨n, t, hrun, h' x.1 x.2 t rfl hpost⟩
  | stuck => exact h
  | unfinished => exact h

/-- The machine may go on after the computation. -/
theorem extend {e : Ending (α × State)} {post' : α → State → Machine → Prop}
    (h : Simulates m rounds s e post)
    (h' : ∀ a σ t, post a σ t → ∃ n u, m.stepN n t = some u ∧ post' a σ u) :
    Simulates m rounds s e post' := by
  cases e with
  | done x =>
    obtain ⟨n, t, hrun, hpost⟩ := h
    obtain ⟨k, u, hrest, hpost'⟩ := h' x.1 x.2 t hpost
    exact ⟨n + k, u, Module.stepN_trans hrun hrest, hpost'⟩
  | stuck => exact h
  | unfinished => exact h

/-- An instruction without a meaning stops the machine. -/
theorem stuck {i : Instr} (hinstr : m.instr? s.place = some i) (hexec : i.exec m s = none) :
    Simulates m rounds s (.stuck : Ending (α × State)) post := by
  refine ⟨0, s, rfl, (Module.step_of_instr hinstr).trans hexec, fun hreturn => ?_⟩
  rw [Module.instr?_eq_none_of_end hreturn] at hinstr
  cases hinstr

end Simulates

namespace Lowering

variable {m : Module} {env : Environment} {slots : Scopes Variable} {σ : State} {b b' : Builder}
  {s t : Machine} {rounds : Nat}

/-- An operand that later code does not change. -/
def Settled (b : Builder) (v : Operand) : Prop :=
  ∀ p type, v = .result p type → p.index < b.length p.block

theorem Settled.value?_eq {v : Operand} (h : Settled b v) (hkeeps : Keeps b s t) :
    t.value? m v = s.value? m v := by
  have hregister : t.register? m v = s.register? m v := by
    cases v with
    | result p type => exact hkeeps p (h p type rfl)
    | _ => rfl
  rw [Machine.value?, hregister, Machine.value?]

/-- A machine that has executed the code from `b` to `b'`, after which an operand has a value. -/
structure Gives (m : Module) (b b' : Builder) (slots : Scopes Variable) (s : Machine) (v : Operand)
    (x : Value) (σ : State) (t : Machine) : Prop where
  ready : Ready m b' slots σ t
  keeps : Keeps b s t
  value : t.value? m v = some x
  settled : Settled b' v

/-- A point in lowering: the variables that names stand for, and a block to be filled. -/
structure Filling (env : Environment) (slots : Scopes Variable) (b : Builder) : Prop where
  named : Named env slots b
  isOpen : b.IsOpen

/-- The next point behind code that stays in its block. -/
theorem Filling.next (h : Filling env slots b) {α : Type} {f : Lower α} (hf : Straight f) {a : α}
    (hrun : f b = .ok (a, b')) : Filling env slots b' ∧ Extends b.module b'.module := by
  obtain ⟨hadvance, -⟩ := hf b a b' h.isOpen hrun
  exact ⟨⟨h.named.mono (hadvance.extend.length_le_of 0), hadvance.isOpen⟩, hadvance.extend⟩

/-- An instruction that yields a value if it has a meaning. -/
theorem emit_simulates (hready : Ready m b slots σ s) (hfill : Filling env slots b) {i : Instr}
    {type : ValueType} {v : Operand} (h : emit i type b = .ok (v, b')) (hext : Extends b'.module m)
    {o : Option Value} (hexec : i.exec m s = o.map fun x => s.yield (.value x)) :
    Simulates m rounds s (Exec.require o σ) fun x σ' t => Gives m b b' slots s v x σ' t := by
  obtain ⟨hadds, rfl⟩ := emit_adds hfill.isOpen h
  cases o with
  | none => exact .stuck (hready.place ▸ hadds.found m hext) hexec
  | some x =>
    obtain ⟨hstep, hready'⟩ := hready.yield hfill.named hadds hext hexec
    refine ⟨1, _, (m.stepN_one s).trans hstep, hready', .yield hready.place _, ?_, ?_⟩
    · simp [Machine.value?, Machine.register?, Machine.yield, hready.place]
    · rintro p type' heq
      cases heq
      exact hadds.contains

/-- Code without instructions, after which an operand has a value. -/
theorem Gives.constant (hready : Ready m b slots σ s) (hposition : b'.position = b.position)
    {v : Operand} {x : Value} (hvalue : s.value? m v = some x)
    (hsettled : ∀ p type, v ≠ .result p type) : Gives m b b' slots s v x σ s :=
  ⟨hready.moved hposition, fun _ _ => rfl, hvalue, fun p type heq => absurd heq (hsettled p type)⟩

/-- The code of one operand after that of another. -/
theorem Gives.trans {mid : Builder} {σ' : State} {u : Machine} {v w : Operand} {x y : Value}
    (h : Gives m b mid slots s v x σ t) (h' : Gives m mid b' slots t w y σ' u)
    (hext : Extends b.module mid.module) :
    Gives m b b' slots s w y σ' u ∧ u.value? m v = some x :=
  ⟨⟨h'.ready, h.keeps.trans h'.keeps hext, h'.value, h'.settled⟩,
    (h.settled.value?_eq h'.keeps).trans h.value⟩

/-! ### Code of operators -/

theorem compute_simulates (hready : Ready m b slots σ s) (hfill : Filling env slots b)
    {op : Operation} {l r : Operand} {type : Ty} {v : Typed}
    (h : compute op l r type b = .ok (v, b')) (hext : Extends b'.module m) {x y : Value}
    (hl : s.value? m l = some x) (hr : s.value? m r = some y) :
    Simulates m rounds s (Exec.require (op.result? x y) σ)
      fun z σ' t => Gives m b b' slots s v.operand z σ' t := by
  obtain ⟨w, mid, hemit, hpure⟩ := Lower.bind_eq_ok h
  cases hpure
  refine emit_simulates hready hfill hemit hext ?_
  simp only [Instr.exec, hl, hr]
  rfl

/-- Widening either converts a number, which always has a meaning, or does nothing. -/
theorem widen_cases (v : Typed) (target : Ty) :
    (∃ op type, widen v target = emit (.convert op v.operand type) type ∧
      ∀ x : Value, x.type = v.type → op.result? x type = some (x.widen target)) ∨
    widen v target = pure v.operand ∧ ∀ x : Value, x.type = v.type → x.widen target = x := by
  unfold widen
  split
  · next hv =>
    refine .inl ⟨_, _, rfl, fun x hx => ?_⟩
    cases x <;> cases hx.trans hv
    rfl
  · next hv =>
    refine .inl ⟨_, _, rfl, fun x hx => ?_⟩
    cases x <;> cases hx.trans hv
    rfl
  · next hv =>
    refine .inl ⟨_, _, rfl, fun x hx => ?_⟩
    cases x <;> cases hx.trans hv
    rfl
  · next target _ _ hcharInt hintFloat hcharFloat =>
    refine .inr ⟨rfl, fun x hx => ?_⟩
    rw [← hx] at hcharInt hintFloat hcharFloat
    cases x <;> cases target <;> simp_all [Value.type, Value.widen]

theorem widen_gives (hready : Ready m b slots σ s) (hfill : Filling env slots b) {v : Typed}
    {target : Ty} {w : Operand} (h : widen v target b = .ok (w, b')) (hext : Extends b'.module m)
    {x : Value} (hvalue : s.value? m v.operand = some x) (hsettled : Settled b v.operand)
    (htype : x.type = v.type) :
    ∃ n t, m.stepN n s = some t ∧ Gives m b b' slots s w (x.widen target) σ t := by
  rcases widen_cases v target with ⟨op, type, hwiden, happly⟩ | ⟨hwiden, hsame⟩
  · rw [hwiden] at h
    have hexec : (Instr.convert op v.operand type).exec m s =
        (some (x.widen target)).map fun z => s.yield (.value z) := by
      simp only [Instr.exec, hvalue, ← happly x htype]
      rfl
    exact (emit_simulates hready hfill h hext hexec : Simulates m 0 s _ _)
  · rw [hwiden] at h
    cases h
    rw [hsame x htype]
    exact ⟨0, s, rfl, hready, fun _ _ => rfl, hvalue, hsettled⟩

theorem Settled.mono {v : Operand} (h : Settled b v) (hext : Extends b.module b'.module) :
    Settled b' v := fun p type heq =>
  Nat.lt_of_lt_of_le (h p type heq) (hext.length_le_of p.block)

/-- What operands need for a comparison. -/
structure Operands (m : Module) (b : Builder) (s : Machine) (l r : Typed) (x y : Value) : Prop where
  left : s.value? m l.operand = some x
  right : s.value? m r.operand = some y
  leftSettled : Settled b l.operand
  rightSettled : Settled b r.operand
  leftType : x.type = l.type
  rightType : y.type = r.type

/-- Widening both operands of a comparison. -/
theorem Operands.widen_gives (hready : Ready m b slots σ s) (hfill : Filling env slots b)
    {l r : Typed} {x y : Value} (h : Operands m b s l r x y) {target : Ty} {mid : Builder}
    {lw rw : Operand} (hleft : widen l target b = .ok (lw, mid))
    (hright : widen r target mid = .ok (rw, b')) (hext : Extends b'.module m) :
    ∃ n t, m.stepN n s = some t ∧ Gives m b b' slots s rw (y.widen target) σ t ∧
      t.value? m lw = some (x.widen target) := by
  obtain ⟨hfill₁, hext₁⟩ := hfill.next (widen_straight l target) hleft
  obtain ⟨hfill₂, hext₂⟩ := hfill₁.next (widen_straight r target) hright
  obtain ⟨n, t, hrun, hgives⟩ :=
    Lowering.widen_gives hready hfill hleft (hext₂.trans hext) h.left h.leftSettled h.leftType
  have hr : t.value? m r.operand = some y := (h.rightSettled.value?_eq hgives.keeps).trans h.right
  obtain ⟨k, u, hrun', hgives'⟩ := Lowering.widen_gives hgives.ready hfill₁ hright hext hr
    (h.rightSettled.mono hext₁) h.rightType
  exact ⟨n + k, u, Module.stepN_trans hrun hrun', hgives.trans hgives' hext₁⟩

/-- A comparison of widened operands. -/
theorem Operands.widened_simulates (hready : Ready m b slots σ s) (hfill : Filling env slots b)
    {l r : Typed} {x y : Value} (h : Operands m b s l r x y) {target : Ty} {b₁ b₂ : Builder}
    {lw rw w : Operand} (hleft : widen l target b = .ok (lw, b₁))
    (hright : widen r target b₁ = .ok (rw, b₂)) {i : Instr} {type : ValueType}
    (hemit : emit i type b₂ = .ok (w, b')) (hext : Extends b'.module m) {o : Option Value}
    (hexec : ∀ t : Machine, t.value? m lw = some (x.widen target) →
      t.value? m rw = some (y.widen target) → i.exec m t = o.map fun z => t.yield (.value z)) :
    Simulates m rounds s (Exec.require o σ) fun z σ' t => Gives m b b' slots s w z σ' t := by
  obtain ⟨hfill₁, hext₁⟩ := hfill.next (widen_straight l target) hleft
  obtain ⟨hfill₂, hext₂⟩ := hfill₁.next (widen_straight r target) hright
  obtain ⟨-, hext₃⟩ := hfill₂.next (emit_straight i type) hemit
  obtain ⟨n, t, hrun, hgives, hl⟩ :=
    h.widen_gives hready hfill hleft hright (hext₃.trans hext)
  refine .after hrun ((emit_simulates hgives.ready hfill₂ hemit hext
    (hexec t hl hgives.value)).weaken fun z σ' u _ hgives' => ?_)
  exact (hgives.trans hgives' (hext₁.trans hext₂)).1

/-- The code of a comparison compares. -/
theorem compare_simulates (hready : Ready m b slots σ s) (hfill : Filling env slots b)
    {op : BinaryOp} {how : Comparison} (hop : comparison? op = some how) {l r v : Typed}
    (h : compare how l r b = .ok (v, b')) (hext : Extends b'.module m) {x y : Value}
    (hoperands : Operands m b s l r x y)
    (horder : l.type = .bool → r.type = .bool → op.isOrder = false) :
    Simulates m rounds s (Exec.require ((Value.compare? op x y).map .bool) σ)
      fun z σ' t => Gives m b b' slots s v.operand z σ' t := by
  have hltype := hoperands.leftType
  have hrtype := hoperands.rightType
  unfold compare at h
  by_cases hfloat : l.type = .float ∨ r.type = .float
  · rw [if_pos hfloat] at h
    by_cases hnumeric : l.type.isNumeric = true ∧ r.type.isNumeric = true
    · rw [if_pos hnumeric] at h
      obtain ⟨lw, b₁, hleft, h⟩ := Lower.bind_eq_ok h
      obtain ⟨rw, b₂, hright, h⟩ := Lower.bind_eq_ok h
      obtain ⟨w, b₃, hemit, h⟩ := Lower.bind_eq_ok h
      cases h
      refine hoperands.widened_simulates hready hfill hleft hright hemit hext fun t hl hr => ?_
      rw [← hltype, ← hrtype] at hnumeric hfloat
      simp only [Instr.exec, hl, hr]
      rw [← Value.onFloats?_eq_compare? hop hnumeric.1 hnumeric.2 hfloat, Option.map_map]
      rfl
    · rw [if_neg hnumeric] at h
      cases h
  · rw [if_neg hfloat] at h
    rw [not_or] at hfloat
    by_cases htext : l.type = .string ∨ r.type = .string
    · rw [if_pos htext] at h
      cases h
    · rw [if_neg htext] at h
      rw [not_or] at htext
      by_cases hsame : l.type = r.type
      · rw [if_pos hsame] at h
        obtain ⟨w, b₁, hemit, h⟩ := Lower.bind_eq_ok h
        cases h
        refine emit_simulates hready hfill hemit hext ?_
        rw [← hltype] at hfloat htext horder
        rw [← hltype, ← hrtype] at hsame
        rw [← hrtype, ← hsame] at horder
        simp only [Instr.exec, hoperands.left, hoperands.right]
        rw [← Value.onWords?_eq_compare? hop hsame hfloat.1 htext.1 fun hb => horder hb hb,
          Option.map_map]
        rfl
      · rw [if_neg hsame] at h
        by_cases hnumeric : l.type.isNumeric = true ∧ r.type.isNumeric = true
        · rw [if_pos hnumeric] at h
          obtain ⟨lw, b₁, hleft, h⟩ := Lower.bind_eq_ok h
          obtain ⟨rw, b₂, hright, h⟩ := Lower.bind_eq_ok h
          obtain ⟨w, b₃, hemit, h⟩ := Lower.bind_eq_ok h
          cases h
          refine hoperands.widened_simulates hready hfill hleft hright hemit hext fun t hl hr => ?_
          have hinteger : ∀ {t : Ty}, t.isNumeric = true → t ≠ .float → t = .int ∨ t = .char := by
            intro t ht hne
            cases t <;> simp_all [Ty.isNumeric]
          rw [← hltype, ← hrtype] at hnumeric hfloat
          simp only [Instr.exec, hl, hr]
          rw [← Value.onWords?_widen_eq_compare? hop (hinteger hnumeric.1 hfloat.1)
            (hinteger hnumeric.2 hfloat.2), Option.map_map]
          rfl
        · rw [if_neg hnumeric] at h
          cases h

/-- Storing a value in a slot. -/
theorem store_steps (hplace : s.place = b.position) (hopen : b.IsOpen) {value slot : Operand}
    {u : Unit} (h : store value slot b = .ok (u, b')) (hext : Extends b'.module m) {x : Value}
    {a : Nat} (hvalue : s.value? m value = some x) (haddress : s.address? m slot = some a) :
    let t := { s with memory := s.memory.set a (some x) }.advance
    m.step s = some t ∧ t.place = b'.position := by
  unfold store at h
  split at h
  · have hadds := perform_adds hopen h
    constructor
    · rw [Module.step_of_instr (hplace ▸ hadds.found m hext)]
      simp only [Instr.exec, hvalue, haddress]
      rfl
    · rw [hadds.position, ← hplace]
      rfl
  · cases h

/-! ### Code of expressions -/

/-- Behind the code of an expression its operand has the value of the expression, which is of the
expression's type. -/
def Evaluated (m : Module) (b b' : Builder) (slots : Scopes Variable) (s : Machine) (v : Operand)
    (type : Ty) (x : Value) (σ : State) (t : Machine) : Prop :=
  Gives m b b' slots s v x σ t ∧ x.type = type

/-- Wherever the code of an expression stands in a module, it computes the value of the
expression. -/
def Computes (m : Module) (rounds : Nat) (env : Environment) (slots : Scopes Variable) (e : Expr)
    (type : Ty) : Prop :=
  ∀ ⦃b b' : Builder⦄ ⦃v : Typed⦄ ⦃σ : State⦄ ⦃s : Machine⦄, Filling env slots b →
    e.lower env b = .ok (v, b') → Extends b'.module m → Ready m b slots σ s →
    Simulates m rounds s (e.eval σ) (Evaluated m b b' slots s v.operand type)

/-- An operator applied to what code has computed. -/
theorem Gives.apply {mid : Builder} {v w : Operand} {x : Value} {type : Ty}
    (h : Gives m b mid slots s v x σ t) (hext : Extends b.module mid.module) {o : Option Value}
    (hsim : Simulates m rounds t (Exec.require o σ) (Gives m mid b' slots t w))
    (htype : ∀ z, o = some z → z.type = type) :
    Simulates m rounds t (Exec.require o σ) (Evaluated m b b' slots s w type) := by
  refine hsim.weaken fun z σ' u hdone hgives => ⟨(h.trans hgives hext).1, ?_⟩
  cases o with
  | none => cases hdone
  | some y =>
    cases hdone
    exact htype _ rfl

namespace Computes

variable {type t u : Ty}

theorem literal {kind : LiteralKind} {text : String} (htype : Ty.ofLiteral kind = type) :
    Computes m rounds env slots (.literal kind text) type := by
  subst htype
  intro b b' v σ s hfill h hext hready
  cases kind with
  | int =>
    simp only [Expr.lower, Lowering.literal] at h
    simp only [Expr.eval, Value.ofLiteral?]
    cases hread : readInt 32 text with
    | error e =>
      rw [hread] at h
      cases h
    | ok n =>
      rw [hread] at h
      cases h
      exact .pure ⟨.constant hready rfl rfl (by simp), rfl⟩
  | float =>
    simp only [Expr.lower, Lowering.literal] at h
    simp only [Expr.eval, Value.ofLiteral?]
    cases hread : readDouble text with
    | error e =>
      rw [hread] at h
      cases h
    | ok x =>
      rw [hread] at h
      cases h
      exact .pure ⟨.constant hready rfl rfl (by simp), rfl⟩
  | bool =>
    cases h
    exact .pure ⟨.constant hready rfl rfl (by simp), rfl⟩
  | string =>
    cases h
    obtain ⟨more, hmore⟩ := hext.texts
    have htext : m.texts[b.texts.length]? = some text := by
      simp only [Builder.module] at hmore
      rw [← hmore]
      simp
    refine .pure ⟨.constant hready (by rfl) ?_ (by simp), rfl⟩
    simp [Machine.value?, Machine.register?, htext]
  | other => cases h

theorem resolve_eq (hnamed : Named env slots b) {n : String} {x : Variable}
    (hn : slots.lookup n = some x) : resolve env n = pure x := by
  unfold resolve
  rw [hnamed.agree, hn]

theorem name {n : String} (hn : (slots.map Variable.type).lookup n = some type) :
    Computes m rounds env slots (.name n) type := by
  intro b b' v σ s hfill h hext hready
  rw [Scopes.lookup_map] at hn
  obtain ⟨x, hx, rfl⟩ := Option.map_eq_some_iff.mp hn
  simp only [Expr.lower, resolve_eq hfill.named hx, pure_bind] at h
  obtain ⟨w, mid, hemit, h⟩ := Lower.bind_eq_ok h
  cases h
  obtain ⟨y, hlookup, hcontent, htype⟩ := hready.holds.lookup hx
  obtain ⟨a, haddress, hmemory⟩ := Option.bind_eq_some_iff.mp hcontent
  have heval : (Expr.name n).eval σ = Exec.require (some y) σ := by
    rw [← hlookup]
    rfl
  rw [heval]
  have hexec : (Instr.load x.type.valueType x.slot).exec m s =
      (some y).map fun z => s.yield (.value z) := by
    simp [Instr.exec, haddress, hmemory, htype]
  refine (emit_simulates hready hfill hemit hext hexec).weaken fun z σ' t hdone hgives => ?_
  cases hdone
  exact ⟨hgives, htype⟩

theorem assign {target : String} {value : Expr}
    (htarget : (slots.map Variable.type).lookup target = some type)
    (hyields : Yields (value.lower env) (·.HasType type))
    (hvalue : Computes m rounds env slots value type) :
    Computes m rounds env slots (.assign target value) type := by
  intro b b' v σ s hfill h hext hready
  rw [Scopes.lookup_map] at htarget
  obtain ⟨x, hx, rfl⟩ := Option.map_eq_some_iff.mp htarget
  simp only [Expr.lower, resolve_eq hfill.named hx, pure_bind] at h
  obtain ⟨given, mid, hrun, h⟩ := Lower.bind_eq_ok h
  rw [widen_of_type_eq (hyields.of_ok hrun).1, pure_bind] at h
  obtain ⟨_, last, hstore, h⟩ := Lower.bind_eq_ok h
  cases h
  obtain ⟨hfill', hext'⟩ := hfill.next (lower_straight env value) hrun
  obtain ⟨-, hext''⟩ := hfill'.next (store_straight _ _) hstore
  refine (hvalue hfill hrun (hext''.trans hext) hready).bind fun y σ' t hy => ?_
  obtain ⟨hgives, hy⟩ := hy
  obtain ⟨w, hlookup, hcontent, -⟩ := hgives.ready.holds.lookup hx
  obtain ⟨a, haddress, -⟩ := Option.bind_eq_some_iff.mp hcontent
  obtain ⟨hstep, hplace⟩ :=
    store_steps hgives.ready.place hfill'.isOpen hstore hext hgives.value haddress
  have hread : Exec.read target σ' = .done (w, σ') := by
    rw [Exec.read, hlookup]
    rfl
  have hassign : Exec.assign target y σ' =
      .done ((), { σ' with scopes := σ'.scopes.assign target y }) := Exec.bind_of_done hread _
  rw [Exec.bind_of_done hassign]
  refine ⟨1, _, (m.stepN_one t).trans hstep, ⟨⟨hplace, hgives.ready.sound.step hstep, ?_, ?_⟩,
    ?_, ?_, ?_⟩, hy⟩
  · exact hgives.ready.holds.store hfill'.named hgives.ready.sound hx haddress hy
  · exact hgives.ready.trace
  · exact hgives.keeps
  · exact (hgives.settled.value?_eq fun _ _ => rfl).trans hgives.value
  · exact hgives.settled.mono hext''

/-- An operator in front of an operand. -/
theorem unary {op : UnaryOp} {operand : Expr} (hyields : Yields (operand.lower env) (·.HasType t))
    (hoperand : Computes m rounds env slots operand t)
    (hop : ∀ ⦃b b' : Builder⦄ ⦃v w : Typed⦄ ⦃σ : State⦄ ⦃s : Machine⦄ ⦃x : Value⦄,
      Filling env slots b → Lowering.unary op v b = .ok (w, b') → Extends b'.module m →
      Ready m b slots σ s → v.type = t → s.value? m v.operand = some x → x.type = t →
      Simulates m rounds s (Exec.require (x.unary? op) σ) (Gives m b b' slots s w.operand))
    (htype : ∀ x z : Value, x.type = t → x.unary? op = some z → z.type = type) :
    Computes m rounds env slots (.unary op operand) type := by
  intro b b' v σ s hfill h hext hready
  obtain ⟨w, mid, hrun, h⟩ := Lower.bind_eq_ok h
  obtain ⟨hfill', hext'⟩ := hfill.next (lower_straight env operand) hrun
  obtain ⟨-, hext''⟩ := hfill'.next (unary_straight op w) h
  refine (hoperand hfill hrun (hext''.trans hext) hready).bind fun x σ' u ⟨hgives, hx⟩ => ?_
  exact hgives.apply hext'
    (hop hfill' h hext hgives.ready (hyields.of_ok hrun).1 hgives.value hx) (htype x · hx)

/-- An operator between two operands. -/
theorem binary {op : BinaryOp} {left right : Expr}
    (hyieldsLeft : Yields (left.lower env) (·.HasType t))
    (hyieldsRight : Yields (right.lower env) (·.HasType u))
    (hleft : Computes m rounds env slots left t) (hright : Computes m rounds env slots right u)
    (hop : ∀ ⦃b b' : Builder⦄ ⦃l r v : Typed⦄ ⦃σ : State⦄ ⦃s : Machine⦄ ⦃x y : Value⦄,
      Filling env slots b → Lowering.binary op l r b = .ok (v, b') → Extends b'.module m →
      Ready m b slots σ s → l.type = t → r.type = u → Operands m b s l r x y →
      Simulates m rounds s (Exec.require (x.binary? op y) σ) (Gives m b b' slots s v.operand))
    (htype : ∀ x y z : Value, x.type = t → x.binary? op y = some z → z.type = type) :
    Computes m rounds env slots (.binary op left right) type := by
  intro b b' v σ s hfill h hext hready
  obtain ⟨l, b₁, hrunLeft, h⟩ := Lower.bind_eq_ok h
  obtain ⟨r, b₂, hrunRight, h⟩ := Lower.bind_eq_ok h
  obtain ⟨hfill₁, hext₁⟩ := hfill.next (lower_straight env left) hrunLeft
  obtain ⟨hfill₂, hext₂⟩ := hfill₁.next (lower_straight env right) hrunRight
  obtain ⟨-, hext₃⟩ := hfill₂.next (binary_straight op l r) h
  have hl := (hyieldsLeft.of_ok hrunLeft).1
  have hr := (hyieldsRight.of_ok hrunRight).1
  refine (hleft hfill hrunLeft (hext₂.trans (hext₃.trans hext)) hready).bind
    fun x σ₁ s₁ ⟨hgives₁, hx⟩ => ?_
  refine (hright hfill₁ hrunRight (hext₃.trans hext) hgives₁.ready).bind
    fun y σ₂ s₂ ⟨hgives₂, hy⟩ => ?_
  -- the code of the right operand leaves the left one alone
  obtain ⟨hgives, hvalue⟩ := hgives₁.trans hgives₂ hext₁
  have hoperands : Operands m b₂ s₂ l r x y :=
    ⟨hvalue, hgives₂.value, hgives₁.settled.mono hext₂, hgives₂.settled, hx.trans hl.symm,
      hy.trans hr.symm⟩
  exact hgives.apply (hext₁.trans hext₂)
    (hop hfill₂ h hext hgives₂.ready hl hr hoperands) (htype x y · hx)

end Computes

/-- The code of a well-typed expression computes its value. -/
theorem lower_computes {e : Expr} {type : Ty} (henv : EnvTyped env (slots.map Variable.type))
    (htype : HasType (slots.map Variable.type) e type) (hwf : e.WellFormed)
    (horder : e.ordersTruths (slots.map Variable.type) = false) :
    Computes m rounds env slots e type := by
  induction htype with
  | int | float | bool | string => exact .literal rfl
  | name hn => exact .name hn
  | assign htarget hvalue ih =>
    exact .assign htarget (lower_yields henv hvalue hwf) (ih hwf horder)
  | group _ ih => exact ih hwf horder
  | negate hoperand ht ih =>
    refine .unary (lower_yields henv hoperand hwf.2.1) (ih hwf.2.1 horder) ?_ ?_
    · intro b b' v w σ s x hfill h hext hready hv hvalue hx
      rcases ht with rfl | rfl
      · cases x <;> cases hx
        simp only [unary, hv] at h
        exact compute_simulates hready hfill h hext rfl hvalue
      · cases x <;> cases hx
        simp only [unary, hv] at h
        exact compute_simulates hready hfill h hext rfl hvalue
    · rintro x z rfl hz
      cases x <;> cases hz <;> rfl
  | not hoperand ih =>
    refine .unary (lower_yields henv hoperand hwf.2.1) (ih hwf.2.1 horder) ?_ ?_
    · intro b b' v w σ s x hfill h hext hready hv hvalue hx
      cases x <;> cases hx
      next c =>
      simp only [unary, hv] at h
      have hnot : Value.unary? .not (.bool c) = Operation.xor.result? (.bool c) (.bool true) := by
        cases c <;> rfl
      rw [hnot]
      exact compute_simulates hready hfill h hext hvalue rfl
    · rintro x z hx hz
      cases x <;> cases hz
      rfl
  | @arithmetic op left right t hop hleft hright ihleft ihright =>
    simp only [Expr.ordersTruths, Bool.or_eq_false_iff] at horder
    have hbinary : ∀ x y : Value, x.binary? op y = Value.arithmetic? op x y := fun x y =>
      if_pos (BinaryOp.isArithmetic_iff.mpr hop)
    refine .binary (lower_yields henv hleft hwf.2.1) (lower_yields henv hright hwf.2.2.1)
      (ihleft hwf.2.1 horder.1.2) (ihright hwf.2.2.1 horder.2) ?_ ?_
    · intro b b' l r v σ s x y hfill h hext hready hl hr hoperands
      rw [binary_of_arithmetic hop, arithmetic, if_neg (by simp [hl, hr])] at h
      rw [hbinary]
      cases hoperation : arithmeticOperation? op l.type with
      | none =>
        rw [hoperation] at h
        cases h
      | some operation =>
        rw [hoperation] at h
        rw [← Value.result?_eq_arithmetic? hoperation hoperands.leftType
          (hoperands.rightType.trans (hr.trans hl.symm))]
        exact compute_simulates hready hfill h hext hoperands.left hoperands.right
    · intro x y z hx hz
      rw [hbinary] at hz
      exact (Value.arithmetic?_type hz).trans hx
  | @comparison op left right t u hop hleft hright ihleft ihright =>
    simp only [Expr.ordersTruths, Bool.or_eq_false_iff, hleft.type_eq, hright.type_eq] at horder
    obtain ⟨how, hhow, hcode⟩ := binary_of_comparison hop
    refine .binary (lower_yields henv hleft hwf.2.1) (lower_yields henv hright hwf.2.2.1)
      (ihleft hwf.2.1 horder.1.2) (ihright hwf.2.2.1 horder.2) ?_ ?_
    · intro b b' l r v σ s x y hfill h hext hready hl hr hoperands
      rw [hcode] at h
      rw [Value.binary?_of_comparison hhow]
      refine compare_simulates hready hfill hhow h hext hoperands fun hlbool hrbool => ?_
      have hhere := horder.1.1
      rw [← hl, ← hr, hlbool, hrbool] at hhere
      simpa using hhere
    · intro x y z _ hz
      rw [Value.binary?_of_comparison hhow] at hz
      obtain ⟨c, -, rfl⟩ := Option.map_eq_some_iff.mp hz
      rfl
  | @logical op left right hop hleft hright ihleft ihright =>
    simp only [Expr.ordersTruths, Bool.or_eq_false_iff] at horder
    refine .binary (lower_yields henv hleft hwf.2.1) (lower_yields henv hright hwf.2.2.1)
      (ihleft hwf.2.1 horder.1.2) (ihright hwf.2.2.1 horder.2) ?_ ?_
    · intro b b' l r v σ s x y hfill h hext hready hl hr hoperands
      rw [binary_of_logical hop hl hr] at h
      have hx := hoperands.leftType.trans hl
      have hy := hoperands.rightType.trans hr
      have happly : x.binary? op y =
          Operation.result? (if op = .and then .and else .or) x y := by
        cases x <;> cases hx
        cases y <;> cases hy
        next a c => cases op <;> simp at hop <;> cases a <;> cases c <;> rfl
      rw [happly]
      exact compute_simulates hready hfill h hext hoperands.left hoperands.right
    · intro x y z hx hz
      cases x <;> cases hx
      cases y <;> cases op <;> simp at hop <;> cases hz <;> rfl

end Lowering

end Binisaya
