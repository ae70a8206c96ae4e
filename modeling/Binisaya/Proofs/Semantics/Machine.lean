import Binisaya.Lowering.Expr
import Binisaya.Proofs.Semantics.Value

/-!
# Running modules

What the main function of a module does, instruction by instruction.  A `Machine` knows the place of
the next instruction, the results so far, the slots that have been reserved with what they hold, and
what has been printed.  Where an instruction has no meaning there is no next state: a quotient may
be undefined, and a slot may hold nothing yet.  `Module.Returns` says that the main function comes
to its end.
-/

namespace Binisaya

namespace Llvm

/-! ### Operations on values -/

namespace Operation

/-- An operation on words.  Sums, differences and products wrap around. -/
def onWords? {w : Nat} (a b : BitVec w) : Operation → Option (BitVec w)
  | add => some (a + b)
  | sub => some (a - b)
  | mul => some (a * b)
  | sdiv => signedQuotient? a b
  | and => some (a &&& b)
  | or => some (a ||| b)
  | xor => some (a ^^^ b)
  | _ => none

/-- An operation on floating point numbers. -/
def onFloats? (x y : Binary64) : Operation → Option Binary64
  | fadd => some (x.add y)
  | fsub => some (x.sub y)
  | fmul => some (x.mul y)
  | fdiv => some (x.div y)
  | _ => none

/-- The result of an operation.  A truth value is a word of one bit. -/
def result? (op : Operation) : Value → Value → Option Value
  | .int a, .int b => (op.onWords? a b).map .int
  | .char a, .char b => (op.onWords? a b).map .char
  | .bool a, .bool b =>
    (op.onWords? (BitVec.ofBool a) (BitVec.ofBool b)).map fun c => .bool (c == 1#1)
  | .float x, .float y => (op.onFloats? x y).map .float
  | _, _ => none

end Operation

namespace Comparison

/-- Whether a comparison holds of two values in the given order. -/
def holds (o : Ordering) : Comparison → Bool
  | equal => o.isEq
  | notEqual => o.isNe
  | less => o.isLT
  | lessEqual => o.isLE
  | greater => o.isGT
  | greaterEqual => o.isGE

/-- Compares words of one width, as signed numbers. -/
def onWords? (how : Comparison) : Value → Value → Option Bool
  | .int a, .int b => some (how.holds (compare a.toInt b.toInt))
  | .char a, .char b => some (how.holds (compare a.toInt b.toInt))
  | .bool a, .bool b =>
    some (how.holds (compare (BitVec.ofBool a).toInt (BitVec.ofBool b).toInt))
  | _, _ => none

/-- Compares floating point numbers. -/
def onFloats? (how : Comparison) : Value → Value → Option Bool
  | .float x, .float y => some ((x.order y).any fun o => how.holds o)
  | _, _ => none

end Comparison

/-- Converts a value to a type. -/
def Conversion.result? : Conversion → Value → ValueType → Option Value
  | sext, .char n, .i32 => some (.int (n.signExtend 32))
  | zext, .bool b, .i32 => some (.int ((BitVec.ofBool b).setWidth 32))
  | sitofp, .int n, .double => some (.float (.ofInt n.toInt))
  | sitofp, .char n, .double => some (.float (.ofInt n.toInt))
  | _, _, _ => none

/-! ### Machines -/

/-- What an instruction can result in. -/
inductive Register where
  | value (v : Value)
  /-- The number of a slot. -/
  | address (a : Nat)
  deriving DecidableEq, Repr

/-- A main function in the middle of its execution. -/
structure Machine where
  /-- The place of the next instruction, or the end of a block. -/
  place : Place
  results : Place → Option Register
  /-- The slots in the order in which they were reserved, each with what it holds. -/
  memory : List (Option Value)
  trace : List Event

/-- The place behind another one in the same block. -/
def Place.next (p : Place) : Place := ⟨p.block, p.index + 1⟩

namespace Machine

/-- The start of the entry, where nothing has happened. -/
def initial : Machine := ⟨⟨0, 0⟩, fun _ => none, [], []⟩

/-- What an operand stands for. -/
def register? (m : Module) (s : Machine) : Operand → Option Register
  | .i32 n => some (.value (.int (.ofInt 32 n)))
  | .i8 n => some (.value (.char (.ofInt 8 n)))
  | .i1 b => some (.value (.bool b))
  | .double x => some (.value (.float x))
  | .null => some (.value (.text none))
  | .text i _ => (m.texts[i]?).map fun t => .value (.text (some t))
  | .result place _ => s.results place

/-- The value that an operand stands for. -/
def value? (m : Module) (s : Machine) (x : Operand) : Option Value :=
  match s.register? m x with
  | some (.value v) => some v
  | _ => none

/-- The slot that an operand stands for. -/
def address? (m : Module) (s : Machine) (x : Operand) : Option Nat :=
  match s.register? m x with
  | some (.address a) => some a
  | _ => none

/-- Goes on to the next instruction. -/
def advance (s : Machine) : Machine := { s with place := s.place.next }

/-- Goes on to the next instruction with a result of this one. -/
def yield (s : Machine) (r : Register) : Machine :=
  { s with place := s.place.next, results := fun p => if p = s.place then some r else s.results p }

/-- Goes on with a block. -/
def goto (s : Machine) (block : Nat) : Machine := { s with place := ⟨block, 0⟩ }

end Machine

/-- Executes an instruction. -/
def Instr.exec (m : Module) (s : Machine) : Instr → Option Machine
  | alloca _ => some ({ s with memory := s.memory ++ [none] }.yield (.address s.memory.length))
  | store value slot => do
    let v ← s.value? m value
    let a ← s.address? m slot
    some { s with memory := s.memory.set a (some v) }.advance
  | load type slot => do
    let a ← s.address? m slot
    let v ← (s.memory[a]?).join
    if v.type.valueType = type then some (s.yield (.value v)) else none
  | operate op left right => do
    let v ← s.value? m left
    let w ← s.value? m right
    (op.result? v w).map fun x => s.yield (.value x)
  | icmp how left right => do
    let v ← s.value? m left
    let w ← s.value? m right
    (how.onWords? v w).map fun b => s.yield (.value (.bool b))
  | fcmp how left right => do
    let v ← s.value? m left
    let w ← s.value? m right
    (how.onFloats? v w).map fun b => s.yield (.value (.bool b))
  | convert op value type => do
    let v ← s.value? m value
    (op.result? v type).map fun x => s.yield (.value x)
  | call helper argument => do
    let v ← s.value? m argument
    if v.type.valueType = helper.argument then
      some { s with trace := s.trace ++ [(helper, v)] }.advance
    else none

namespace Module

/-- The instruction at a place. -/
def instr? (m : Module) (p : Place) : Option Instr := (m.blocks[p.block]?).bind (·.instrs[p.index]?)

/-- How a block ends, if a place is at its end. -/
def end? (m : Module) (p : Place) : Option Terminator :=
  (m.blocks[p.block]?).bind fun b => if p.index = b.instrs.length then b.terminator else none

/-- Takes the end of a block.  There is nothing behind the end of the program. -/
def leave (m : Module) (s : Machine) : Terminator → Option Machine
  | .jump target => some (s.goto target)
  | .branch condition whenTrue whenFalse =>
    match s.value? m condition with
    | some (.bool b) => some (s.goto (if b then whenTrue else whenFalse))
    | _ => none
  | .ret => none

/-- The next state. -/
def step (m : Module) (s : Machine) : Option Machine :=
  match m.instr? s.place with
  | some i => i.exec m s
  | none => (m.end? s.place).bind (m.leave s)

/-- The state after a number of steps. -/
def stepN (m : Module) : Nat → Machine → Option Machine
  | 0, s => some s
  | n + 1, s => (m.step s).bind (m.stepN n)

/-- The program ends here. -/
def AtReturn (m : Module) (s : Machine) : Prop := m.end? s.place = some .ret

/-- The main function comes to its end and has then printed `trace`. -/
def Returns (m : Module) (trace : List Event) : Prop :=
  ∃ n s, m.stepN n .initial = some s ∧ m.AtReturn s ∧ s.trace = trace

/-! ### Runs -/

theorem stepN_add (m : Module) (n k : Nat) (s : Machine) :
    m.stepN (n + k) s = (m.stepN n s).bind (m.stepN k) := by
  induction n generalizing s with
  | zero => simp [stepN]
  | succ n ih =>
    rw [Nat.succ_add, stepN, stepN]
    cases m.step s with
    | none => rfl
    | some t => exact ih t

theorem stepN_trans {m : Module} {n k : Nat} {s t u : Machine} (h : m.stepN n s = some t)
    (h' : m.stepN k t = some u) : m.stepN (n + k) s = some u := by
  rw [stepN_add, h]
  exact h'

theorem stepN_one (m : Module) (s : Machine) : m.stepN 1 s = m.step s := by
  rw [stepN]
  cases m.step s <;> rfl

/-- No run goes beyond a state without a next one. -/
theorem stepN_le {m : Module} {n k : Nat} {s t u : Machine} (h : m.stepN n s = some t)
    (hlast : m.step t = none) (h' : m.stepN k s = some u) : k ≤ n := by
  apply Nat.le_of_not_lt
  intro hlt
  obtain ⟨d, rfl⟩ : ∃ d, k = n + (d + 1) := ⟨k - n - 1, by omega⟩
  rw [stepN_add, h, Option.bind_some, stepN, hlast] at h'
  cases h'

/-- All runs end in one state. -/
theorem stepN_last_unique {m : Module} {n k : Nat} {s t u : Machine} (h : m.stepN n s = some t)
    (hlast : m.step t = none) (h' : m.stepN k s = some u) (hlast' : m.step u = none) : t = u := by
  obtain rfl : n = k := Nat.le_antisymm (stepN_le h' hlast' h) (stepN_le h hlast h')
  exact Option.some.inj (h.symm.trans h')

theorem instr?_eq_none_of_end {m : Module} {p : Place} {t : Terminator} (h : m.end? p = some t) :
    m.instr? p = none := by
  unfold end? at h
  unfold instr?
  cases hblock : m.blocks[p.block]? with
  | none => rfl
  | some b =>
    rw [hblock, Option.bind_some] at h
    split at h
    · next hindex => simp [hindex]
    · cases h

theorem step_of_instr {m : Module} {s : Machine} {i : Instr} (h : m.instr? s.place = some i) :
    m.step s = i.exec m s := by
  rw [step, h]

theorem step_of_end {m : Module} {s : Machine} {t : Terminator} (h : m.end? s.place = some t) :
    m.step s = m.leave s t := by
  rw [step, instr?_eq_none_of_end h, h]
  rfl

theorem AtReturn.step {m : Module} {s : Machine} (h : m.AtReturn s) : m.step s = none :=
  step_of_end h

/-- All that an instruction can do which reserves no slot. -/
theorem exec_cases {m : Module} {s t : Machine} {i : Instr} (h : i.exec m s = some t)
    (hi : ∀ type, i ≠ .alloca type) :
    (∃ v, t = s.yield (.value v)) ∨ (∃ a v, t = { s with memory := s.memory.set a v }.advance) ∨
      ∃ e, t = { s with trace := s.trace ++ [e] }.advance := by
  cases i with
  | alloca type => exact absurd rfl (hi type)
  | store value slot =>
    obtain ⟨v, -, h⟩ := Option.bind_eq_some_iff.mp h
    obtain ⟨a, -, h⟩ := Option.bind_eq_some_iff.mp h
    exact .inr (.inl ⟨a, some v, (Option.some.inj h).symm⟩)
  | load type slot =>
    obtain ⟨a, -, h⟩ := Option.bind_eq_some_iff.mp h
    obtain ⟨v, -, h⟩ := Option.bind_eq_some_iff.mp h
    split at h
    · exact .inl ⟨v, (Option.some.inj h).symm⟩
    · cases h
  | operate op left right | icmp how left right | fcmp how left right =>
    obtain ⟨v, -, h⟩ := Option.bind_eq_some_iff.mp h
    obtain ⟨w, -, h⟩ := Option.bind_eq_some_iff.mp h
    obtain ⟨x, -, rfl⟩ := Option.map_eq_some_iff.mp h
    exact .inl ⟨_, rfl⟩
  | convert op value type =>
    obtain ⟨v, -, h⟩ := Option.bind_eq_some_iff.mp h
    obtain ⟨x, -, rfl⟩ := Option.map_eq_some_iff.mp h
    exact .inl ⟨x, rfl⟩
  | call helper argument =>
    obtain ⟨v, -, h⟩ := Option.bind_eq_some_iff.mp h
    split at h
    · exact .inr (.inr ⟨_, (Option.some.inj h).symm⟩)
    · cases h

/-- The end of a block leads to the start of a block. -/
theorem leave_cases {m : Module} {s t : Machine} {e : Terminator} (h : m.leave s e = some t) :
    ∃ block, t = s.goto block := by
  cases e with
  | jump target => exact ⟨target, (Option.some.inj h).symm⟩
  | branch condition whenTrue whenFalse =>
    rw [leave] at h
    split at h
    · exact ⟨_, (Option.some.inj h).symm⟩
    · cases h
  | ret => cases h

/-! ### Slots -/

/-- Slots are told apart by the instructions that reserve them, and behind a slot's reservation in
the entry, as in every other block, there is the slot. -/
structure Sound (m : Module) (s : Machine) : Prop where
  bounded : ∀ p a, s.results p = some (.address a) → a < s.memory.length
  distinct : ∀ p q a, s.results p = some (.address a) → s.results q = some (.address a) → p = q
  reserved : ∀ i type, m.instr? ⟨0, i⟩ = some (.alloca type) →
    (s.place.block = 0 → i < s.place.index) → ∃ a, s.results ⟨0, i⟩ = some (.address a)

theorem Sound.initial (m : Module) : m.Sound .initial := by
  refine ⟨nofun, nofun, ?_⟩
  intro i type _ hi
  exact absurd (hi rfl) (Nat.not_lt_zero i)

/-- Behind an instruction of the entry there is one more slot at most: the one that it reserves. -/
theorem Sound.reserved_next {m : Module} {s : Machine} (h : m.Sound s) {i : Nat} {type : ValueType}
    (hi : m.instr? ⟨0, i⟩ = some (.alloca type))
    (hbefore : s.place.next.block = 0 → i < s.place.next.index) :
    m.instr? s.place = some (.alloca type) ∧ (⟨0, i⟩ : Place) = s.place ∨
      (⟨0, i⟩ : Place) ≠ s.place ∧ ∃ a, s.results ⟨0, i⟩ = some (.address a) := by
  by_cases hplace : (⟨0, i⟩ : Place) = s.place
  · exact .inl ⟨hplace ▸ hi, hplace⟩
  · refine .inr ⟨hplace, h.reserved i type hi fun hblock => ?_⟩
    have hlt := hbefore hblock
    have hne : i ≠ s.place.index := by
      intro hindex
      exact hplace (by rw [hindex, ← hblock])
    simp only [Place.next] at hlt
    omega

theorem Sound.alloca {m : Module} {s : Machine} (h : m.Sound s) :
    m.Sound ({ s with memory := s.memory ++ [none] }.yield (.address s.memory.length)) := by
  refine ⟨?_, ?_, ?_⟩
  · intro p a hp
    simp only [Machine.yield, List.length_append, List.length_singleton] at hp ⊢
    split at hp
    · cases hp
      omega
    · exact Nat.lt_succ_of_lt (h.bounded p a hp)
  · intro p q a hp hq
    simp only [Machine.yield] at hp hq
    -- the new address is above all others
    split at hp <;> split at hq
    · next hp' hq' => exact hp'.trans hq'.symm
    · cases hp
      exact absurd (h.bounded q _ hq) (Nat.lt_irrefl _)
    · cases hq
      exact absurd (h.bounded p _ hp) (Nat.lt_irrefl _)
    · exact h.distinct p q a hp hq
  · intro i type hi hbefore
    rcases h.reserved_next hi hbefore with ⟨-, hplace⟩ | ⟨hplace, a, ha⟩
    · exact ⟨s.memory.length, by simp [Machine.yield, hplace]⟩
    · exact ⟨a, by simpa [Machine.yield, hplace] using ha⟩

theorem Sound.yield_value {m : Module} {s : Machine} (h : m.Sound s) {i : Instr}
    (hinstr : m.instr? s.place = some i) (hi : ∀ type, i ≠ .alloca type) (v : Value) :
    m.Sound (s.yield (.value v)) := by
  have hold : ∀ p a, (s.yield (.value v)).results p = some (.address a) →
      s.results p = some (.address a) := by
    intro p a hp
    simp only [Machine.yield] at hp
    split at hp
    · cases hp
    · exact hp
  refine ⟨fun p a hp => h.bounded p a (hold p a hp),
    fun p q a hp hq => h.distinct p q a (hold p a hp) (hold q a hq), ?_⟩
  intro j type hj hbefore
  rcases h.reserved_next hj hbefore with ⟨hplace, -⟩ | ⟨hplace, a, ha⟩
  · exact absurd (Option.some.inj (hinstr.symm.trans hplace)) (hi type)
  · exact ⟨a, by simpa [Machine.yield, hplace] using ha⟩

/-- An instruction without a result leaves as many slots as there were. -/
theorem Sound.advance {m : Module} {s t : Machine} (h : m.Sound s) {i : Instr}
    (hinstr : m.instr? s.place = some i) (hi : ∀ type, i ≠ .alloca type)
    (hresults : t.results = s.results) (hplace : t.place = s.place)
    (hmemory : t.memory.length = s.memory.length) : m.Sound t.advance := by
  refine ⟨?_, ?_, ?_⟩
  · intro p a hp
    simp only [Machine.advance, hresults, hmemory] at hp ⊢
    exact h.bounded p a hp
  · intro p q a hp hq
    simp only [Machine.advance, hresults] at hp hq
    exact h.distinct p q a hp hq
  · intro j type hj hbefore
    simp only [Machine.advance, hplace, hresults] at hbefore ⊢
    rcases h.reserved_next hj hbefore with ⟨hhere, -⟩ | ⟨-, ha⟩
    · exact absurd (Option.some.inj (hinstr.symm.trans hhere)) (hi type)
    · exact ha

/-- At the end of the entry all slots are there. -/
theorem Sound.goto {m : Module} {s : Machine} (h : m.Sound s) {e : Terminator}
    (hend : m.end? s.place = some e) (block : Nat) : m.Sound (s.goto block) := by
  refine ⟨h.bounded, h.distinct, ?_⟩
  intro i type hi _
  refine h.reserved i type hi fun hblock => ?_
  unfold instr? at hi
  unfold end? at hend
  rw [hblock] at hend
  cases hentry : m.blocks[0]? with
  | none =>
    rw [hentry] at hend
    cases hend
  | some x =>
    rw [hentry, Option.bind_some] at hi hend
    split at hend
    · next hindex =>
      rw [hindex]
      exact (List.getElem?_eq_some_iff.mp hi).1
    · cases hend

/-- Every step keeps slots apart. -/
theorem Sound.step {m : Module} {s t : Machine} (h : m.Sound s) (hstep : m.step s = some t) :
    m.Sound t := by
  cases hinstr : m.instr? s.place with
  | none =>
    rw [Module.step, hinstr] at hstep
    obtain ⟨e, hend, hleave⟩ := Option.bind_eq_some_iff.mp hstep
    obtain ⟨block, rfl⟩ := leave_cases hleave
    exact h.goto hend block
  | some i =>
    rw [step_of_instr hinstr] at hstep
    by_cases hi : ∃ type, i = .alloca type
    · obtain ⟨type, rfl⟩ := hi
      obtain rfl := Option.some.inj hstep
      exact h.alloca
    · have hi' : ∀ type, i ≠ .alloca type := fun type heq => hi ⟨type, heq⟩
      rcases exec_cases hstep hi' with ⟨v, rfl⟩ | ⟨a, v, rfl⟩ | ⟨e, rfl⟩
      · exact h.yield_value hinstr hi' v
      · exact h.advance hinstr hi' rfl rfl (by simp)
      · exact h.advance hinstr hi' rfl rfl rfl

theorem Sound.stepN {m : Module} {n : Nat} {s t : Machine} (h : m.Sound s)
    (hrun : m.stepN n s = some t) : m.Sound t := by
  induction n generalizing s with
  | zero =>
    obtain rfl := Option.some.inj hrun
    exact h
  | succ n ih =>
    obtain ⟨u, hstep, hrest⟩ := Option.bind_eq_some_iff.mp hrun
    exact ih (h.step hstep) hrest

end Module

end Llvm

end Binisaya
