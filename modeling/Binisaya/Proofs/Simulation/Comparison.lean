import Binisaya.Proofs.Lowering.Tracing
import Binisaya.Proofs.Simulation.Stmt

/-!
# Comparisons and what is printed

Printing hands a number on to the general print function: an integer as it is, a character widened
with its sign, a truth value as 0 or 1.  A comparison computes a truth value from operands of the
same types.  Main statement: its code says of the operands what the operator says of the numbers
that are printed for them, except that two truth values are put in order the other way round.  As
signed words of one bit they are 0 and -1, so that the true value comes before the false one.
-/

namespace Binisaya

open Llvm Lowering

/-- The number that a helper hands on.  A character is widened with its sign. -/
def Llvm.Helper.handed? : Helper → Value → Option Int
  | .printInt, .int n => some n.toInt
  | .printChar, .char n => some (n.signExtend 32).toInt
  | _, _ => none

/-- The number that is handed on when a value is printed. -/
def Value.handed? (x : Value) : Option Int := x.printed.1.handed? x.printed.2

namespace BinaryOp

/-- Whether a comparison holds of two numbers. -/
def relates (i j : Int) : BinaryOp → Bool
  | equal => i = j
  | notEqual => i ≠ j
  | less => i < j
  | lessEqual => i ≤ j
  | greater => j < i
  | greaterEqual => j ≤ i
  | _ => false

theorem holds_compare (op : BinaryOp) (i j : Int) : op.holds (compare i j) = op.relates i j := by
  rw [Int.compare_eq_ite_lt]
  by_cases hlt : i < j
  · rw [if_pos hlt]
    cases op <;> simp [holds, relates] <;> omega
  · rw [if_neg hlt]
    by_cases hgt : j < i
    · rw [if_pos hgt]
      cases op <;> simp [holds, relates] <;> omega
    · rw [if_neg hgt]
      cases op <;> simp [holds, relates] <;> omega

/-- Only a comparison that asks for an order tells its operands apart. -/
theorem relates_comm {op : BinaryOp} (h : op.isOrder = false) (i j : Int) :
    op.relates i j = op.relates j i := by
  cases op <;> simp_all [isOrder, relates, eq_comm]

end BinaryOp

/-- The types of operands that are compared as words. -/
def Ty.wordPairs : List (Ty × Ty) :=
  [(int, int), (int, char), (char, int), (char, char), (bool, bool)]

namespace Lowering

variable {m : Module} {b b' : Builder} {s : Machine}

/-- The code that prints `v`, wherever it stands, hands `i` on where the operand has the value
`x`. -/
def Prints (v : Typed) (x : Value) (i : Int) : Prop :=
  ∀ b, b.IsOpen → ∃ b', print v b = .ok ((), b') ∧
    ∀ m s, Extends b'.module m → m.Sound s → s.place = b.position →
      s.value? m v.operand = some x →
        ∃ n t helper y, m.stepN n s = some t ∧ t.place = b'.position ∧
          t.trace = s.trace ++ [(helper, y)] ∧ helper.handed? y = some i

/-- A machine stands for a program without variables that has printed what the machine has. -/
theorem Ready.withoutNames (hsound : m.Sound s) (hplace : s.place = b.position) :
    Ready m b .initial ⟨.initial, s.trace⟩ s :=
  ⟨hplace, hsound, .initial _, rfl⟩

theorem Filling.withoutNames (hopen : b.IsOpen) : Filling [] .initial b :=
  ⟨⟨fun _ => rfl, by simp, by simp⟩, hopen⟩

theorem print_prints {v : Typed} {x : Value} {i : Int} (htype : x.type = v.type)
    (hi : x.handed? = some i) : Prints v x i := by
  intro b hopen
  have hcode : ∃ b', print v b = .ok ((), b') := by
    unfold print
    rw [← htype]
    cases x <;> exact ⟨_, rfl⟩
  obtain ⟨b', hprint⟩ := hcode
  refine ⟨b', hprint, ?_⟩
  intro m s hext hsound hplace hvalue
  obtain ⟨n, t, hrun, hready⟩ :=
    print_steps (.withoutNames hsound hplace) (.withoutNames hopen) hprint hext hvalue htype
  exact ⟨n, t, x.printed.1, x.printed.2, hrun, hready.place, hready.trace, hi⟩

/-! ### The two kinds of comparison -/

/-- Numbers compare as they are printed. -/
theorem compare?_eq_relates {op : BinaryOp} {x y : Value}
    (hx : x.type = .int ∨ x.type = .char) (hy : y.type = .int ∨ y.type = .char) :
    ∃ i j, x.handed? = some i ∧ y.handed? = some j ∧
      Value.compare? op x y = some (op.relates i j) := by
  have hextend : ∀ n : BitVec 8, (n.signExtend 32).toInt = n.toInt := fun n =>
    BitVec.toInt_signExtend_of_le (by decide)
  cases x <;> simp [Value.type] at hx <;> cases y <;> simp [Value.type] at hy <;>
    refine ⟨_, _, rfl, rfl, ?_⟩ <;>
    simp only [hextend, ← BinaryOp.holds_compare] <;> rfl

/-- As signed words truth values are in the opposite order of the numbers that are printed. -/
theorem onWords?_truths {op : BinaryOp} {how : Comparison} (hop : comparison? op = some how)
    (a c : Bool) :
    ∃ i j, (Value.bool a).handed? = some i ∧ (Value.bool c).handed? = some j ∧
      how.onWords? (.bool a) (.bool c) = some (op.relates j i) := by
  refine ⟨_, _, rfl, rfl, ?_⟩
  cases op <;> cases hop <;> cases a <;> cases c <;> rfl

/-! ### The code of a comparison -/

/-- A comparison of two values which are no floating point numbers has code exactly if both are
integers or characters, or both truth values. -/
theorem compare_accepts_iff (how : Comparison) {l r : Typed} (hl : l.type ∉ [.float, .unknown])
    (hr : r.type ∉ [.float, .unknown]) (b : Builder) :
    (∃ v b', compare how l r b = .ok (v, b')) ↔ (l.type, r.type) ∈ Ty.wordPairs := by
  obtain ⟨lv, lt⟩ := l
  obtain ⟨rv, rt⟩ := r
  constructor
  · rintro ⟨v, b', h⟩
    by_contra hpair
    have hno : lt = .string ∨ rt = .string ∨ (lt = .bool ∧ rt.isNumeric = true) ∨
        (lt.isNumeric = true ∧ rt = .bool) := by
      cases lt <;> cases rt <;> simp_all [Ty.isNumeric, Ty.wordPairs]
    have hfails : ∃ e, compare how ⟨lv, lt⟩ ⟨rv, rt⟩ b = .error e ∧ e.Unsupported :=
      compare_fails how rfl rfl hno b
    obtain ⟨e, he, -⟩ := hfails
    rw [he] at h
    cases h
  · intro hpair
    simp only [Ty.wordPairs, List.mem_cons, Prod.mk.injEq, List.not_mem_nil, or_false] at hpair
    rcases hpair with ⟨rfl, rfl⟩ | ⟨rfl, rfl⟩ | ⟨rfl, rfl⟩ | ⟨rfl, rfl⟩ | ⟨rfl, rfl⟩ <;>
      exact ⟨_, _, rfl⟩

/-- Truth values are compared as they are. -/
theorem compare_of_truths (how : Comparison) {l r : Typed} (hl : l.type = .bool)
    (hr : r.type = .bool) :
    compare how l r = emit (.icmp how l.operand r.operand) .i1 >>= fun v => pure ⟨v, .bool⟩ := by
  simp [compare, hl, hr]

/-- The code of a comparison computes what the operator says of the numbers that are printed for its
operands, or, for truth values, of these numbers in the opposite order. -/
theorem compare_computes {op : BinaryOp} {how : Comparison} (hop : comparison? op = some how)
    {l r v : Typed} (hopen : b.IsOpen) (h : compare how l r b = .ok (v, b'))
    (hpair : (l.type, r.type) ∈ Ty.wordPairs) (hext : Extends b'.module m) (hsound : m.Sound s)
    (hplace : s.place = b.position) {x y : Value} (hoperands : Operands m b s l r x y) :
    ∃ n t c i j, m.stepN n s = some t ∧ t.place = b'.position ∧
      t.value? m v.operand = some (.bool c) ∧ x.handed? = some i ∧ y.handed? = some j ∧
      c = if l.type = .bool then op.relates j i else op.relates i j := by
  have hready := Ready.withoutNames hsound hplace
  have hfill := Filling.withoutNames hopen
  have hltype := hoperands.leftType
  have hrtype := hoperands.rightType
  by_cases hbool : l.type = .bool
  · have hbool' : r.type = .bool := by
      simp_all [Ty.wordPairs]
    rw [compare_of_truths how hbool hbool'] at h
    obtain ⟨w, mid, hemit, h⟩ := Lower.bind_eq_ok h
    cases h
    rw [hbool] at hltype
    rw [hbool'] at hrtype
    cases x <;> cases hltype
    cases y <;> cases hrtype
    next a c =>
    obtain ⟨i, j, hi, hj, hwords⟩ := onWords?_truths hop a c
    have hexec : (Instr.icmp how l.operand r.operand).exec m s =
        (some (Value.bool (op.relates j i))).map fun z => s.yield (.value z) := by
      simp only [Instr.exec, hoperands.left, hoperands.right]
      simp [hwords]
    obtain ⟨n, t, hrun, hgives⟩ :=
      (emit_simulates hready hfill hemit hext hexec : Simulates m 0 s _ _)
    exact ⟨n, t, _, i, j, hrun, hgives.ready.place, hgives.value, hi, hj, by rw [if_pos hbool]⟩
  · have hnumber : (l.type = .int ∨ l.type = .char) ∧ (r.type = .int ∨ r.type = .char) := by
      simp [Ty.wordPairs] at hpair
      tauto
    rw [← hltype, ← hrtype] at hnumber
    obtain ⟨i, j, hi, hj, hcompare⟩ := compare?_eq_relates hnumber.1 hnumber.2
    have hcode : Simulates m 0 s _ _ :=
      compare_simulates hready hfill hop h hext hoperands fun hl _ => absurd hl hbool
    rw [hcompare] at hcode
    obtain ⟨n, t, hrun, hgives⟩ := hcode
    exact ⟨n, t, _, i, j, hrun, hgives.ready.place, hgives.value, hi, hj, by rw [if_neg hbool]⟩

end Lowering

/-- A comparison of two values which are no floating point numbers is accepted if they are integers
or characters, or both truth values.  Its code computes what the operator says of the two numbers
that printing the operands hands on.  Only where two truth values are put in order it computes what
the operator says of these numbers in the opposite order. -/
theorem comparison_follows_printing {op : BinaryOp} (hop : op.isComparison = true) {l r : Typed}
    (hl : l.type ∉ [.float, .unknown]) (hr : r.type ∉ [.float, .unknown]) {b : Builder}
    (hopen : b.IsOpen) :
    ((∃ v b', Lowering.binary op l r b = .ok (v, b')) ↔ (l.type, r.type) ∈ Ty.wordPairs) ∧
    ∀ v b', Lowering.binary op l r b = .ok (v, b') →
      ∀ m s x y, Extends b'.module m → m.Sound s → s.place = b.position →
        Operands m b s l r x y →
        ∃ n t c i j, m.stepN n s = some t ∧ t.place = b'.position ∧
          t.value? m v.operand = some (.bool c) ∧
          (x.handed? = some i ∧ Prints l x i) ∧ (y.handed? = some j ∧ Prints r y j) ∧
          (l.type ≠ .bool ∨ op.isOrder = false → c = op.relates i j) ∧
          (l.type = .bool → op.isOrder = true → c = op.relates j i) := by
  obtain ⟨how, hhow, hbinary⟩ := binary_of_comparison (BinaryOp.isComparison_iff.mp hop)
  rw [hbinary]
  have haccepts := compare_accepts_iff how hl hr b
  refine ⟨haccepts, ?_⟩
  intro v b' h m s x y hext hsound hplace hoperands
  have hpair := haccepts.mp ⟨v, b', h⟩
  obtain ⟨n, t, c, i, j, hrun, hend, hvalue, hi, hj, hc⟩ :=
    compare_computes hhow hopen h hpair hext hsound hplace hoperands
  refine ⟨n, t, c, i, j, hrun, hend, hvalue, ⟨hi, print_prints hoperands.leftType hi⟩,
    ⟨hj, print_prints hoperands.rightType hj⟩, ?_, ?_⟩
  · rintro (hnot | horder)
    · rw [hc, if_neg hnot]
    · rw [hc, BinaryOp.relates_comm horder j i, ite_self]
  · intro hbool _
    rw [hc, if_pos hbool]

/-- The character 200 is printed as -56, and its code says that it is less than the integer 200. -/
theorem comparison_follows_signed_character :
    let l : Typed := ⟨.i8 200, .char⟩
    let r : Typed := ⟨.i32 200, .int⟩
    ∃ v b', Lowering.binary .less l r .initial = .ok (v, b') ∧
      ∃ n t, b'.module.stepN n .initial = some t ∧
        t.value? b'.module v.operand = some (.bool true) ∧
        Prints l (.char 200) (-56) ∧ Prints r (.int 200) 200 := by
  intro l r
  have hless : BinaryOp.less.isComparison = true := rfl
  have hl : l.type ∉ [.float, .unknown] := by decide
  have hr : r.type ∉ [.float, .unknown] := by decide
  obtain ⟨haccepts, hcode⟩ := comparison_follows_printing hless hl hr Builder.isOpen_initial
  obtain ⟨v, b', h⟩ := haccepts.mpr (by decide)
  have hoperands : Operands b'.module .initial .initial l r (.char 200) (.int 200) :=
    ⟨rfl, rfl, nofun, nofun, rfl, rfl⟩
  obtain ⟨n, t, c, i, j, hrun, -, hvalue, ⟨hi, hprints⟩, ⟨hj, hprints'⟩, hc, -⟩ :=
    hcode v b' h b'.module .initial _ _ (.refl _) (.initial _) rfl hoperands
  cases hi
  cases hj
  rw [hc (.inl (by decide))] at hvalue
  exact ⟨v, b', h, n, t, hrun, hvalue, hprints, hprints'⟩

/-- False is printed as 0 and true as 1, but false is not less than true. -/
theorem truths_in_opposite_order :
    let text := "imprenta_gawas false; imprenta_gawas true; imprenta_gawas false < true;".toList
    ∃ p m, parse (tokenize text) = .ok p ∧ analyze p = [] ∧ lower p = .ok m ∧
      m.Returns [(.printInt, .int 0), (.printInt, .int 1), (.printInt, .int 0)] ∧
      (Value.bool false).handed? = some 0 ∧ (Value.bool true).handed? = some 1 ∧
      BinaryOp.less.relates 0 1 = true := by
  intro text
  let p : Program :=
    [.print (.literal .bool "false"), .print (.literal .bool "true"),
      .print (.binary .less (.literal .bool "false") (.literal .bool "true"))]
  have hparse : parse (tokenize text) = .ok p := by
    refine parse_of_spelled ?_ ?_
    · simp only [p, WellFormed, Stmt.AllWellFormed, Stmt.WellFormed]
      decide
    · decide +kernel
  obtain ⟨m, hm⟩ : ∃ m, lower p = .ok m := ⟨_, rfl⟩
  refine ⟨p, m, hparse, by decide, hm, ?_, rfl, rfl, rfl⟩
  cases hm
  exact ⟨7, _, rfl, rfl, rfl⟩

end Binisaya
