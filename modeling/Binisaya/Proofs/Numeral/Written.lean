import Binisaya.Proofs.Numeral.Pointed
import Binisaya.Rendering.Literal

/-!
# Written numerals

How numbers are written in rendered text.  An integer is written with digits that read back as it; a
floating point number that is finite and not negative is written with digits on both sides of a
point.  Main statements: the text of a literal is again a numeral of its kind.
-/

namespace Binisaya

/-! ### Digits -/

theorem isDigit_of_isDigit {c : Char} (h : c.isDigit = true) : isDigit c = true := by
  simp only [Char.isDigit, Bool.and_eq_true, decide_eq_true_eq] at h
  simp only [isDigit, Bool.and_eq_true, decide_eq_true_eq]
  exact ⟨h.1, h.2⟩

theorem isDigits_decimalDigits (n : Nat) : isDigits (decimalDigits n) = true := by
  rw [isDigits_iff]
  refine ⟨Nat.toDigits_ne_nil, ?_⟩
  intro c hc
  exact isDigit_of_isDigit (Nat.isDigit_of_mem_toDigits (by decide) (by decide) hc)

theorem isDigits_append {cs ds : List Char} (hcs : isDigits cs = true)
    (hds : ∀ d ∈ ds, isDigit d = true) : isDigits (cs ++ ds) = true := by
  rw [isDigits_iff] at hcs ⊢
  refine ⟨by simp [hcs.1], ?_⟩
  intro c hc
  rcases List.mem_append.mp hc with hc | hc
  · exact hcs.2 c hc
  · exact hds c hc

theorem isDigit_of_mem_zeros {n : Nat} {c : Char} (h : c ∈ zeros n) : isDigit c = true := by
  rw [List.eq_of_mem_replicate h]
  decide

/-! ### Integers -/

/-- The number that digits denote. -/
def digitsValue (cs : List Char) : Nat := Nat.ofDigitChars 10 cs 0

theorem digitValue?_of_isDigit {c : Char} (h : isDigit c = true) :
    digitValue? c = some (c.toNat - '0'.toNat) := by
  simp only [isDigit, Bool.and_eq_true, decide_eq_true_eq] at h
  rw [digitValue?, if_pos h]

theorem le_ofDigitChars (n : Nat) (cs : List Char) : n ≤ Nat.ofDigitChars 10 cs n := by
  induction cs generalizing n with
  | nil => exact Nat.le_refl n
  | cons c cs ih =>
    rw [Nat.ofDigitChars_cons]
    have hrest := ih (10 * n + (c.toNat - '0'.toNat))
    omega

/-- Digits behind others are read as the number that they all denote, unless it is too large. -/
theorem readDigits_of_isDigit {limit n : Nat} {cs : List Char} (h : ∀ c ∈ cs, isDigit c = true)
    (hn : n ≤ limit) :
    readDigits limit n cs =
      if Nat.ofDigitChars 10 cs n ≤ limit then .ok (Nat.ofDigitChars 10 cs n)
      else .error .outOfRange := by
  induction cs generalizing n with
  | nil => simp [readDigits, Nat.ofDigitChars, hn]
  | cons c cs ih =>
    rw [readDigits, digitValue?_of_isDigit (h c (by simp)), Nat.ofDigitChars_cons]
    by_cases hlimit : limit < 10 * n + (c.toNat - '0'.toNat)
    · -- what follows only makes the number larger
      have hlarge := le_ofDigitChars (10 * n + (c.toNat - '0'.toNat)) cs
      simp only [hlimit, if_true]
      rw [if_neg (by omega)]
    · simp only [hlimit, if_false]
      exact ih (fun d hd => h d (by simp [hd])) (by omega)

theorem splitSign_of_isDigits {cs : List Char} (h : isDigits cs = true) :
    splitSign cs = (false, cs) := by
  obtain ⟨-, hall⟩ := isDigits_iff.mp h
  unfold splitSign
  split
  · exact absurd (hall '-' (by simp)) (by decide)
  · exact absurd (hall '+' (by simp)) (by decide)
  · rfl

/-- Digits are read as the number that they denote, exactly if a signed word holds it. -/
theorem readInt_of_isDigits {bits : Nat} (hbits : 0 < bits) {text : String}
    (h : isDigits text.toList = true) :
    readInt bits text =
      if digitsValue text.toList < Nat.pow 2 (bits - 1) then .ok (digitsValue text.toList : Int)
      else .error .outOfRange := by
  obtain ⟨hne, hall⟩ := isDigits_iff.mp h
  have hread : readUnsigned bits text.toList = readDigits (Nat.pow 2 bits - 1) 0 text.toList := by
    unfold readUnsigned
    split
    · contradiction
    · rfl
  have hdouble : Nat.pow 2 bits = 2 * Nat.pow 2 (bits - 1) := by
    obtain ⟨k, rfl⟩ := Nat.exists_eq_succ_of_ne_zero (Nat.pos_iff_ne_zero.mp hbits)
    exact Nat.pow_succ'
  have hpos : 0 < Nat.pow 2 (bits - 1) := Nat.two_pow_pos _
  unfold readInt
  rw [splitSign_of_isDigits h, hread, readDigits_of_isDigit hall (Nat.zero_le _), ← digitsValue]
  by_cases hfits : digitsValue text.toList ≤ Nat.pow 2 bits - 1
  · simp only [hfits, if_true, signedWord, Bool.false_eq_true, if_false]
  · simp only [hfits, if_false]
    rw [if_neg (by omega)]

theorem isOk_readInt_iff {text : String} (h : isDigits text.toList = true) :
    (readInt 32 text).isOk = true ↔ digitsValue text.toList ≤ 2147483647 := by
  have hpow : Nat.pow 2 (32 - 1) = 2147483648 := by decide
  rw [readInt_of_isDigits (by decide) h, hpow]
  by_cases hfits : digitsValue text.toList < 2147483648
  · simp only [hfits, if_true, Except.isOk, Except.toBool, true_iff]
    omega
  · simp only [hfits, if_false, Except.isOk, Except.toBool, Bool.false_eq_true, false_iff]
    omega

theorem toList_toString (n : Nat) : (toString n).toList = decimalDigits n := by
  rw [Nat.toString_eq_repr, Nat.repr_eq_ofList_toDigits, String.toList_ofList]
  rfl

theorem digitsValue_decimalDigits (n : Nat) : digitsValue (decimalDigits n) = n :=
  Nat.ofDigitChars_ten_toDigits

/-- A number other than zero is written without zeros in front. -/
theorem head?_decimalDigits {n : Nat} (h : n ≠ 0) : (decimalDigits n).head? ≠ some '0' := by
  induction n using Nat.strongRecOn with
  | ind n ih =>
    by_cases hsmall : n < 10
    · have hall : ∀ d < 10, d ≠ 0 → d.digitChar ≠ '0' := by decide
      rw [decimalDigits, Nat.toDigits_of_lt_base hsmall, List.head?_cons]
      simpa using hall n hsmall h
    · have hfront := ih (n / 10) (by omega) (by omega)
      rw [decimalDigits] at hfront ⊢
      rw [Nat.toDigits_of_base_le (by decide) (by omega)]
      cases hdigits : Nat.toDigits 10 (n / 10) with
      | nil => exact absurd hdigits Nat.toDigits_ne_nil
      | cons c cs => rwa [hdigits] at hfront

/-- Digits that denote a number which a word of thirty-two bits holds are rendered as the decimal of
that number. -/
theorem renderLiteral_of_isDigits {text : String} (h : isDigits text.toList = true)
    (hfits : digitsValue text.toList ≤ 2147483647) :
    readInt 64 text = .ok (digitsValue text.toList : Int) ∧
      renderLiteral .int text = toString (digitsValue text.toList) := by
  have hpow : Nat.pow 2 (64 - 1) = 9223372036854775808 := by decide
  have hread : readInt 64 text = .ok (digitsValue text.toList : Int) := by
    rw [readInt_of_isDigits (by decide) h, hpow, if_pos (by omega)]
  refine ⟨hread, ?_⟩
  rw [renderLiteral, hread]
  rfl

/-- An integer that fits a word of thirty-two bits is written with digits, and what is written fits
such a word. -/
theorem renderLiteral_int {text : String} (hdigits : isDigits text.toList = true)
    (hfits : (readInt 32 text).isOk = true) :
    isDigits (renderLiteral .int text).toList = true ∧
      (readInt 32 (renderLiteral .int text)).isOk = true := by
  rw [isOk_readInt_iff hdigits] at hfits
  rw [(renderLiteral_of_isDigits hdigits hfits).2]
  have hwritten : isDigits (toString (digitsValue text.toList)).toList = true := by
    rw [toList_toString]
    exact isDigits_decimalDigits _
  refine ⟨hwritten, (isOk_readInt_iff hwritten).mpr ?_⟩
  rwa [toList_toString, digitsValue_decimalDigits]

/-! ### Floating point numbers -/

/-- A decimal is written with digits on both sides of a point, or with digits only. -/
theorem positional_cases (d : Decimal) :
    isDigits d.positional = true ∨ IsPointed d.positional := by
  have hds := isDigits_decimalDigits d.digits
  obtain ⟨hne, hall⟩ := isDigits_iff.mp hds
  unfold Decimal.positional
  simp only
  by_cases hexp : 0 ≤ d.exponent
  · rw [if_pos hexp]
    left
    by_cases hzero : d.digits = 0
    · rw [if_pos hzero]
      exact hds
    · rw [if_neg hzero]
      exact isDigits_append hds fun c hc => isDigit_of_mem_zeros hc
  · rw [if_neg hexp]
    right
    generalize hplaces : (-d.exponent).toNat = places
    have hpos : 0 < places := by omega
    generalize decimalDigits d.digits = ds at hds hne hall ⊢
    by_cases hlt : places < ds.length
    · rw [if_pos hlt]
      refine ⟨ds.take (ds.length - places), ds.drop (ds.length - places), rfl, ?_, ?_⟩
      · rw [isDigits_iff]
        exact ⟨by simp [hne]; omega, fun c hc => hall c (List.mem_of_mem_take hc)⟩
      · rw [isDigits_iff]
        exact ⟨by simp; omega, fun c hc => hall c (List.mem_of_mem_drop hc)⟩
    · rw [if_neg hlt]
      refine ⟨['0'], zeros (places - ds.length) ++ ds, rfl, by decide, ?_⟩
      rw [isDigits_iff]
      refine ⟨by simp [hne], ?_⟩
      intro c hc
      rcases List.mem_append.mp hc with hc | hc
      · exact isDigit_of_mem_zeros hc
      · exact hall c hc

/-- A floating point numeral is written as one. -/
theorem renderLiteral_float {text : String} (h : IsPointed text.toList) :
    IsPointed (renderLiteral .float text).toList := by
  rcases readDouble_pointed h with hread | ⟨x, hread, hpositive, hfinite⟩
  · simpa only [renderLiteral, hread] using h
  · have hnan : x.isNaN = false := by
      simp only [Binary64.isNaN, decide_eq_false_iff_not]
      omega
    have hinfinite : x.isInfinite = false := by
      simp only [Binary64.isInfinite, decide_eq_false_iff_not]
      omega
    simp only [renderLiteral, hread, Binary64.render, hnan, hinfinite, hpositive,
      Bool.false_eq_true, if_false, String.toList_ofList]
    rcases positional_cases x.shortest with hdigits | hpointed
    · have hpoint : x.shortest.positional.contains '.' = false := by
        simpa using DoubleText.point_not_mem hdigits
      rw [hpoint, if_neg (by simp)]
      exact ⟨_, ['0'], rfl, hdigits, by decide⟩
    · have hpoint : x.shortest.positional.contains '.' = true := by
        obtain ⟨whole, fraction, htext, -⟩ := hpointed
        simp [htext]
      rw [hpoint, if_pos rfl]
      exact hpointed

end Binisaya
