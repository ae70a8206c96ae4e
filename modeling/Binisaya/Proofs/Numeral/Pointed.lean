import Binisaya.Numeral.DoubleText
import Binisaya.Proofs.Lexing.Source

/-!
# Numerals with a point

Digits, a point and digits are always a numeral: reading them gives a number that is finite and not
negative, or the number is too large.
-/

namespace Binisaya

namespace DoubleText

theorem digit?_of_isDigit {c : Char} (h : isDigit c = true) : (Radix.ten.digit? c).isSome := by
  simp only [isDigit, Bool.and_eq_true, decide_eq_true_eq] at h
  simp [Radix.digit?, digitValue?, h]

/-- Without underscores none is in the wrong place. -/
theorem underscoresBetween_of_not_mem (radix : Radix) {cs : List Char} (h : '_' ∉ cs)
    (before : Bool) : underscoresBetween radix before cs = true := by
  induction cs generalizing before with
  | nil => rfl
  | cons c cs ih =>
    have hc : c ≠ '_' := by
      rintro rfl
      simp at h
    unfold underscoresBetween
    split
    · next heq => cases heq
    · next heq =>
      cases heq
      exact absurd rfl hc
    · next heq =>
      cases heq
      exact ih (fun hmem => h (List.mem_cons_of_mem _ hmem)) _

theorem point_not_mem {ds : List Char} (h : isDigits ds = true) : '.' ∉ ds := by
  intro hmem
  exact absurd ((isDigits_iff.mp h).2 _ hmem) (by decide)

variable {whole fraction : List Char}

/-- A property of digits and of the point holds of all characters of a numeral. -/
theorem forall_mem_pointed {q : Char → Prop} (hwhole : isDigits whole = true)
    (hfraction : isDigits fraction = true) (hdigit : ∀ c, isDigit c = true → q c) (hpoint : q '.') :
    ∀ c ∈ whole ++ '.' :: fraction, q c := by
  intro c hc
  rcases List.mem_append.mp hc with hc | hc
  · exact hdigit c ((isDigits_iff.mp hwhole).2 c hc)
  · rcases List.mem_cons.mp hc with rfl | hc
    · exact hpoint
    · exact hdigit c ((isDigits_iff.mp hfraction).2 c hc)

theorem readMagnitude_pointed (negative : Bool) (hwhole : isDigits whole = true)
    (hfraction : isDigits fraction = true) :
    readMagnitude .ten negative (whole ++ '.' :: fraction) =
      match Binary64.ofScaled? negative 10 (digitsValue .ten (whole ++ fraction))
        (0 - fraction.length) ((whole ++ fraction).dropWhile (· == '0')).length with
      | some x => .ok x
      | none => .error .outOfRange := by
  have hplain : ∀ c ∈ whole ++ '.' :: fraction, c ≠ '_' := by
    refine forall_mem_pointed hwhole hfraction ?_ (by decide)
    rintro c hc rfl
    exact absurd hc (by decide)
  have hfilter : (whole ++ '.' :: fraction).filter (· != '_') = whole ++ '.' :: fraction := by
    rw [List.filter_eq_self]
    exact fun c hc => bne_iff_ne.mpr (hplain c hc)
  have hmantissa : ∀ c ∈ whole ++ '.' :: fraction,
      (c == '.' || (Radix.ten.digit? c).isSome) = true := by
    refine forall_mem_pointed hwhole hfraction ?_ rfl
    intro c hc
    rw [digit?_of_isDigit hc, Bool.or_true]
  have hsplit : (whole ++ '.' :: fraction).takeWhile (· != '.') = whole ∧
      (whole ++ '.' :: fraction).dropWhile (· != '.') = '.' :: fraction :=
    takeWhile_append_of_head
      (fun c hc => bne_iff_ne.mpr fun heq => point_not_mem hwhole (heq ▸ hc)) (by simp)
  have htake := List.takeWhile_eq_self_iff.mpr hmantissa
  have hdrop := List.dropWhile_eq_nil_iff.mpr hmantissa
  have hunderscores := underscoresBetween_of_not_mem .ten (fun hmem => hplain _ hmem rfl)
    (decide (Radix.ten = .sixteen))
  have hpoints : fraction.contains '.' = false := by
    simpa using point_not_mem hfraction
  have hsome : (whole ++ fraction).isEmpty = false := by
    simp [(isDigits_iff.mp hwhole).1]
  unfold readMagnitude
  simp only [hfilter, htake, hdrop, hsplit.1, hsplit.2, List.drop_succ_cons, List.drop_zero, hpoints,
    hsome, hunderscores]
  rw [if_neg (by simp), if_neg (by simp), show readExponent .ten [] = .ok 0 from rfl]
  simp only [Radix.digitWidth, Radix.exponentBase, Nat.one_mul, Int.natCast_one, Int.one_mul, bind,
    Except.bind]
  cases Binary64.ofScaled? negative 10 (digitsValue .ten (whole ++ fraction))
    (0 - fraction.length) ((whole ++ fraction).dropWhile (· == '0')).length <;> rfl

end DoubleText

namespace Binary64

/-- What is computed from a decimal is finite and has the sign that is asked for. -/
theorem ofScaled?_finite {negative : Bool} {base n : Nat} {e : Int} {width : Nat} {x : Binary64}
    (h : ofScaled? negative base n e width = some x) :
    x.negative = negative ∧ x.magnitude < infinityMagnitude := by
  unfold ofScaled? at h
  simp only at h
  have hzero : 0 < infinityMagnitude := by decide
  split at h
  · cases h
    exact ⟨rfl, hzero⟩
  · split at h
    · cases h
    · split at h
      · cases h
        exact ⟨rfl, hzero⟩
      · obtain ⟨hsmall, hx⟩ := Option.ite_none_right_eq_some.mp h
        cases hx
        exact ⟨rfl, hsmall⟩

end Binary64

open DoubleText in
/-- Digits, a point and digits are a numeral of a finite number that is not negative, or they are out
of range. -/
theorem readDouble_pointed {text : String} (h : IsPointed text.toList) :
    readDouble text = .error .outOfRange ∨
      ∃ x, readDouble text = .ok x ∧ x.negative = false ∧
        x.magnitude < Binary64.infinityMagnitude := by
  obtain ⟨whole, fraction, htext, hwhole, hfraction⟩ := h
  have hpoint : '.' ∈ text.toList := by simp [htext]
  have hnot : ∀ c ∈ text.toList, c ≠ '-' ∧ c ≠ '+' ∧ c ≠ 'x' ∧ c ≠ 'X' := by
    rw [htext]
    refine forall_mem_pointed hwhole hfraction ?_ (by decide)
    intro c hc
    refine ⟨?_, ?_, ?_, ?_⟩ <;>
    · rintro rfl
      exact absurd hc (by decide)
  have hsign : splitSign text.toList = (false, text.toList) := by
    unfold splitSign
    split
    · next hcs => exact absurd rfl (hnot '-' (by simp [hcs])).1
    · next hcs => exact absurd rfl (hnot '+' (by simp [hcs])).2.1
    · rfl
  have hword : ∀ word : String, '.' ∉ word.toList → isWord text.toList word = false := by
    intro word hword
    simp only [isWord, decide_eq_false_iff_not]
    intro heq
    apply hword
    rw [← heq]
    exact List.mem_map.mpr ⟨'.', hpoint, by decide⟩
  have hread : readDouble text = readMagnitude .ten false text.toList := by
    unfold readDouble
    rw [hsign]
    simp only [hword "nan" (by decide), hword "inf" (by decide), hword "infinity" (by decide),
      Bool.false_eq_true, or_self, if_false]
    split
    · next hcs => exact absurd rfl (hnot 'x' (by simp [hcs])).2.2.1
    · next hcs => exact absurd rfl (hnot 'X' (by simp [hcs])).2.2.2
    · rfl
  rw [hread, htext, readMagnitude_pointed false hwhole hfraction]
  split
  · next x hx => exact .inr ⟨x, rfl, Binary64.ofScaled?_finite hx⟩
  · exact .inl rfl

end Binisaya
