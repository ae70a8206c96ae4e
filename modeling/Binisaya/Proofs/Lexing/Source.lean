import Binisaya.Proofs.Grammar.Soundness
import Binisaya.Proofs.Lexing.Split

/-!
# Pieces that come from a text

The kind of a token that is cut from a text follows from what it is spelled with, so the pieces of a
program that is parsed from a text say more than those of any program: integers are digits without
a sign, floating point numerals are digits on both sides of a point, and strings have no quotes
within.
-/

namespace Binisaya

/-! ### Characters of bare words -/

/-- A class of characters below 128 without signs, quotes and blanks is one of bare characters. -/
theorem isBare_of_ascii {q : Char → Bool}
    (h : ∀ n < 128, q (Char.ofNat n) = true → isBare (Char.ofNat n) = true) {c : Char}
    (hrange : c.toNat < 128) (hc : q c = true) : isBare c = true := by
  have hchar := h c.toNat hrange
  rw [Char.ofNat_toNat] at hchar
  exact hchar hc

theorem toNat_le_of_le {c d : Char} (h : c ≤ d) : c.toNat ≤ d.toNat :=
  UInt32.le_iff_toNat_le.mp (Char.le_def.mp h)

theorem isBare_of_isDigit {c : Char} (h : isDigit c = true) : isBare c = true := by
  refine isBare_of_ascii (by decide) ?_ h
  simp only [isDigit, Bool.and_eq_true, decide_eq_true_eq] at h
  have hle := toNat_le_of_le h.2
  have hnine : '9'.toNat = 57 := rfl
  omega

theorem isBare_of_isNameStart {c : Char} (h : isNameStart c = true) : isBare c = true := by
  refine isBare_of_ascii (by decide) ?_ h
  simp only [isNameStart, Bool.or_eq_true, Bool.and_eq_true, decide_eq_true_eq, beq_iff_eq] at h
  have hsmall : 'z'.toNat = 122 := rfl
  have hlarge : 'Z'.toNat = 90 := rfl
  rcases h with (⟨-, h⟩ | ⟨-, h⟩) | rfl
  · have hle := toNat_le_of_le h
    omega
  · have hle := toNat_le_of_le h
    omega
  · decide

theorem isDigits_iff {cs : List Char} :
    isDigits cs = true ↔ cs ≠ [] ∧ ∀ c ∈ cs, isDigit c = true := by
  simp [isDigits]

/-- A lexeme with a character of bare words in it is a string or a bare word. -/
theorem IsLexeme.isBare {text after : List Char} (h : IsLexeme text after)
    (hquote : text.head? ≠ some '"') {c : Char} (hc : c ∈ text) (hbare : Binisaya.isBare c = true) :
    ∀ d ∈ text, Binisaya.isBare d = true := by
  have hsigns : signs.all (fun s => s.toList.all fun d => !Binisaya.isBare d) = true := by decide
  cases h with
  | string => simp at hquote
  | longSign _ hsign =>
    have hnot := List.all_eq_true.mp hsigns _ (by simpa [isSignText] using hsign)
    have hc' := List.all_eq_true.mp hnot c (by simpa using hc)
    simp [hbare] at hc'
  | shortSign hsign =>
    obtain rfl := List.mem_singleton.mp hc
    simp [Binisaya.isBare, hsign] at hbare
  | word _ hword => exact hword

/-! ### Kinds and spellings -/

/-- What the kind of a token says about its text. -/
theorem classify_cases (text : String) :
    match classify text with
    | .int => isIntText text.toList = true
    | .double => isDoubleText text.toList = true
    | .boolean => text = "true" ∨ text = "false"
    | .string => isQuotedText text.toList = true
    | .identifier => isNameText text.toList = true
    | _ => True := by
  unfold classify
  simp only
  split_ifs <;> simp_all

/-- A text is not reserved if no reserved word and no sign begins like it. -/
theorem not_reserved_of_head {q : Char → Bool}
    (hwords : Keyword.all.all (fun k => k.spelling.toList.head?.all fun d => !q d) = true)
    (hsigns : signs.all (fun s => s.toList.head?.all fun d => !q d) = true) {text : String} {c : Char}
    (hhead : text.toList.head? = some c) (hc : q c = true) :
    isKeyword text = false ∧ isSignText text = false := by
  constructor
  · rw [isKeyword, List.any_eq_false]
    intro k hk heq
    have hword := List.all_eq_true.mp hwords k hk
    rw [of_decide_eq_true heq, hhead] at hword
    simp [hc] at hword
  · rw [← Bool.not_eq_true]
    intro hsign
    have hword := List.all_eq_true.mp hsigns text (by simpa [isSignText] using hsign)
    rw [hhead] at hword
    simp [hc] at hword

theorem isQuotedText_eq {cs : List Char} (h : isQuotedText cs = true) :
    ∃ body, cs = '"' :: (body ++ ['"']) := by
  unfold isQuotedText at h
  split at h
  · obtain ⟨body, rfl⟩ := List.getLast?_eq_some_iff.mp (by simpa using h)
    exact ⟨body, rfl⟩
  · cases h

/-- Digits, a point and digits. -/
def IsPointed (cs : List Char) : Prop :=
  ∃ whole fraction, cs = whole ++ '.' :: fraction ∧ isDigits whole = true ∧ isDigits fraction = true

theorem isPointed_of_isDoubleText {cs : List Char} (h : isDoubleText cs = true) :
    IsPointed (unsignedPart cs) := by
  unfold isDoubleText at h
  simp only at h
  split at h
  · next fraction hdrop =>
    obtain ⟨hwhole, hfraction⟩ := Bool.and_eq_true_iff.mp h
    refine ⟨_, fraction, ?_, hwhole, hfraction⟩
    rw [← hdrop, List.takeWhile_append_dropWhile]
  · cases h

/-- A piece as it can come from a text: it has the kind of its text, which is a lexeme or a string
without an end. -/
structure Lexeme.Legible (l : Lexeme) : Prop where
  kind : l.1 = classify l.2
  shape : (∃ after, IsLexeme l.2.toList after) ∨ ∃ body, l.2.toList = '"' :: body ∧ '"' ∉ body

theorem mem_of_mem_unsignedPart {cs : List Char} {c : Char} (h : c ∈ unsignedPart cs) : c ∈ cs := by
  unfold unsignedPart at h
  split at h
  · exact List.mem_cons_of_mem _ h
  · exact h

namespace Lexeme.Legible

variable {text : String}

/-- A text that has digits behind its sign has no sign. -/
theorem unsignedPart_eq {kind : TokenKind} (h : Legible (kind, text)) {digits rest : List Char}
    (hcs : unsignedPart text.toList = digits ++ rest) (hdigits : Binisaya.isDigits digits = true) :
    unsignedPart text.toList = text.toList := by
  obtain ⟨hne, hall⟩ := isDigits_iff.mp hdigits
  obtain ⟨c, cs, rfl⟩ := List.exists_cons_of_ne_nil hne
  have hdigit := hall c (by simp)
  unfold unsignedPart
  split
  · next hminus =>
    have hmem : c ∈ text.toList := mem_of_mem_unsignedPart (by simp [hcs])
    rcases h.shape with ⟨after, hlexeme⟩ | ⟨body, hbody, -⟩
    · -- a digit is in no sign but the text begins with one
      have hbare := hlexeme.isBare (by simp [hminus]) hmem (isBare_of_isDigit hdigit) '-'
        (by simp [hminus])
      exact absurd hbare (by decide)
    · rw [show text.toList = _ from hbody] at hminus
      simp at hminus
  · rfl

theorem isDigits (h : Legible (.int, text)) : Binisaya.isDigits text.toList = true := by
  have hclass := classify_cases text
  rw [← h.kind] at hclass
  have hdigits : Binisaya.isDigits (unsignedPart text.toList) = true := hclass
  rwa [h.unsignedPart_eq (List.append_nil _).symm hdigits] at hdigits

theorem isPointed (h : Legible (.double, text)) : IsPointed text.toList := by
  have hclass := classify_cases text
  rw [← h.kind] at hclass
  obtain ⟨whole, fraction, hcs, hwhole, hfraction⟩ := isPointed_of_isDoubleText hclass
  rw [h.unsignedPart_eq hcs hwhole] at hcs
  exact ⟨whole, fraction, hcs, hwhole, hfraction⟩

end Lexeme.Legible

/-- There is no quote within a string that comes from a text. -/
theorem Lexeme.Legible.quote_not_mem {text : String}
    (h : Legible (.string, "\"" ++ text ++ "\"")) : '"' ∉ text.toList := by
  have htext : ("\"" ++ text ++ "\"").toList = '"' :: (text.toList ++ ['"']) := by simp
  have hshape := h.shape
  simp only [htext] at hshape
  rcases hshape with ⟨after, hlexeme⟩ | ⟨body, hbody, hquote⟩
  · generalize hcs : '"' :: (text.toList ++ ['"']) = cs at hlexeme
    cases hlexeme with
    | string hbody =>
      obtain ⟨-, hsame⟩ := List.cons_eq_cons.mp hcs
      rwa [List.append_cancel_right hsame]
    | longSign hc =>
      obtain ⟨rfl, -⟩ := List.cons_eq_cons.mp hcs
      exact absurd hc (by decide)
    | shortSign hc =>
      obtain ⟨rfl, -⟩ := List.cons_eq_cons.mp hcs
      exact absurd hc (by decide)
    | word _ hbare =>
      have hquote := hbare '"' (by simp [← hcs])
      exact absurd hquote (by decide)
  · obtain ⟨-, rfl⟩ := List.cons_eq_cons.mp hbody
    simp at hquote

/-! ### Programs that come from a text -/

theorem hasQuotes_of_kind {t : Token} (h : t.kind = classify t.text) : t.HasQuotes := by
  intro hstring
  have hclass := classify_cases t.text
  rw [← h, hstring] at hclass
  obtain ⟨body, hbody⟩ := isQuotedText_eq hclass
  have htext : t.text = "\"" ++ String.ofList body ++ "\"" := by
    rw [← String.toList_inj, hbody]
    simp
  refine ⟨?_, by simp [hbody], by simp [hbody, List.getLast?_cons]⟩
  rw [htext, String.utf8ByteSize_append, String.utf8ByteSize_append]
  have : "\"".utf8ByteSize = 1 := by decide
  omega

/-- All pieces of a program that is parsed from a text come from the text. -/
theorem unparse_legible {text : List Char} {p : Program} (h : parse (tokenize text) = .ok p) :
    ∀ l ∈ unparse p, l.Legible := by
  have hsplits : Splits [] text (tokenize text) := scan_splits [] text
  obtain ⟨-, used, hused, hspelled⟩ := parse_takes h
  rw [List.append_nil] at hused
  rw [← Token.map_bare_of_spelledBy hspelled
    fun t ht => hasQuotes_of_kind (hsplits.text_cases (hused ▸ ht)).1]
  intro l hl
  obtain ⟨t, ht, rfl⟩ := List.mem_map.mp hl
  obtain ⟨hkind, hshape⟩ := hsplits.text_cases (hused ▸ ht)
  exact ⟨hkind, hshape⟩

end Binisaya
