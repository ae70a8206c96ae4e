import Binisaya.Proofs.Lexing.Layout
import Mathlib.Algebra.Group.Nat.Even

/-!
# Texts line by line

A line end separates tokens unless it stands in a string, and it stands in a string exactly if the
number of quotes in front of it is odd.  Main statement: where that number is even, the lines behind
can be cut into tokens by themselves, and only the lines of their places change; and it is even
exactly if no string in front is without an end.
-/

namespace Binisaya

/-- The place in the same column some lines below. -/
def Location.down (l : Location) (lines : Nat) : Location := ⟨l.line + lines, l.column⟩

/-- The token some lines below. -/
def Token.down (t : Token) (lines : Nat) : Token :=
  { t with location := t.location.map fun l => l.down lines }

/-! ### Places below -/

namespace Location

theorem advance_down (l : Location) (lines : Nat) (c : Char) :
    (l.down lines).advance c = (l.advance c).down lines := by
  unfold advance down
  split
  · simp only [mk.injEq, and_true]
    omega
  · rfl

theorem advanceAll_down (l : Location) (lines : Nat) (text : List Char) :
    (l.down lines).advanceAll text = (l.advanceAll text).down lines := by
  induction text generalizing l with
  | nil => rfl
  | cons c text ih =>
    have hstep : (l.down lines).advanceAll (c :: text) =
        ((l.down lines).advance c).advanceAll text := rfl
    rw [hstep, advance_down, ih]
    rfl

/-- The place behind a line end is in the first column. -/
theorem behind_line (before : List Char) :
    behind (before ++ ['\n']) = start.down (1 + before.count '\n') := by
  simp only [behind, start, down, List.count_append, List.reverse_append, List.reverse_singleton,
    List.singleton_append, mk.injEq]
  constructor
  · simp
    omega
  · simp

end Location

/-- A text that begins some lines below is cut into the same tokens, as many lines below. -/
theorem scan_down (l : Location) (lines : Nat) (text : List Char) :
    scan (l.down lines) text = (scan l text).map fun t => t.down lines := by
  induction l, text using scan.induct with
  | case1 l => simp [scan]
  | case2 l c cs hc ih =>
    rw [scan, scan, if_pos hc, if_pos hc, Location.advance_down, ih]
  | case3 l c cs hc ih =>
    rw [scan, scan, if_neg hc, if_neg hc, Location.advanceAll_down, ih, List.map_cons]
    rfl

/-! ### Quotes -/

theorem count_quote_blanks {gap : List Char} (hgap : ∀ c ∈ gap, isBlank c = true) :
    gap.count '"' = 0 :=
  List.count_eq_zero.mpr fun hmem => absurd (hgap _ hmem) (by decide)

/-- A lexeme has two quotes if it is a string, and otherwise none. -/
theorem IsLexeme.even_count_quote {text after : List Char} (h : IsLexeme text after) :
    Even (text.count '"') := by
  cases h with
  | @string body _ hbody =>
    have htwo : ('"' :: (body ++ ['"'])).count '"' = 2 := by
      simp [List.count_append, List.count_eq_zero.mpr hbody]
    rw [htwo]
    decide
  | @longSign c d _ _ hsign =>
    have hall : signs.all (fun s => decide ('"' ∉ s.toList)) = true := by decide
    have hnot := List.all_eq_true.mp hall _ (List.contains_iff_mem.mp hsign)
    rw [decide_eq_true_eq, String.toList_ofList] at hnot
    rw [List.count_eq_zero.mpr hnot]
    exact Even.zero
  | @shortSign c _ hc =>
    have hnot : '"' ∉ [c] := by
      rw [List.mem_singleton]
      rintro rfl
      exact absurd hc (by decide)
    rw [List.count_eq_zero.mpr hnot]
    exact Even.zero
  | word _ hbare =>
    rw [List.count_eq_zero.mpr fun hmem => absurd (hbare _ hmem) (by decide)]
    exact Even.zero

/-- With a lexeme in front the number of quotes stays even or odd. -/
theorem IsLexeme.even_append_iff {gap text after : List Char}
    (hgap : ∀ c ∈ gap, isBlank c = true) (h : IsLexeme text after) :
    Even ((gap ++ (text ++ after)).count '"') ↔ Even (after.count '"') := by
  rw [List.count_append, List.count_append, count_quote_blanks hgap, Nat.zero_add, Nat.even_add]
  exact iff_true_left h.even_count_quote

/-- A string without an end has one quote. -/
theorem not_even_unterminated {gap body trailing : List Char} (hgap : ∀ c ∈ gap, isBlank c = true)
    (hbody : '"' ∉ body) (htrailing : ∀ c ∈ trailing, isBlank c = true) :
    ¬ Even ((gap ++ ('"' :: body ++ trailing)).count '"') := by
  have hone : (gap ++ ('"' :: body ++ trailing)).count '"' = 1 := by
    rw [List.count_append, List.count_append, count_quote_blanks hgap, count_quote_blanks htrailing,
      List.count_cons_self, List.count_eq_zero.mpr hbody]
  rw [hone]
  decide

/-- If the number of quotes is even, every token that begins with a quote has another one. -/
theorem Splits.quote_mem_of_even {before text : List Char} {ts : List Token}
    (h : Splits before text ts) (heven : Even (text.count '"')) {t : Token} (ht : t ∈ ts)
    {body : List Char} (hbody : t.text.toList = '"' :: body) : '"' ∈ body := by
  induction h with
  | blanks => cases ht
  | @lexeme before gap word after ts hgap hword _ ih =>
    rcases List.mem_cons.mp ht with rfl | ht
    · have hcount := hword.even_count_quote
      obtain rfl : word = '"' :: body := by simpa using hbody
      by_contra hnot
      rw [List.count_cons_self, List.count_eq_zero.mpr hnot] at hcount
      exact absurd hcount (by decide)
    · exact ih ((hword.even_append_iff hgap).mp heven) ht
  | unterminated hgap hnot _ htrailing =>
    exact absurd heven (not_even_unterminated hgap hnot htrailing)

/-- If the number of quotes is odd, some token is a string without an end. -/
theorem Splits.exists_unterminated {before text : List Char} {ts : List Token}
    (h : Splits before text ts) (hodd : ¬ Even (text.count '"')) :
    ∃ t ∈ ts, t.Unterminated text := by
  induction h with
  | blanks hgap =>
    rw [count_quote_blanks hgap] at hodd
    exact absurd Even.zero hodd
  | @lexeme before gap word after ts hgap hword _ ih =>
    obtain ⟨t, ht, front, body, trailing, rfl, hrest⟩ :=
      ih fun heven => hodd ((hword.even_append_iff hgap).mpr heven)
    refine ⟨t, List.mem_cons_of_mem _ ht, gap ++ (word ++ front), body, trailing, ?_, hrest⟩
    simp only [List.append_assoc]
  | @unterminated before gap body trailing _ hbody _ htrailing =>
    exact ⟨_, List.mem_cons_self, gap, body, trailing, rfl, rfl, hbody, htrailing⟩

/-! ### Lines -/

/-- A lexeme ends in front of a line end. -/
theorem IsLexeme.before_line {text after : List Char} (h : IsLexeme text after)
    (lines : List Char) : IsLexeme text (after ++ '\n' :: lines) := by
  cases after with
  | nil =>
    refine h.before_blanks fun c hc => ?_
    obtain rfl : '\n' = c := Option.some.inj hc
    decide
  | cons d after =>
    cases h with
    | string hbody => exact .string hbody
    | longSign hc hsign => exact .longSign hc hsign
    | shortSign hc hnext => exact .shortSign hc hnext
    | word hne hbare hnext => exact .word hne hbare hnext

/-- Behind an even number of quotes a line end stands between two tokens. -/
theorem Splits.scan_line {before text : List Char} {ts : List Token} (h : Splits before text ts)
    (heven : Even (text.count '"')) (lines : List Char) :
    scan (.behind before) (text ++ '\n' :: lines) =
      ts ++ scan (.behind (before ++ text ++ ['\n'])) lines := by
  induction h with
  | @blanks before gap hgap =>
    rw [scan_blanks hgap, Location.advanceAll_behind, scan, if_pos (by decide),
      Location.advance_behind, List.nil_append]
  | @lexeme before gap word after ts hgap hword _ ih =>
    have hafter := ih ((hword.even_append_iff hgap).mp heven)
    rw [List.append_assoc, List.append_assoc, scan_blanks hgap,
      scan_lexeme (hword.before_line lines), Location.advanceAll_behind,
      Location.advanceAll_behind, hafter]
    simp only [List.append_assoc, List.cons_append, Token.ofText]
  | unterminated hgap hbody _ htrailing =>
    exact absurd heven (not_even_unterminated hgap hbody htrailing)

/-- Tokens can be cut line by line.  If the number of quotes in a source is even, the tokens of the
source with more lines behind it are its own tokens and those of these lines by themselves, as many
lines below as the source has; and that number is even exactly if the source has no string without
an end. -/
theorem tokenize_line_by_line (source lines : List UInt8) :
    let text := Utf8.decode source
    (Even (text.count '"') →
      tokenize (Utf8.decode (source ++ 0x0A :: lines)) =
        tokenize text ++
          (tokenize (Utf8.decode lines)).map fun t => t.down (1 + text.count '\n')) ∧
    ((∀ t ∈ tokenize text, ¬ t.Unterminated text) ↔ Even (text.count '"')) := by
  intro text
  have hsplits : Splits [] text (tokenize text) := scan_splits [] text
  refine ⟨fun heven => ?_, fun hnone => ?_, fun heven t ht hopen => ?_⟩
  · have hline : Char.ofNat (0x0A : UInt8).toNat = '\n' := by decide
    have hscan := hsplits.scan_line heven (Utf8.decode lines)
    rw [List.nil_append, Location.behind_line, scan_down] at hscan
    rw [Utf8.decode_append (by decide), hline]
    exact hscan
  · by_contra hodd
    obtain ⟨t, ht, hopen⟩ := hsplits.exists_unterminated hodd
    exact hnone t ht hopen
  · obtain ⟨_, body, _, -, hword, hbody, -⟩ := hopen
    exact hbody (hsplits.quote_mem_of_even heven ht (by rw [hword, String.toList_ofList]))

/-- The first source has a line end within a string and ends in a sign that would be another one
with the first character of the second, in which a string has no end. -/
theorem tokenize_sign_across_lines :
    let source : List UInt8 := "\"x\ny\"".toUTF8.toList ++ [0xE2] ++ "<".toUTF8.toList
    let lines : List UInt8 := "= \"b".toUTF8.toList
    Even ((Utf8.decode source).count '"') ∧
    tokenize (Utf8.decode (source ++ 0x0A :: lines)) =
      [⟨.string, "\"x\ny\"", some ⟨1, 1⟩⟩, ⟨.unknown, "\uFFFD", some ⟨2, 3⟩⟩,
        ⟨.punctuation, "<", some ⟨2, 4⟩⟩, ⟨.punctuation, "=", some ⟨3, 1⟩⟩,
        ⟨.unknown, "\"b", some ⟨3, 3⟩⟩] ∧
    ∃ t ∈ tokenize (Utf8.decode lines), t.Unterminated (Utf8.decode lines) := by
  intro source lines
  have heven : Even ((Utf8.decode source).count '"') := by decide +kernel
  have hodd : ¬ Even ((Utf8.decode lines).count '"') := by decide +kernel
  refine ⟨heven, ?_, ?_⟩
  · rw [(tokenize_line_by_line source lines).1 heven]
    decide +kernel
  · by_contra hnone
    apply hodd
    rw [← (tokenize_line_by_line lines []).2]
    exact fun t ht hopen => hnone ⟨t, ht, hopen⟩

end Binisaya
