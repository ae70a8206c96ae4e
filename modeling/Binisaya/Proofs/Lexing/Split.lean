import Binisaya.Token.Lexer
import Mathlib.Data.List.TakeWhile

/-!
# Texts as blanks and lexemes

`Splits before text ts` says how a text that stands behind `before` is cut: into blanks, which are
dropped, and lexemes, of which each is a token of `ts` with the place where it begins.  What can be
a lexeme depends on the text behind it: a sign is the longer one of two, a bare word goes as far as
it can, and a string without an end is the last lexeme.  Main statement: the tokens of a text are
those of its only split.
-/

namespace Binisaya

/-! ### Places -/

/-- The place behind a text: one line for each line end in it and one more, one column for each
character of the last line and one more. -/
def Location.behind (before : List Char) : Location :=
  ⟨1 + before.count '\n', 1 + (before.reverse.takeWhile (· != '\n')).length⟩

namespace Location

theorem advance_behind (before : List Char) (c : Char) :
    (behind before).advance c = behind (before ++ [c]) := by
  unfold advance behind
  by_cases hc : c = '\n'
  · simp [hc]
    omega
  · simp [hc]
    omega

theorem advanceAll_behind (before text : List Char) :
    (behind before).advanceAll text = behind (before ++ text) := by
  induction text generalizing before with
  | nil => simp [advanceAll]
  | cons c text ih =>
    have hstep : (behind before).advanceAll (c :: text) = (behind (before ++ [c])).advanceAll text := by
      rw [← advance_behind]
      rfl
    rw [hstep, ih, List.append_assoc, List.singleton_append]

end Location

/-! ### Lexemes and splits -/

/-- The texts that are cut off as one token in front of the text `after`. -/
inductive IsLexeme : List Char → List Char → Prop where
  /-- A string, from a quote to the next one. -/
  | string {body after : List Char} (hbody : '"' ∉ body) : IsLexeme ('"' :: (body ++ ['"'])) after
  /-- Two characters that make a sign. -/
  | longSign {c d : Char} {after : List Char} (hc : isSignChar c = true)
      (hsign : isSignText (String.ofList [c, d]) = true) : IsLexeme [c, d] after
  /-- A character that begins a sign, where it does not make one with the next. -/
  | shortSign {c : Char} {after : List Char} (hc : isSignChar c = true)
      (hnext : ∀ d, after.head? = some d → isSignText (String.ofList [c, d]) = false) :
      IsLexeme [c] after
  /-- A bare word, which ends at a blank, a quote, a sign or the end of the text. -/
  | word {text after : List Char} (hne : text ≠ []) (hbare : ∀ c ∈ text, isBare c = true)
      (hnext : ∀ d, after.head? = some d → isBare d = false) : IsLexeme text after

/-- How a text behind the text `before` is cut into blanks and tokens. -/
inductive Splits : List Char → List Char → List Token → Prop where
  /-- Nothing but blanks. -/
  | blanks {before gap : List Char} (hgap : ∀ c ∈ gap, isBlank c = true) : Splits before gap []
  /-- Blanks, a lexeme, and what is behind it. -/
  | lexeme {before gap text after : List Char} {ts : List Token}
      (hgap : ∀ c ∈ gap, isBlank c = true) (htext : IsLexeme text after)
      (hafter : Splits (before ++ gap ++ text) after ts) :
      Splits before (gap ++ (text ++ after))
        (⟨classify (String.ofList text), String.ofList text, some (.behind (before ++ gap))⟩ :: ts)
  /-- Blanks, a quote to which there is no other up to the end of the text, and blanks at that
  end, which do not belong to the string. -/
  | unterminated {before gap body trailing : List Char} (hgap : ∀ c ∈ gap, isBlank c = true)
      (hbody : '"' ∉ body) (hlast : ∀ c, ('"' :: body).getLast? = some c → isBlank c = false)
      (htrailing : ∀ c ∈ trailing, isBlank c = true) :
      Splits before (gap ++ ('"' :: body ++ trailing))
        [⟨classify (String.ofList ('"' :: body)), String.ofList ('"' :: body),
          some (.behind (before ++ gap))⟩]

theorem isBlank_of_isBare {c : Char} (h : isBare c = true) : isBlank c = false := by
  simp only [isBare, Bool.and_eq_true, Bool.not_eq_true'] at h
  exact h.2

theorem isBlank_of_isSignChar {c : Char} (h : isSignChar c = true) : isBlank c = false := by
  have hall : signChars.all (fun d => !isBlank d) = true := by decide
  simpa using List.all_eq_true.mp hall c (by simpa [isSignChar] using h)

/-- A lexeme begins with a character, which is no blank. -/
theorem IsLexeme.exists_cons {text after : List Char} (h : IsLexeme text after) :
    ∃ c cs, text = c :: cs ∧ isBlank c = false := by
  cases h with
  | string => exact ⟨_, _, rfl, by decide⟩
  | longSign hc => exact ⟨_, _, rfl, isBlank_of_isSignChar hc⟩
  | shortSign hc => exact ⟨_, _, rfl, isBlank_of_isSignChar hc⟩
  | word hne hbare =>
    cases text with
    | nil => exact absurd rfl hne
    | cons c cs => exact ⟨c, cs, rfl, isBlank_of_isBare (hbare c (by simp))⟩

/-! ### What the lexer cuts off is a lexeme -/

theorem takeWhile_append_of_head {p : Char → Bool} {l rest : List Char} (hl : ∀ c ∈ l, p c = true)
    (hrest : ∀ c, rest.head? = some c → p c = false) :
    (l ++ rest).takeWhile p = l ∧ (l ++ rest).dropWhile p = rest := by
  rw [List.takeWhile_append_of_pos hl, List.dropWhile_append_of_pos hl]
  cases rest with
  | nil => simp
  | cons c rest => simp [hrest c rfl]

theorem head?_dropWhile_eq_false {p : Char → Bool} {l : List Char} {c : Char}
    (h : (l.dropWhile p).head? = some c) : p c = false := by
  have := List.head?_dropWhile_not p l
  rw [h] at this
  simpa using this

/-- Trimming takes away the blanks at the end and nothing else. -/
theorem trimEnd_spec (text : List Char) :
    ∃ trailing, text = trimEnd text ++ trailing ∧ (∀ c ∈ trailing, isBlank c = true) ∧
      ∀ c, (trimEnd text).getLast? = some c → isBlank c = false := by
  induction text with
  | nil => exact ⟨[], by simp [trimEnd]⟩
  | cons c text ih =>
    obtain ⟨trailing, htext, htrailing, hlast⟩ := ih
    cases htrim : trimEnd text with
    | nil =>
      rw [htrim, List.nil_append] at htext
      by_cases hc : isBlank c = true
      · refine ⟨c :: text, by simp [trimEnd, htrim, hc], ?_, by simp [trimEnd, htrim, hc]⟩
        intro d hd
        rcases List.mem_cons.mp hd with rfl | hd
        · exact hc
        · exact htrailing d (htext ▸ hd)
      · exact ⟨text, by simp [trimEnd, htrim, hc], fun d hd => htrailing d (htext ▸ hd),
          by simp [trimEnd, htrim, hc]⟩
    | cons d t =>
      rw [htrim] at htext hlast
      have hcons : trimEnd (c :: text) = c :: d :: t := by simp [trimEnd, htrim]
      rw [hcons]
      exact ⟨trailing, by rw [htext]; rfl, htrailing, by simpa using hlast⟩

/-- A string that is not closed keeps its quote. -/
theorem trimEnd_quote (cs : List Char) : ∃ body, trimEnd ('"' :: cs) = '"' :: body := by
  cases htrim : trimEnd cs with
  | nil => exact ⟨[], by simp [trimEnd, htrim, show isBlank '"' = false by decide]⟩
  | cons d t => exact ⟨d :: t, by simp [trimEnd, htrim]⟩

/-- A quote begins a string that ends at the next quote, or, if there is none, takes all but the
blanks at the end. -/
theorem quotedLexeme_cases (cs : List Char) :
    (∃ body after, '"' ∉ body ∧ cs = body ++ '"' :: after ∧
      quotedLexeme cs = ('"' :: (body ++ ['"']), after)) ∨
    ('"' ∉ cs ∧ quotedLexeme cs = (trimEnd ('"' :: cs), [])) := by
  unfold quotedLexeme
  have hsplit := List.takeWhile_append_dropWhile (p := (· != '"')) (l := cs)
  have htake : '"' ∉ cs.takeWhile (· != '"') := by
    intro hmem
    simpa using List.mem_takeWhile_imp hmem
  cases hdrop : cs.dropWhile (· != '"') with
  | nil =>
    right
    rw [hdrop, List.append_nil] at hsplit
    exact ⟨hsplit ▸ htake, rfl⟩
  | cons q after =>
    left
    have hq : q = '"' := by
      simpa using head?_dropWhile_eq_false (p := (· != '"')) (l := cs) (c := q) (by rw [hdrop]; rfl)
    subst hq
    rw [hdrop] at hsplit
    exact ⟨_, after, htake, hsplit.symm, by simp⟩

theorem signLexeme_isLexeme {c : Char} (hc : isSignChar c = true) (cs : List Char) :
    IsLexeme (signLexeme c cs).1 (signLexeme c cs).2 ∧
      (signLexeme c cs).1 ++ (signLexeme c cs).2 = c :: cs := by
  cases cs with
  | nil => exact ⟨.shortSign hc (by simp [signLexeme]), rfl⟩
  | cons d cs =>
    simp only [signLexeme]
    by_cases hsign : isSignText (String.ofList [c, d]) = true
    · rw [if_pos hsign]
      exact ⟨.longSign hc hsign, rfl⟩
    · rw [if_neg hsign]
      refine ⟨.shortSign hc ?_, rfl⟩
      intro e he
      obtain rfl : d = e := by simpa using he
      simpa using hsign

/-- What the lexer cuts off is a lexeme in front of the rest, or an unterminated string. -/
theorem lexeme_cases {c : Char} (hc : isBlank c = false) (cs : List Char) :
    (IsLexeme (lexeme c cs).1 (lexeme c cs).2 ∧ (lexeme c cs).1 ++ (lexeme c cs).2 = c :: cs) ∨
    (c = '"' ∧ '"' ∉ cs ∧ lexeme c cs = (trimEnd (c :: cs), [])) := by
  unfold lexeme
  by_cases hquote : c = '"'
  · subst hquote
    rw [if_pos rfl]
    rcases quotedLexeme_cases cs with ⟨body, after, hbody, rfl, hread⟩ | ⟨hcs, hread⟩
    · left
      rw [hread]
      exact ⟨.string hbody, by simp⟩
    · right
      exact ⟨rfl, hcs, hread⟩
  · left
    rw [if_neg hquote]
    by_cases hsign : isSignChar c = true
    · rw [if_pos hsign]
      exact signLexeme_isLexeme hsign cs
    · rw [if_neg hsign]
      have hbare : isBare c = true := by simp [isBare, hquote, hsign, hc]
      refine ⟨.word (by simp) ?_ fun d hd => head?_dropWhile_eq_false hd, ?_⟩
      · intro d hd
        rcases List.mem_cons.mp hd with rfl | hd
        · exact hbare
        · exact List.mem_takeWhile_imp hd
      · rw [List.cons_append, List.takeWhile_append_dropWhile]

/-! ### A lexeme is what the lexer cuts off -/

/-- In front of the text that it is a lexeme for, a lexeme is cut off as a whole. -/
theorem lexeme_of_isLexeme {c : Char} {cs after : List Char} (h : IsLexeme (c :: cs) after) :
    lexeme c (cs ++ after) = (c :: cs, after) := by
  generalize htext : c :: cs = text at h
  cases h with
  | @string body _ hbody =>
    obtain ⟨rfl, rfl⟩ := List.cons_eq_cons.mp htext
    have hne : ∀ d ∈ body, (d != '"') = true := by
      intro d hd
      simp only [bne_iff_ne, ne_eq]
      rintro rfl
      exact hbody hd
    have hend : ∀ d, ('"' :: after).head? = some d → (d != '"') = false := by simp
    obtain ⟨htake, hdrop⟩ := takeWhile_append_of_head hne hend
    simp [lexeme, quotedLexeme, htake, hdrop]
  | longSign hc hsign =>
    obtain ⟨rfl, rfl⟩ := List.cons_eq_cons.mp htext
    have hquote : c ≠ '"' := by
      rintro rfl
      exact absurd hc (by decide)
    simp only [lexeme, hquote, hc, if_false, if_true, List.singleton_append, signLexeme, hsign]
  | shortSign hc hnext =>
    obtain ⟨rfl, rfl⟩ := List.cons_eq_cons.mp htext
    have hquote : c ≠ '"' := by
      rintro rfl
      exact absurd hc (by decide)
    cases after with
    | nil => simp [lexeme, hquote, hc, signLexeme]
    | cons d after =>
      simp only [lexeme, hquote, hc, if_false, if_true, List.nil_append, signLexeme, hnext d rfl,
        Bool.false_eq_true]
  | word hne hbare hnext =>
    subst htext
    have hc := hbare c (by simp)
    simp only [isBare, Bool.and_eq_true, bne_iff_ne, ne_eq, Bool.not_eq_true'] at hc
    obtain ⟨htake, hdrop⟩ :=
      takeWhile_append_of_head (fun d hd => hbare d (List.mem_cons_of_mem c hd)) hnext
    simp [lexeme, hc.1.1, hc.1.2, htake, hdrop]

theorem scan_blanks {gap : List Char} (hgap : ∀ c ∈ gap, isBlank c = true) (l : Location)
    (text : List Char) : scan l (gap ++ text) = scan (l.advanceAll gap) text := by
  induction gap generalizing l with
  | nil => rfl
  | cons c gap ih =>
    rw [List.cons_append, scan, if_pos (hgap c (by simp)), ih fun d hd => hgap d (by simp [hd])]
    rfl

/-- A lexeme is the first token of a text that begins with it. -/
theorem scan_lexeme {text after : List Char} (h : IsLexeme text after) (l : Location) :
    scan l (text ++ after) = .ofText l text :: scan (l.advanceAll text) after := by
  obtain ⟨c, cs, rfl, hc⟩ := h.exists_cons
  rw [List.cons_append, scan, if_neg (by simp [hc]), lexeme_of_isLexeme h]

theorem trimEnd_append_of_last {text trailing : List Char} (hne : text ≠ [])
    (hlast : ∀ c, text.getLast? = some c → isBlank c = false)
    (htrailing : ∀ c ∈ trailing, isBlank c = true) : trimEnd (text ++ trailing) = text := by
  have hblank : trimEnd trailing = [] := by
    induction trailing with
    | nil => rfl
    | cons c trailing ih =>
      simp [trimEnd, ih fun d hd => htrailing d (by simp [hd]), htrailing c (by simp)]
  induction text with
  | nil => exact absurd rfl hne
  | cons c text ih =>
    cases text with
    | nil => simp [trimEnd, hblank, hlast c rfl]
    | cons d text =>
      have hrest := ih (by simp) (by simpa [List.getLast?_cons_cons] using hlast)
      rw [List.cons_append, trimEnd, hrest]

/-- A string without an end is the last token. -/
theorem scan_unterminated {body trailing : List Char} (hbody : '"' ∉ body)
    (hlast : ∀ c, ('"' :: body).getLast? = some c → isBlank c = false)
    (htrailing : ∀ c ∈ trailing, isBlank c = true) (l : Location) :
    scan l ('"' :: body ++ trailing) = [.ofText l ('"' :: body)] := by
  have hquote : '"' ∉ body ++ trailing := by
    intro hmem
    rcases List.mem_append.mp hmem with hmem | hmem
    · exact hbody hmem
    · exact absurd (htrailing _ hmem) (by decide)
  have hread : lexeme '"' (body ++ trailing) = ('"' :: body, []) := by
    rcases lexeme_cases (show isBlank '"' = false by decide) (body ++ trailing) with
      ⟨hlexeme, happend⟩ | ⟨-, -, hread⟩
    · generalize (lexeme '"' (body ++ trailing)).1 = text,
        (lexeme '"' (body ++ trailing)).2 = after at hlexeme happend
      cases hlexeme with
      | string =>
        refine absurd ?_ hquote
        rw [← (List.cons_eq_cons.mp happend).2]
        simp
      | longSign hc | shortSign hc =>
        obtain rfl := (List.cons_eq_cons.mp happend).1
        exact absurd hc (by decide)
      | word hne hbare =>
        cases text with
        | nil => exact absurd rfl hne
        | cons c cs =>
          obtain rfl := (List.cons_eq_cons.mp happend).1
          exact absurd (hbare '"' (by simp)) (by decide)
    · rw [hread, ← List.cons_append, trimEnd_append_of_last (by simp) hlast htrailing]
  rw [List.cons_append, scan, if_neg (by decide), hread, scan]

/-! ### Tokens and splits -/

/-- Another blank in front goes to the first gap. -/
theorem Splits.cons_blank {before text : List Char} {ts : List Token} {c : Char}
    (hc : isBlank c = true) (h : Splits (before ++ [c]) text ts) : Splits before (c :: text) ts := by
  have hcons : ∀ {gap : List Char}, (∀ d ∈ gap, isBlank d = true) →
      ∀ d ∈ c :: gap, isBlank d = true := by
    intro gap hgap d hd
    rcases List.mem_cons.mp hd with rfl | hd
    · exact hc
    · exact hgap d hd
  generalize hbefore : before ++ [c] = before' at h
  cases h with
  | blanks hgap => exact .blanks (hcons hgap)
  | @lexeme _ gap _ _ _ hgap htext hafter =>
    subst hbefore
    simp only [List.append_assoc, List.singleton_append] at hafter ⊢
    exact @Splits.lexeme before (c :: gap) _ _ _ (hcons hgap) htext (by simpa using hafter)
  | @unterminated _ gap _ _ hgap hbody hlast htrailing =>
    subst hbefore
    simp only [List.append_assoc, List.singleton_append]
    exact @Splits.unterminated before (c :: gap) _ _ (hcons hgap) hbody hlast htrailing

/-- The lexer splits every text. -/
theorem scan_splits (before text : List Char) :
    Splits before text (scan (.behind before) text) := by
  generalize hl : Location.behind before = l
  induction l, text using scan.induct generalizing before with
  | case1 l =>
    rw [scan]
    exact .blanks (by simp)
  | case2 l c cs hc ih =>
    subst hl
    rw [scan, if_pos hc]
    exact .cons_blank hc (ih _ (Location.advance_behind before c).symm)
  | case3 l c cs hc ih =>
    subst hl
    have hc' : isBlank c = false := by simpa using hc
    rw [scan, if_neg hc]
    rcases lexeme_cases hc' cs with ⟨hlexeme, happend⟩ | ⟨rfl, hcs, hread⟩
    · have hafter := ih (before ++ (lexeme c cs).1) (Location.advanceAll_behind _ _).symm
      have hsplit := @Splits.lexeme before [] _ _ _ (by simp) hlexeme (by simpa using hafter)
      rwa [List.nil_append, List.append_nil, happend] at hsplit
    · obtain ⟨trailing, htext, htrailing, hlast⟩ := trimEnd_spec ('"' :: cs)
      obtain ⟨body, hbody⟩ := trimEnd_quote cs
      rw [hbody] at htext hlast
      have hnot : '"' ∉ body := by
        intro hmem
        have hcs' : cs = body ++ trailing := (List.cons_eq_cons.mp htext).2
        exact hcs (by simp [hcs', hmem])
      have hsplit := @Splits.unterminated before [] _ _ (by simp) hnot hlast htrailing
      rw [hread, hbody, scan]
      rwa [List.nil_append, List.append_nil, ← htext] at hsplit

/-- There is no other split. -/
theorem Splits.scan_eq {before text : List Char} {ts : List Token} (h : Splits before text ts) :
    scan (.behind before) text = ts := by
  induction h with
  | @blanks before gap hgap =>
    have hscan := scan_blanks hgap (.behind before) []
    rwa [List.append_nil, scan] at hscan
  | lexeme hgap htext _ ih =>
    rw [scan_blanks hgap, scan_lexeme htext, Location.advanceAll_behind, Location.advanceAll_behind,
      ih, Token.ofText]
  | unterminated hgap hbody hlast htrailing =>
    rw [scan_blanks hgap, scan_unterminated hbody hlast htrailing, Location.advanceAll_behind,
      Token.ofText]

/-- What the text of a token can be. -/
theorem Splits.text_cases {before text : List Char} {ts : List Token} (h : Splits before text ts)
    {t : Token} (ht : t ∈ ts) :
    t.kind = classify t.text ∧
      ((∃ after, IsLexeme t.text.toList after) ∨ ∃ body, t.text.toList = '"' :: body ∧ '"' ∉ body) := by
  induction h with
  | blanks => cases ht
  | lexeme _ htext _ ih =>
    rcases List.mem_cons.mp ht with rfl | ht
    · exact ⟨rfl, .inl ⟨_, by simpa using htext⟩⟩
    · exact ih ht
  | unterminated _ hbody =>
    obtain rfl := List.mem_singleton.mp ht
    exact ⟨rfl, .inr ⟨_, String.toList_ofList, hbody⟩⟩

end Binisaya
