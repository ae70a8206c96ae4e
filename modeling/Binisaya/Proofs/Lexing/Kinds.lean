import Binisaya.Proofs.Grammar.Viable
import Binisaya.Proofs.Lexing.Source

/-!
# What tokens of a text look like

The kind of a token is found from its text alone, so tokens from elsewhere may have texts that no
text is cut into: strings with quotes within, integers with a sign, a string of a single quote.
`Token.Spelled` says what the text of each kind is when it is cut from a text.  Main statement: all
tokens of a text are spelled like this, only the last can be a string without an end, and therefore
the parser gives a program or a syntax error on them.
-/

namespace Binisaya

/-- The texts that a token of each kind has if it comes from a text. -/
def Token.Spelled (t : Token) : Prop :=
  match t.kind with
  | .keyword => ∃ k ∈ Keyword.all, k.spelling = t.text
  | .punctuation => t.text ∈ signs
  | .int => isDigits t.text.toList = true
  | .double => IsPointed t.text.toList
  | .boolean => t.text = "true" ∨ t.text = "false"
  | .string =>
    2 ≤ t.text.utf8ByteSize ∧ ∃ body, t.text = "\"" ++ body ++ "\"" ∧ '"' ∉ body.toList
  | .identifier =>
    isNameText t.text.toList = true ∧ (∀ k ∈ Keyword.all, k.spelling ≠ t.text) ∧
      t.text ≠ "true" ∧ t.text ≠ "false"
  | .unknown => True
  | .unnamed _ => False

/-- A token is what a text ends in, from a quote on to which there is no other, up to the blanks at
the end. -/
def Token.Unterminated (t : Token) (text : List Char) : Prop :=
  ∃ before body trailing, text = before ++ ('"' :: body ++ trailing) ∧
    t.text = String.ofList ('"' :: body) ∧ '"' ∉ body ∧ ∀ c ∈ trailing, isBlank c = true

/-! ### Kinds and spellings -/

/-- What the tables say about the text of a token. -/
theorem classify_reserved_cases (text : String) :
    match classify text with
    | .keyword => isKeyword text = true
    | .punctuation => isSignText text = true
    | .identifier => isKeyword text = false ∧ text ≠ "true" ∧ text ≠ "false"
    | .unnamed _ => False
    | _ => True := by
  unfold classify
  simp only
  split_ifs <;> simp_all

/-- A text that begins with a quote is a string or nothing. -/
theorem classify_of_quote {text : String} {cs : List Char} (h : text.toList = '"' :: cs) :
    classify text = if cs.getLast? = some '"' then .string else .unknown := by
  have hhead : text.toList.head? = some '"' := by rw [h, List.head?_cons]
  obtain ⟨hword, hsign⟩ :=
    not_reserved_of_head (q := (· == '"')) (by decide) (by decide) hhead (by decide)
  have htruth : ¬(text = "true" ∨ text = "false") := by
    rintro (rfl | rfl)
    · exact absurd hhead (by decide)
    · exact absurd hhead (by decide)
  have hint : isIntText ('"' :: cs) = false := by
    simp [isIntText, unsignedPart, isDigits, show isDigit '"' = false by decide]
  have hdouble : isDoubleText ('"' :: cs) = false := by
    simp [isDoubleText, unsignedPart, show isDigit '"' = false by decide]
  have hname : isNameText ('"' :: cs) = false := by
    simp [isNameText, show isNameStart '"' = false by decide]
  simp [classify, h, hword, hsign, htruth, hint, hdouble, hname, isQuotedText]

/-- A string from a text has two quotes and none between them. -/
theorem Lexeme.Legible.exists_body {text : String} (h : Legible (.string, text)) :
    ∃ body, text = "\"" ++ body ++ "\"" ∧ '"' ∉ body.toList := by
  have hclass := classify_cases text
  rw [← h.kind] at hclass
  obtain ⟨body, hbody⟩ := isQuotedText_eq hclass
  have htext : text = "\"" ++ String.ofList body ++ "\"" := by
    rw [← String.toList_inj, hbody]
    simp
  refine ⟨String.ofList body, htext, ?_⟩
  rw [htext] at h
  exact h.quote_not_mem

/-- A token that comes from a text is spelled like its kind. -/
theorem Token.spelled_of_legible {t : Token} (h : t.bare.Legible) : t.Spelled := by
  obtain ⟨kind, text, location⟩ := t
  have hkind : kind = classify text := h.kind
  have hclass := classify_cases text
  have htables := classify_reserved_cases text
  rw [← hkind] at hclass htables
  unfold Token.Spelled
  cases kind with
  | unknown => trivial
  | keyword =>
    obtain ⟨k, hk, heq⟩ := List.any_eq_true.mp htables
    exact ⟨k, hk, of_decide_eq_true heq⟩
  | punctuation => simpa [isSignText] using htables
  | int => exact Lexeme.Legible.isDigits h
  | double => exact Lexeme.Legible.isPointed h
  | boolean => exact hclass
  | string =>
    obtain ⟨body, hbody, hquote⟩ := Lexeme.Legible.exists_body h
    have hquotes : Token.HasQuotes ⟨.string, text, location⟩ := hasQuotes_of_kind hkind
    exact ⟨(hquotes rfl).1, body, hbody, hquote⟩
  | identifier =>
    obtain ⟨hword, htrue, hfalse⟩ := htables
    refine ⟨hclass, ?_, htrue, hfalse⟩
    intro k hk heq
    exact List.any_eq_false.mp hword k hk (decide_eq_true heq)
  | unnamed code => exact htables

/-! ### Strings without an end -/

/-- A lexeme that begins with a quote is a string. -/
theorem IsLexeme.classify_eq_string {text after : List Char} (h : IsLexeme text after)
    (hquote : text.head? = some '"') : classify (String.ofList text) = .string := by
  cases h with
  | @string body =>
    rw [classify_of_quote (String.toList_ofList), if_pos (by simp)]
  | longSign hc | shortSign hc =>
    obtain rfl := Option.some.inj hquote
    exact absurd hc (by decide)
  | word hne hbare => exact absurd (hbare '"' (List.mem_of_mem_head? hquote)) (by decide)

/-- Where a text is cut off at a quote and the token is no string, the string has no end. -/
theorem Splits.unterminated_of_quote {before text : List Char} {ts : List Token}
    (h : Splits before text ts) {k : Nat} {t : Token} (hk : ts[k]? = some t)
    (hquote : t.text.toList.head? = some '"') (hkind : t.kind ≠ .string) :
    t.kind = .unknown ∧ k + 1 = ts.length ∧ t.Unterminated text := by
  induction h generalizing k with
  | blanks => simp at hk
  | @lexeme before gap word after ts _ hword _ ih =>
    cases k with
    | zero =>
      cases hk
      exact absurd (hword.classify_eq_string (by simpa using hquote)) hkind
    | succ k =>
      obtain ⟨hunknown, hlast, front, body, trailing, hafter, hrest⟩ := ih (by simpa using hk)
      refine ⟨hunknown, by simpa using hlast, gap ++ (word ++ front), body, trailing, ?_, hrest⟩
      rw [hafter]
      simp only [List.append_assoc]
  | @unterminated before gap body trailing _ hbody _ htrailing =>
    cases k with
    | zero =>
      cases hk
      refine ⟨?_, rfl, gap, body, trailing, rfl, rfl, hbody, htrailing⟩
      rw [classify_of_quote (String.toList_ofList), if_neg]
      exact fun hlast => hbody (List.mem_of_getLast? hlast)
    | succ k => simp at hk

/-! ### The parser on tokens of a text -/

theorem tokenize_hasQuotes {text : List Char} {t : Token} (ht : t ∈ tokenize text) :
    t.HasQuotes :=
  hasQuotes_of_kind ((scan_splits [] text).text_cases ht).1

/-- On the tokens of a text the parser gives a program or a syntax error. -/
theorem parse_tokenize_cases (text : List Char) :
    (∃ p, parse (tokenize text) = .ok p) ∨
      ∃ s e, parse (tokenize text) = .error s ∧ s.syntaxError? = some e := by
  cases hparse : parse (tokenize text) with
  | ok p => exact .inl ⟨p, rfl⟩
  | error s =>
    obtain ⟨used, what, more, p, -, hcause, -⟩ :=
      exists_parse_of_error (fun t ht => tokenize_hasQuotes ht) hparse
    exact .inr ⟨s, _, rfl, by rw [Stop.syntaxError?, hcause]⟩

/-- All tokens of a text are spelled like their kinds.  One that begins with a quote and is no string
is the last, unknown, and all that the text has from its last quote on.  So every string can be
relieved of its quotes, and the parser gives a program or a syntax error. -/
theorem tokenize_parse_safe (bytes : List UInt8) :
    let text := Utf8.decode bytes
    (∀ t ∈ tokenize text, t.Spelled) ∧
    (∀ k t, (tokenize text)[k]? = some t → t.text.toList.head? = some '"' → t.kind ≠ .string →
      t.kind = .unknown ∧ k + 1 = (tokenize text).length ∧ t.Unterminated text) ∧
    (∀ t ∈ tokenize text, t.kind = .string →
      ∃ body, Parser.unquote t.text = .ok body ∧ t.text = "\"" ++ body ++ "\"") ∧
    ((∃ p, parse (tokenize text) = .ok p) ∨
      ∃ s e, parse (tokenize text) = .error s ∧ s.syntaxError? = some e) := by
  intro text
  have hsplits : Splits [] text (tokenize text) := scan_splits [] text
  have hspelled : ∀ t ∈ tokenize text, t.Spelled := by
    intro t ht
    obtain ⟨hkind, hshape⟩ := hsplits.text_cases ht
    exact Token.spelled_of_legible ⟨hkind, hshape⟩
  refine ⟨hspelled, ?_, ?_, parse_tokenize_cases text⟩
  · intro k t hk hquote hkind
    exact hsplits.unterminated_of_quote hk hquote hkind
  · intro t ht hkind
    have hstring := hspelled t ht
    unfold Token.Spelled at hstring
    rw [hkind] at hstring
    obtain ⟨-, body, hbody, -⟩ := hstring
    exact ⟨body, by rw [hbody, Parser.unquote_quoted], hbody⟩

/-- The bytes of `x = "a"; "b` and a blank hold one string and, at their end, one without an end, at
which the parser stops with a syntax error. -/
theorem tokenize_parse_unterminated :
    let text := Utf8.decode (Utf8.encode "x = \"a\"; \"b ".toList)
    let lexemes : List Lexeme :=
      [(.identifier, "x"), .sign "=", (.string, "\"a\""), .sign ";", (.unknown, "\"b")]
    (tokenize text).map Token.bare = lexemes ∧
      (∃ t, (tokenize text)[4]? = some t ∧ t.Unterminated text) ∧
      ∃ s e, parse (tokenize text) = .error s ∧ s.syntaxError? = some e := by
  intro text lexemes
  have hbare : (tokenize text).map Token.bare = lexemes := by decide +kernel
  have hfails : ∀ p, parse (tokenize text) ≠ .ok p := by
    have hnot : (parse (tokenize text)).toOption.isNone = true := by decide +kernel
    intro p hp
    rw [hp] at hnot
    cases hnot
  obtain ⟨-, hlast, -, hcases⟩ := tokenize_parse_safe (Utf8.encode "x = \"a\"; \"b ".toList)
  refine ⟨hbare, ?_, hcases.resolve_left fun ⟨p, hp⟩ => hfails p hp⟩
  have hat : ((tokenize text)[4]?).map Token.bare = some (.unknown, "\"b") := by
    rw [← List.getElem?_map, hbare]
    rfl
  obtain ⟨t, ht, htext⟩ := Option.map_eq_some_iff.mp hat
  obtain ⟨hkind, htext⟩ := Prod.mk.inj htext
  exact ⟨t, ht, (hlast 4 t ht (by rw [htext]; decide) (by rw [hkind]; decide)).2.2⟩

end Binisaya
