import Binisaya.Proofs.Lexing.Failures

/-!
# What the states of a lexer read

At a boundary a lexer goes on to read a bare word, a string or a sign.  `Emits` says that it finds
one token there, and that the text of this token is not empty.  Main statement: the tokens of a text
are those of its only split, a lexer over any reader of the text finds them, and wherever a lexer
stands each of its states emits a token.
-/

namespace Binisaya

namespace Lexer

/-- Between two states one token has been found, which begins at the first and is not empty. -/
def Emits (l after : Lexer) : Prop :=
  ∃ text, text ≠ [] ∧ after.tokens =
    l.tokens ++ [⟨classify (String.ofList text), String.ofList text, some l.location⟩]

theorem Passes.emits {l after : Lexer} {taken text : List Char} (h : l.Passes taken after)
    (htext : text ≠ []) : l.Emits (after.emit l.location text) := by
  refine ⟨text, htext, ?_⟩
  rw [emit, if_neg (by simpa using htext), ← h.tokens, Token.ofText]

theorem readBare_emits {l : Lexer} {c : Char} {cs : List Char} (h : l.unread = c :: cs)
    (hc : isBare c = true) : l.Emits l.readBare := by
  obtain ⟨hpasses, htaken, -⟩ := l.takeBare_passes
  apply hpasses.emits
  simp [htaken, h, hc]

theorem readString_emits {l : Lexer} {cs : List Char} (h : l.unread = '"' :: cs) :
    l.Emits l.readString := by
  obtain ⟨hnext, hquote⟩ := next_of_unread h
  obtain ⟨hpasses, -⟩ := l.next.2.takeQuoted_passes
  have htext : l.next.1.toList = ['"'] := by rw [hnext]; rfl
  apply (hquote.trans hpasses).emits
  rw [htext]
  split
  · simp
  · -- a string without an end keeps its quote when the blanks at the end are taken away
    obtain ⟨body, hbody⟩ := trimEnd_quote l.next.2.takeQuoted.1.1
    rw [List.singleton_append, hbody]
    simp

theorem readSign_emits {l : Lexer} {c : Char} {cs : List Char} (h : l.unread = c :: cs) :
    l.Emits l.readSign := by
  obtain ⟨hnext, hfirst⟩ := next_of_unread h
  rw [readSign, hnext]
  simp only
  split
  · next hpeek =>
    obtain ⟨-, rfl⟩ := peek_eq_none hpeek
    exact (hfirst.trans (meetEnd_passes _)).emits (by simp)
  · next d seen hpeek =>
    obtain ⟨rfl, ds, hunread⟩ := peek_eq_some hpeek
    split
    · exact (hfirst.trans (next_of_unread hunread).2).emits (by simp)
    · exact hfirst.emits (by simp)

end Lexer

/-- The tokens of a text are those of its split into blanks and lexemes, of which there is one, and
no token has an empty text.  A lexer over a reader that delivers the text finds these tokens; and
wherever a lexer stands, at the next boundary either nothing is left or the state that it enters
emits a token. -/
theorem tokenize_eq_iff_splits (text : List Char) :
    (∀ ts, tokenize text = ts ↔ Splits [] text ts) ∧ (∀ t ∈ tokenize text, t.text ≠ "") ∧
    (∀ chunks, Utf8.decode chunks.flatten = text →
      (Lexer.ofReader ⟨chunks, none⟩).run.1 = .ok (tokenize text)) ∧
    ∀ l : Lexer,
      match l.boundary with
      | (none, after) => after.unread = [] ∧ after.tokens = l.tokens
      | (some .bare, after) => after.tokens = l.tokens ∧ after.Emits after.readBare
      | (some .string, after) => after.tokens = l.tokens ∧ after.Emits after.readString
      | (some .sign, after) => after.tokens = l.tokens ∧ after.Emits after.readSign := by
  have hsplits : Splits [] text (tokenize text) := scan_splits [] text
  refine ⟨fun ts => ⟨?_, ?_⟩, ?_, ?_, ?_⟩
  · rintro rfl
    exact hsplits
  · exact fun h => h.scan_eq
  · intro t ht hempty
    rcases (hsplits.text_cases ht).2 with ⟨after, hlexeme⟩ | ⟨body, hbody, -⟩
    · obtain ⟨c, cs, htext, -⟩ := hlexeme.exists_cons
      simp [hempty] at htext
    · simp [hempty] at hbody
  · rintro chunks rfl
    rw [(Lexer.run_verdict _).1, Lexer.ofReader_verdict]
    rfl
  · intro l
    obtain ⟨⟨gap, -, hpasses⟩, hmode⟩ := l.boundary_passes
    rcases hboundary : l.boundary with ⟨_ | mode, after⟩
    · rw [hboundary] at hpasses hmode
      exact ⟨hmode.1, hpasses.tokens⟩
    · rw [hboundary] at hpasses hmode
      obtain ⟨c, cs, hunread, hbegins⟩ := hmode
      cases mode with
      | bare => exact ⟨hpasses.tokens, Lexer.readBare_emits hunread hbegins⟩
      | string =>
        cases hbegins
        exact ⟨hpasses.tokens, Lexer.readString_emits hunread⟩
      | sign => exact ⟨hpasses.tokens, Lexer.readSign_emits hunread⟩

end Binisaya
