import Binisaya.Proofs.Lexing.Split

/-!
# Lexers over readers that fail

To a lexer a failure of its reader is the end of the text like any other: it may come within a word,
a string or a sign, and the token that is being read is completed all the same.  What a lexer has
found and what is still ahead of it, `Lexer.all`, is the same before and after each token, and so is
the failure that it has met or is going to meet.  Main statement: every run on a reader gives its
failure and no tokens, or, if it does not fail, the tokens of its text.
-/

namespace Binisaya

namespace Lexer

/-- The tokens found so far and those of the text that is unread. -/
def all (l : Lexer) : List Token := l.tokens ++ scan l.location l.unread

/-- The failure that has been met or is ahead. -/
def fate (l : Lexer) : Option String := l.failure <|> l.ending

/-- What is said of all that is read: the failure, or all tokens. -/
def verdict (l : Lexer) : Except String (List Token) :=
  match l.fate with
  | some reason => .error reason
  | none => .ok l.all

/-! ### Characters -/

/-- Some text has been taken, and no token found. -/
structure Passes (l : Lexer) (text : List Char) (after : Lexer) : Prop where
  unread : l.unread = text ++ after.unread
  location : after.location = l.location.advanceAll text
  tokens : after.tokens = l.tokens
  ending : after.ending = l.ending
  fate : after.fate = l.fate

theorem Passes.trans {l mid after : Lexer} {text text' : List Char} (h : l.Passes text mid)
    (h' : mid.Passes text' after) : l.Passes (text ++ text') after where
  unread := by rw [h.unread, h'.unread, List.append_assoc]
  location := by rw [h'.location, h.location, Location.advanceAll, Location.advanceAll,
    Location.advanceAll, List.foldl_append]
  tokens := h'.tokens.trans h.tokens
  ending := h'.ending.trans h.ending
  fate := h'.fate.trans h.fate

theorem meetEnd_fate (l : Lexer) : l.meetEnd.fate = l.fate := by
  unfold fate meetEnd
  cases l.failure with
  | none => cases l.ending <;> rfl
  | some reason => rfl

theorem Passes.refl (l : Lexer) : l.Passes [] l := ⟨rfl, rfl, rfl, rfl, rfl⟩

theorem meetEnd_passes (l : Lexer) : l.Passes [] l.meetEnd := ⟨rfl, rfl, rfl, rfl, l.meetEnd_fate⟩

theorem peek_eq_none {l seen : Lexer} (h : l.peek = (none, seen)) :
    l.unread = [] ∧ seen = l.meetEnd := by
  unfold peek at h
  split at h
  · next hunread =>
    cases h
    exact ⟨hunread, rfl⟩
  · cases h

theorem next_eq_none {l after : Lexer} (h : l.next = (none, after)) :
    l.unread = [] ∧ after = l.meetEnd := by
  unfold next at h
  split at h
  · next hunread =>
    cases h
    exact ⟨hunread, rfl⟩
  · cases h

theorem next_of_unread {l : Lexer} {c : Char} {cs : List Char} (h : l.unread = c :: cs) :
    l.next = (some c, l.next.2) ∧ l.Passes [c] l.next.2 := by
  unfold next
  rw [h]
  exact ⟨rfl, h, rfl, rfl, rfl, rfl⟩

theorem next_eq_some {l after : Lexer} {c : Char} (h : l.next = (some c, after)) :
    l.Passes [c] after := by
  unfold next at h
  split at h
  · cases h
  · next cs hunread =>
    cases h
    exact ⟨hunread, rfl, rfl, rfl, rfl⟩

/-- Characters of a bare word are taken as long as there are any. -/
theorem takeBare_passes (l : Lexer) :
    l.Passes l.takeBare.1 l.takeBare.2 ∧ l.takeBare.1 = l.unread.takeWhile isBare ∧
      ∀ d, l.takeBare.2.unread.head? = some d → isBare d = false := by
  fun_induction takeBare l with
  | case1 l seen hpeek =>
    obtain ⟨hunread, rfl⟩ := peek_eq_none hpeek
    exact ⟨l.meetEnd_passes, by simp [hunread], by simp [meetEnd, hunread]⟩
  | case2 l c seen hpeek hbare others ih =>
    obtain ⟨rfl, cs, hunread⟩ := peek_eq_some hpeek
    obtain ⟨hpasses, htaken, hnext⟩ := ih
    refine ⟨(next_of_unread hunread).2.trans hpasses, ?_, hnext⟩
    simp [others, htaken, hunread, hbare]
  | case3 l c seen hpeek hbare =>
    obtain ⟨rfl, cs, hunread⟩ := peek_eq_some hpeek
    exact ⟨.refl _, by simp [hunread, hbare], by simpa [hunread] using hbare⟩

/-- Text up to and with the next quote is taken, or, if there is none, all text. -/
theorem takeQuoted_passes (l : Lexer) :
    l.Passes l.takeQuoted.1.1 l.takeQuoted.2 ∧
      ((∃ body, '"' ∉ body ∧ l.takeQuoted.1 = (body ++ ['"'], true)) ∨
        ('"' ∉ l.takeQuoted.1.1 ∧ l.takeQuoted.1.2 = false ∧ l.takeQuoted.2.unread = [])) := by
  fun_induction takeQuoted l with
  | case1 l after hnext =>
    obtain ⟨hunread, rfl⟩ := next_eq_none hnext
    exact ⟨l.meetEnd_passes, .inr ⟨by simp, rfl, hunread⟩⟩
  | case2 l after hnext => exact ⟨next_eq_some hnext, .inl ⟨[], by simp, rfl⟩⟩
  | case3 l c after hnext hc others ih =>
    obtain ⟨hothers, htaken⟩ := ih
    have hquote : ¬ '"' = c := fun h => hc h.symm
    refine ⟨(next_eq_some hnext).trans hothers, ?_⟩
    obtain ⟨body, hbody, htaken⟩ | ⟨hbody, hopen, hunread⟩ := htaken
    · exact .inl ⟨c :: body, by simp [hquote, hbody], by simp [others, htaken]⟩
    · exact .inr ⟨by simp [others, hquote, hbody], hopen, hunread⟩

/-! ### Tokens -/

/-- The tokens and the failure to come are the same. -/
structure Keeps (l after : Lexer) : Prop where
  all : after.all = l.all
  ending : after.ending = l.ending
  fate : after.fate = l.fate

theorem Keeps.trans {l mid after : Lexer} (h : l.Keeps mid) (h' : mid.Keeps after) :
    l.Keeps after :=
  ⟨h'.all.trans h.all, h'.ending.trans h.ending, h'.fate.trans h.fate⟩

/-- The characters that a token of each mode begins with. -/
def Mode.Begins : Mode → Char → Prop
  | .string, c => c = '"'
  | .sign, c => isSignChar c = true
  | .bare, c => isBare c = true

/-- Blanks give no tokens. -/
theorem Passes.blanks {l after : Lexer} {gap : List Char} (h : l.Passes gap after)
    (hgap : ∀ c ∈ gap, isBlank c = true) : l.Keeps after := by
  refine ⟨?_, h.ending, h.fate⟩
  rw [all, all, h.unread, scan_blanks hgap, h.location, h.tokens]

theorem emit_keeps {l after : Lexer} {taken text : List Char} (h : l.Passes taken after)
    (htext : text ≠ [])
    (hscan : scan l.location l.unread =
      .ofText l.location text :: scan after.location after.unread) :
    l.Keeps (after.emit l.location text) := by
  rw [emit, if_neg (by simpa using htext)]
  refine ⟨?_, h.ending, h.fate⟩
  rw [all, all, hscan, h.tokens, List.append_assoc]
  rfl

theorem Passes.lexeme {l after : Lexer} {text : List Char} (h : l.Passes text after)
    (htext : IsLexeme text after.unread) : l.Keeps (after.emit l.location text) := by
  obtain ⟨c, cs, hcons, -⟩ := htext.exists_cons
  refine emit_keeps h (by simp [hcons]) ?_
  rw [h.unread, scan_lexeme htext, h.location]

/-- A string that the end of the text closes is the last token. -/
theorem Passes.unterminated {l after : Lexer} {body : List Char} (h : l.Passes ('"' :: body) after)
    (hbody : '"' ∉ body) (hend : after.unread = []) :
    l.Keeps (after.emit l.location (trimEnd ('"' :: body))) := by
  obtain ⟨text, htext⟩ := trimEnd_quote body
  refine emit_keeps h (by simp [htext]) ?_
  have hread : Binisaya.lexeme '"' body = (trimEnd ('"' :: body), []) := by
    obtain ⟨_, _, _, rfl, _⟩ | ⟨-, hread⟩ := quotedLexeme_cases body
    · simp at hbody
    · exact hread
  rw [h.unread, hend, List.append_nil, scan, scan, if_neg (by decide), hread, scan]

/-- Blanks are passed over, and what is behind them tells the mode. -/
theorem boundary_passes (l : Lexer) :
    (∃ gap, (∀ c ∈ gap, isBlank c = true) ∧ l.Passes gap l.boundary.2) ∧
      match l.boundary.1 with
      | none => l.boundary.2.unread = [] ∧ l.boundary.2.failure = l.boundary.2.fate
      | some mode => ∃ c cs, l.boundary.2.unread = c :: cs ∧ mode.Begins c := by
  fun_induction boundary l with
  | case1 l seen hpeek =>
    obtain ⟨hunread, rfl⟩ := peek_eq_none hpeek
    exact ⟨⟨[], by simp, l.meetEnd_passes⟩, hunread, l.meetEnd_fate.symm⟩
  | case2 l seen hpeek | case3 l c seen hpeek | case5 l c seen hpeek =>
    obtain ⟨rfl, cs, hunread⟩ := peek_eq_some hpeek
    exact ⟨⟨[], by simp, .refl _⟩, _, cs, hunread, by simp_all [Mode.Begins, isBare]⟩
  | case4 l c seen hpeek _ _ hblank ih =>
    obtain ⟨rfl, cs, hunread⟩ := peek_eq_some hpeek
    obtain ⟨⟨gap, hgap, hpasses⟩, hmode⟩ := ih
    refine ⟨⟨c :: gap, ?_, (next_of_unread hunread).2.trans hpasses⟩, hmode⟩
    simpa [hblank] using hgap

theorem readString_keeps {l : Lexer} {cs : List Char} (h : l.unread = '"' :: cs) :
    l.Keeps l.readString := by
  obtain ⟨hnext, hquote⟩ := next_of_unread h
  obtain ⟨hpasses, htaken⟩ := l.next.2.takeQuoted_passes
  have htext : l.next.1.toList = ['"'] := by rw [hnext]; rfl
  rw [readString, htext]
  obtain ⟨body, hbody, htaken⟩ | ⟨hbody, hopen, hend⟩ := htaken
  · rw [htaken] at hpasses ⊢
    exact (hquote.trans hpasses).lexeme (.string hbody)
  · rw [hopen]
    exact (hquote.trans hpasses).unterminated hbody hend

theorem readSign_keeps {l : Lexer} {c : Char} {cs : List Char} (h : l.unread = c :: cs)
    (hc : isSignChar c = true) : l.Keeps l.readSign := by
  obtain ⟨hnext, hfirst⟩ := next_of_unread h
  rw [readSign, hnext]
  simp only
  split
  · next hpeek =>
    obtain ⟨hend, rfl⟩ := peek_eq_none hpeek
    refine (hfirst.trans (meetEnd_passes _)).lexeme (.shortSign hc fun d hd => ?_)
    cases (congrArg List.head? hend).symm.trans hd
  · next d seen hpeek =>
    obtain ⟨rfl, ds, hunread⟩ := peek_eq_some hpeek
    split
    · next hsign => exact (hfirst.trans (next_of_unread hunread).2).lexeme (.longSign hc hsign)
    · next hsign =>
      refine hfirst.lexeme (.shortSign hc fun e he => ?_)
      cases (congrArg List.head? hunread).symm.trans he
      exact Bool.eq_false_iff.mpr hsign

theorem readBare_keeps {l : Lexer} {c : Char} {cs : List Char} (h : l.unread = c :: cs)
    (hc : isBare c = true) : l.Keeps l.readBare := by
  obtain ⟨hpasses, htaken, hnext⟩ := l.takeBare_passes
  refine hpasses.lexeme (.word ?_ ?_ hnext)
  · simp [htaken, h, hc]
  · intro d hd
    rw [htaken] at hd
    exact List.mem_takeWhile_imp hd

theorem read_keeps {l : Lexer} {mode : Mode} {c : Char} {cs : List Char} (h : l.unread = c :: cs)
    (hc : mode.Begins c) : l.Keeps (l.read mode) := by
  cases mode with
  | string =>
    cases hc
    exact readString_keeps h
  | sign => exact readSign_keeps h hc
  | bare => exact readBare_keeps h hc

/-- Reading comes to the end of the text, where the failure is met if there is one. -/
theorem readAll_keeps (l : Lexer) :
    l.Keeps l.readAll ∧ l.readAll.unread = [] ∧ l.readAll.failure = l.readAll.fate := by
  fun_induction readAll l with
  | case1 l after hboundary =>
    obtain ⟨⟨gap, hgap, hpasses⟩, hend⟩ := hboundary ▸ l.boundary_passes
    exact ⟨hpasses.blanks hgap, hend⟩
  | case2 l mode after hboundary ih =>
    obtain ⟨⟨gap, hgap, hpasses⟩, c, cs, hunread, hbegins⟩ := hboundary ▸ l.boundary_passes
    have hkeeps := (hpasses.blanks hgap).trans (read_keeps hunread hbegins)
    exact ⟨hkeeps.trans ih.1, ih.2⟩

/-! ### Runs -/

/-- A run says all that there is to say, and the next run has the same to say. -/
theorem run_verdict (l : Lexer) : l.run.1 = l.verdict ∧ l.run.2.verdict = l.verdict := by
  obtain ⟨hkeeps, hunread, hfailure⟩ := l.readAll_keeps
  have hall : l.readAll.tokens = l.all := by
    rw [← hkeeps.all, all, hunread, scan, List.append_nil]
  rw [hkeeps.fate] at hfailure
  have hrun : l.run = (l.verdict, l.readAll) := by
    simp only [run, verdict, hfailure, hall]
    cases l.fate <;> rfl
  refine ⟨congrArg Prod.fst hrun, ?_⟩
  rw [hrun, verdict, verdict, hkeeps.all, hkeeps.fate]

theorem ofReader_verdict (r : Reader) :
    (ofReader r).verdict =
      match r.failure with
      | some reason => .error reason
      | none => .ok (tokenize r.chars) := by
  cases hfailure : r.failure <;> simp [verdict, fate, ofReader, hfailure, all, tokenize]

/-- However often a lexer is run and wherever in the text its reader fails, every run gives that
failure and no tokens.  If the reader does not fail, every run gives the tokens of its text. -/
theorem runs_ofReader (r : Reader) (n : Nat) :
    (ofReader r).runs n =
      List.replicate n
        (match r.failure with
        | some reason => .error reason
        | none => .ok (tokenize r.chars)) := by
  have hruns : ∀ (n : Nat) (l : Lexer), l.runs n = List.replicate n l.verdict := by
    intro n
    induction n with
    | zero => exact fun _ => rfl
    | succ n ih =>
      intro l
      rw [runs, ih, l.run_verdict.1, l.run_verdict.2, List.replicate_succ]
  rw [hruns, ofReader_verdict]

end Lexer

end Binisaya
