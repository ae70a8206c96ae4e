import Binisaya.Proofs.Grammar.Agreement

/-!
# Reading goes forward and can be taken up anywhere

What the parser does on the tokens from a position on decides what a reading from that position does
among all tokens.  So reading ends everywhere, goes forward, and does not depend on the tokens before
it.  Main statement: this holds of declarations, statements, expressions and whole runs, and of any
number of runs one after the other.
-/

namespace Binisaya

/-- Why parsing stopped and at which token. -/
def Stop.fault (s : Stop) : Fault := ⟨s.cause, s.found⟩

namespace Parser

theorem expression_shorter (ts : List Token) (e : Expr) (rest : List Token)
    (h : expression ts = .ok (e, rest)) : rest.length < ts.length := by
  obtain ⟨hwf, -, htakes⟩ := expression_reads _ _ _ h
  have := htakes.length
  have := List.length_pos_iff.mpr hwf.unparse_ne_nil
  omega

theorem statement_shorter (ts : List Token) (s : Stmt) (rest : List Token)
    (h : statement ts = .ok (s, rest)) : rest.length < ts.length := by
  obtain ⟨hwf, -, htakes, -⟩ := statement_reads _ _ _ h
  have := htakes.length
  have := hwf.length_pos
  omega

end Parser

namespace Parse

/-- Behind a program nothing is ahead. -/
theorem ahead_of_run_eq_ok {p : Parse} {q : Program} (h : p.run.1 = .ok q) : p.run.2 = ⟨[]⟩ := by
  unfold run at h ⊢
  cases hread : Parser.program p.ahead with
  | error s =>
    rw [hread] at h
    cases h
  | ok x =>
    obtain ⟨ss, rest⟩ := x
    obtain rfl := Parser.repeatWhile_rest Parser.statement_reads _ _ _ _ hread (Nat.le_refl _)
    rfl

/-- Where nothing is ahead every run reads the empty program. -/
theorem runs_nil (n : Nat) : runs n ⟨[]⟩ = List.replicate n (.ok []) := by
  induction n with
  | zero => rfl
  | succ n ih =>
    have hrun : run ⟨[]⟩ = (.ok [], ⟨[]⟩) := rfl
    rw [runs, hrun, ih, List.replicate_succ]

theorem runs_behind_program (n : Nat) :
    ∀ (p : Parse) (i j : Nat) (q : Program), (runs n p)[i]? = some (.ok q) → i < j → j < n →
      (runs n p)[j]? = some (.ok []) := by
  induction n with
  | zero =>
    intro p i j q _ _ hj
    omega
  | succ n ih =>
    intro p i j q hi hlt hj
    obtain ⟨j, rfl⟩ : ∃ j', j = j' + 1 := ⟨j - 1, by omega⟩
    rw [runs, List.getElem?_cons_succ]
    cases i with
    | zero =>
      rw [runs, List.getElem?_cons_zero] at hi
      rw [ahead_of_run_eq_ok (Option.some.inj hi), runs_nil]
      exact List.getElem?_replicate_of_lt (by omega)
    | succ i =>
      rw [runs, List.getElem?_cons_succ] at hi
      exact ih p.run.2 i j q hi (by omega) (by omega)

end Parse

namespace Cursor

variable {α : Type} {tokens : List Token} {k : Nat}

/-- A reading from position `k` ends with a result: every bound above the number of tokens ahead is
enough, and the result does not depend on it. -/
def Ends (c : Nat → Cursor α) (tokens : List Token) (k : Nat) (result : Except Fault α × Nat) :
    Prop :=
  ∀ bound, tokens.length < k + bound → c bound tokens k = some result

/-- From every position a reading ends, as a parser does on the tokens from there on: behind the
position if there is an answer, and else, with an expectation, neither before it nor behind the last
token. -/
def GoesForward (tokens : List Token) (c : Nat → Cursor α) (p : Parser α) : Prop :=
  ∀ k ≤ tokens.length,
    (∃ a stop, Ends c tokens k (.ok a, stop) ∧
      p (tokens.drop k) = .ok (a, tokens.drop stop) ∧ k < stop ∧ stop ≤ tokens.length) ∨
    ∃ what stop, Ends c tokens k (.error ⟨.expected what, tokens[stop]?⟩, stop) ∧
      p (tokens.drop k) = .error ⟨.expected what, tokens.drop stop⟩ ∧
      k ≤ stop ∧ stop ≤ tokens.length

section

variable {c : Nat → Cursor α} {p : Parser α} (h : ∀ n, Mirrors tokens n (c n) p)
include h

theorem ends_of_ok {a : α} {stop : Nat} (hk : k ≤ tokens.length)
    (hp : p (tokens.drop k) = .ok (a, tokens.drop stop)) (hstop : stop ≤ tokens.length) :
    Ends c tokens k (.ok a, stop) :=
  fun bound hbound => (h bound k hk hbound).of_ok hp hstop

theorem ends_of_error {cause : StopCause} {stop : Nat} (hk : k ≤ tokens.length)
    (hp : p (tokens.drop k) = .error ⟨cause, tokens.drop stop⟩) (hstop : stop ≤ tokens.length) :
    Ends c tokens k (.error ⟨cause, tokens[stop]?⟩, stop) :=
  fun bound hbound => (h bound k hk hbound).of_error hp hstop

end

/-- Where strings have room for their quotes, reading stops for no other cause than an
expectation. -/
theorem exists_expected {cause : StopCause}
    (hstrings : ∀ t ∈ tokens, t.kind = .string → 2 ≤ t.text.utf8ByteSize)
    (h : Justified tokens cause) : ∃ what, cause = .expected what := by
  cases cause with
  | expected what => exact ⟨what, rfl⟩
  | shortString bytes =>
    obtain ⟨t, ht, hkind, hshort⟩ := h
    exact absurd (hstrings t ht hkind) (Nat.not_le.mpr hshort)

theorem goesForward_of_mirrors {c : Nat → Cursor α} {p : Parser α}
    (hstrings : ∀ t ∈ tokens, t.kind = .string → 2 ≤ t.text.utf8ByteSize)
    (hshorter : ∀ ts a rest, p ts = .ok (a, rest) → rest.length < ts.length)
    (h : ∀ n, Mirrors tokens n (c n) p) : GoesForward tokens c p := by
  intro k hk
  cases h (tokens.length + 1) k hk (by omega) with
  | answers a stop _ parser _ inside =>
    have hforward : k < stop := lt_of_shorter hshorter parser
    exact Or.inl ⟨a, stop, ends_of_ok h hk parser inside, parser, hforward, inside⟩
  | stops cause stop _ parser forward inside justified =>
    obtain ⟨what, rfl⟩ := exists_expected hstrings justified
    exact Or.inr ⟨what, stop, ends_of_error h hk parser inside, parser, forward, inside⟩

/-- A run from position `k` goes as a run over the tokens from there on alone, and ends `k` positions
further. -/
theorem program_resumes (hk : k ≤ tokens.length) :
    ∃ answer stop, k + stop ≤ tokens.length ∧ Ends program tokens k (answer, k + stop) ∧
      Ends program (tokens.drop k) 0 (answer, stop) ∧
      (∀ fault, answer = .error fault →
        Justified tokens fault.cause ∧ fault.found = tokens[k + stop]?) ∧
      answer = (parse (tokens.drop k)).mapError Stop.fault ∧
      Parse.run ⟨tokens.drop k⟩ = (parse (tokens.drop k), ⟨tokens.drop (k + stop)⟩) := by
  have hmirrors : ∀ (tokens : List Token) n, Mirrors tokens n (program n) Parser.program :=
    fun _ n => program_mirrors (Nat.le_refl n)
  have hlength : (tokens.drop k).length = tokens.length - k := List.length_drop
  cases hmirrors tokens (tokens.length + 1) k hk (by omega) with
  | answers p stop _ parser forward inside =>
    obtain ⟨d, rfl⟩ := Nat.exists_eq_add_of_le forward
    have halone : Parser.program ((tokens.drop k).drop 0) = .ok (p, (tokens.drop k).drop d) := by
      rw [List.drop_zero, List.drop_drop, parser]
    refine ⟨.ok p, d, inside, ends_of_ok (hmirrors tokens) hk parser inside,
      ends_of_ok (hmirrors _) (Nat.zero_le _) halone (by omega), fun _ => nofun, ?_, ?_⟩
    · rw [parse, parser]
      rfl
    · simp only [Parse.run, parse, parser]
      rfl
  | stops cause stop _ parser forward inside justified =>
    obtain ⟨d, rfl⟩ := Nat.exists_eq_add_of_le forward
    have halone : Parser.program ((tokens.drop k).drop 0) =
        .error ⟨cause, (tokens.drop k).drop d⟩ := by
      rw [List.drop_zero, List.drop_drop, parser]
    have hends := ends_of_error (hmirrors _) (Nat.zero_le _) halone (by omega)
    rw [List.getElem?_drop] at hends
    refine ⟨_, d, inside, ends_of_error (hmirrors tokens) hk parser inside, hends, ?_, ?_, ?_⟩
    · intro fault hfault
      cases hfault
      exact ⟨justified, rfl⟩
    · simp only [parse, parser, Except.map, Except.mapError, Stop.fault, Stop.found,
        List.head?_drop]
    · simp only [Parse.run, parse, parser]
      rfl

theorem runs_eq {bound : Nat} (n : Nat) : ∀ k ≤ tokens.length, tokens.length < k + bound →
    runs bound tokens n k =
      some ((Parse.runs n ⟨tokens.drop k⟩).map (Except.mapError Stop.fault)) := by
  induction n with
  | zero => exact fun _ _ _ => rfl
  | succ n ih =>
    intro k hk hbound
    obtain ⟨answer, stop, hinside, hends, -, -, hanswer, hrun⟩ := program_resumes hk
    have hothers := ih (k + stop) hinside (by omega)
    rw [runs, hends bound hbound, Parse.runs, hrun, hanswer]
    simp [hothers]

end Cursor

/-- Reading always goes forward and can be taken up anywhere.  Let all strings among the tokens have
room for their quotes.  A declaration or statement, a statement alone and an expression end from
every position as their parsers do: behind the position if they are read, else neither before it nor
behind the last token.  A run from position `k` ends with the program, or the expectation and the
token found, of a run over the tokens from `k` on alone, `k` positions further.  Any number of runs
one after the other end, and all behind one that read a program read the empty program. -/
theorem reading_advances_and_resumes (tokens : List Token)
    (hstrings : ∀ t ∈ tokens, t.kind = .string → 2 ≤ t.text.utf8ByteSize) :
    (Cursor.GoesForward tokens Cursor.item (Parser.declarationOr Parser.statement) ∧
      Cursor.GoesForward tokens Cursor.statement Parser.statement ∧
      Cursor.GoesForward tokens Cursor.expression Parser.expression) ∧
    (∀ k ≤ tokens.length, ∃ answer stop, k + stop ≤ tokens.length ∧
      Cursor.Ends Cursor.program tokens k (answer, k + stop) ∧
      Cursor.Ends Cursor.program (tokens.drop k) 0 (answer, stop) ∧
      (∀ fault, answer = .error fault → ∃ what, fault = ⟨.expected what, tokens[k + stop]?⟩) ∧
      answer = (parse (tokens.drop k)).mapError Stop.fault ∧
      Parse.run ⟨tokens.drop k⟩ = (parse (tokens.drop k), ⟨tokens.drop (k + stop)⟩)) ∧
    ∀ n, ∃ answers,
      (∀ bound, tokens.length < bound → Cursor.runs bound tokens n 0 = some answers) ∧
      answers = (Parse.runs n ⟨tokens⟩).map (Except.mapError Stop.fault) ∧
      ∀ i j p, answers[i]? = some (.ok p) → i < j → j < n → answers[j]? = some (.ok []) := by
  refine ⟨⟨?_, ?_, ?_⟩, ?_, ?_⟩
  · exact Cursor.goesForward_of_mirrors hstrings
      (Parser.declarationOr_shorter Parser.statement_reads)
      fun n => Cursor.item_mirrors (Nat.le_refl n)
  · exact Cursor.goesForward_of_mirrors hstrings Parser.statement_shorter
      fun n => Cursor.statement_mirrors (Nat.le_refl n)
  · exact Cursor.goesForward_of_mirrors hstrings Parser.expression_shorter
      fun n => Cursor.expression_mirrors (Nat.le_refl n)
  · intro k hk
    obtain ⟨answer, stop, hinside, hends, halone, hfault, hanswer, hrun⟩ :=
      Cursor.program_resumes hk
    refine ⟨answer, stop, hinside, hends, halone, ?_, hanswer, hrun⟩
    rintro ⟨cause, found⟩ herror
    obtain ⟨hjustified, rfl⟩ := hfault _ herror
    obtain ⟨what, rfl⟩ := Cursor.exists_expected hstrings hjustified
    exact ⟨what, rfl⟩
  · intro n
    refine ⟨_, fun bound hbound => Cursor.runs_eq n 0 (Nat.zero_le _) (by omega), rfl, ?_⟩
    intro i j p hi hlt hj
    rw [List.drop_zero, List.getElem?_map] at hi ⊢
    obtain ⟨answer, hanswer, hok⟩ := Option.map_eq_some_iff.mp hi
    cases answer with
    | error s => cases hok
    | ok q =>
      rw [Parse.runs_behind_program n ⟨tokens⟩ i j q hanswer hlt hj]
      rfl

/-- In `tibuok x = "s" ug (a) { y; }` a run stops at `ug`, where a semicolon is missing.  The next run
begins there and reads the conditional up to the end, and the one behind it has nothing to read. -/
theorem runs_resume_at_missing_semicolon :
    let lexemes : List Lexeme :=
      [.word .tibuok, (.identifier, "x"), .sign "=", (.string, "\"s\""), .word .ug, .sign "(",
        (.identifier, "a"), .sign ")", .sign "\x7b", (.identifier, "y"), .sign ";", .sign "\x7d"]
    let tokens : List Token := lexemes.map fun l => ⟨l.1, l.2, none⟩
    let conditional : Stmt := .ifElse (.name "a") (.block [.expression (.name "y")]) .absent
    (∀ bound, 12 < bound → Cursor.runs bound tokens 3 0 =
      some [.error ⟨.expected .declarationEnd, tokens[4]?⟩, .ok [conditional], .ok []]) ∧
    Cursor.Ends Cursor.program tokens 4 (.ok [conditional], 12) ∧
    Cursor.Ends Cursor.program (tokens.drop 4) 0 (.ok [conditional], 8) := by
  intro lexemes tokens conditional
  obtain ⟨-, hresumes, hruns⟩ := reading_advances_and_resumes tokens (by decide)
  constructor
  · intro bound hbound
    obtain ⟨answers, hanswers, hparse, -⟩ := hruns 3
    rw [hanswers bound hbound, hparse]
    rfl
  · obtain ⟨answer, stop, hinside, hends, halone, -, hanswer, hrun⟩ := hresumes 4 (by decide)
    have hread : Parse.run ⟨tokens.drop 4⟩ = (.ok [conditional], ⟨[]⟩) := rfl
    have hparse : parse (tokens.drop 4) = .ok [conditional] := rfl
    obtain rfl : stop = 8 := by
      rw [hread] at hrun
      have hlength := congrArg (fun r => r.2.ahead.length) hrun
      simp only [List.length_nil, List.length_drop] at hlength
      have : tokens.length = 12 := rfl
      omega
    rw [hparse] at hanswer
    subst hanswer
    exact ⟨hends, halone⟩

end Binisaya
