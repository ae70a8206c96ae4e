import Binisaya.Proofs.Grammar.Viable

/-!
# Programs one behind the other

A statement that is complete stays complete when more tokens come behind it, unless it ends in a
conditional without an alternative and an `edi` is what comes.  Main statement: tokens behind those
of a program are read as if they stood alone, be they a program or not.
-/

namespace Binisaya

namespace Parser

variable {α : Type}

/-- If every item takes a token, as many rounds as tokens are enough, and more make no
difference. -/
theorem repeatWhile_rounds {more : List Token → Bool} {item : Parser α} (hend : more [] = false)
    (htakes : ∀ ts a mid, item ts = .ok (a, mid) → mid.length < ts.length) (rounds : Nat) :
    ∀ (rounds' : Nat) (ts : List Token), ts.length ≤ rounds → ts.length ≤ rounds' →
      repeatWhile more item rounds ts = repeatWhile more item rounds' ts := by
  induction rounds with
  | zero =>
    intro rounds' ts hlength _
    obtain rfl := List.eq_nil_of_length_eq_zero (Nat.le_zero.mp hlength)
    rw [repeatWhile_nil hend, repeatWhile_nil hend]
  | succ rounds ih =>
    intro rounds' ts hlength hlength'
    cases rounds' with
    | zero =>
      obtain rfl := List.eq_nil_of_length_eq_zero (Nat.le_zero.mp hlength')
      rw [repeatWhile_nil hend, repeatWhile_nil hend]
    | succ rounds' =>
      unfold repeatWhile
      rw [bind_of_ok (get_run ts), bind_of_ok (get_run ts)]
      by_cases hmore : more ts = true
      · rw [if_pos hmore, if_pos hmore, bind_run, bind_run]
        cases hitem : item ts with
        | error s => rfl
        | ok x =>
          obtain ⟨first, mid⟩ := x
          have hshorter := htakes ts first mid hitem
          simp only [Except.bind]
          rw [bind_run, bind_run, ih rounds' mid (by omega) (by omega)]
      · rw [if_neg hmore, if_neg hmore]

/-- A program that begins with a statement is this statement and the program behind it. -/
theorem program_step {ts rest : List Token} {s : Stmt}
    (h : declarationOr statement ts = .ok (s, rest)) :
    program ts = (program rest).map fun x => (s :: x.1, x.2) := by
  have hshorter := declarationOr_shorter statement_reads ts s rest h
  cases ts with
  | nil => exact absurd hshorter (Nat.not_lt_zero _)
  | cons t ts =>
    have hall : program (t :: ts) =
        repeatWhile (fun ahead => !ahead.isEmpty) (declarationOr statement) (ts.length + 1)
          (t :: ts) := rfl
    have hrounds : repeatWhile (fun ahead => !ahead.isEmpty) (declarationOr statement) ts.length
        rest = program rest :=
      repeatWhile_rounds rfl (declarationOr_shorter statement_reads) ts.length rest.length rest
        (Nat.le_of_lt_succ hshorter) (Nat.le_refl _)
    have hmore : (!(t :: ts).isEmpty) = true := rfl
    rw [hall, repeatWhile, bind_of_ok (get_run _), if_pos hmore, bind_of_ok h, bind_run, hrounds]
    cases program rest <;> rfl

/-- The tokens of a program and more behind them. -/
theorem program_append {p : Program} {used rest : List Token} (hwf : WellFormed p)
    (hused : used.map Token.bare = unparse p) (hedi : NotAhead (.word .edi) rest) :
    program (used ++ rest) = (program rest).map fun x => (p ++ x.1, x.2) := by
  induction p generalizing used with
  | nil =>
    obtain rfl := List.map_eq_nil_iff.mp hused
    rw [List.nil_append]
    cases program rest <;> rfl
  | cons s p ih =>
    obtain ⟨us, others, rfl, hus, hothers⟩ := List.map_eq_append_iff.mp hused
    have hfirst : declarationOr statement (us ++ (others ++ rest)) = .ok (s, others ++ rest) :=
      declarationOr_accepts (statement_accepts (us.length + 1)) _ hwf.1 hus (Nat.lt_succ_self _)
        fun _ => notAhead_edi hwf.2 hothers hedi
    rw [List.append_assoc, program_step hfirst, ih hwf.2 hothers]
    cases program rest <;> rfl

end Parser

/-- Tokens behind those of a program, of which all strings have their quotes. -/
theorem parse_append_of_hasQuotes {ts more : List Token} {p : Program}
    (hquotes : ∀ t ∈ ts, t.HasQuotes) (h : parse ts = .ok p)
    (hedi : Parser.NotAhead (.word .edi) more) :
    parse (ts ++ more) = (parse more).map (p ++ ·) := by
  obtain ⟨hwf, used, hused, hspelled⟩ := parse_takes h
  rw [List.append_nil] at hused
  subst hused
  unfold parse
  rw [Parser.program_append hwf (Token.map_bare_of_spelledBy hspelled hquotes) hedi]
  cases Parser.program more <;> rfl

/-- Sequences alike that end in the same tokens make the parser stop in the same way, if it stops
within these tokens. -/
theorem parse_eq_error_of_like {ts ts' more : List Token} {s : Stop}
    (hlike : Like [] [] (ts ++ more) (ts' ++ more)) (hrest : s.rest <:+ more)
    (h : parse (ts' ++ more) = .error s) : parse (ts ++ more) = .error s := by
  obtain ⟨hsuffix, hpast | ⟨houtcome, hleft⟩⟩ := program_tracks .none hlike
  · exact absurd hpast (Nat.not_lt_zero _)
  rw [parse_eq_error_iff.mp h] at houtcome hleft
  cases hstop : Parser.program (ts ++ more) with
  | ok x =>
    rw [hstop] at houtcome
    cases houtcome
  | error s' =>
    rw [hstop] at houtcome hleft hsuffix
    obtain ⟨cause, rest⟩ := s'
    have hcause : cause = s.cause := by simpa [Parser.outcome] using houtcome
    have hlength : rest.length = s.rest.length := by simpa [Parser.leftover] using hleft.length
    have hwithin : rest <:+ more :=
      List.suffix_of_suffix_length_le hsuffix (List.suffix_append ts more)
        (hlength ▸ hrest.length_le)
    have hsame : rest = s.rest := by
      rw [List.suffix_iff_eq_drop.mp hwithin, List.suffix_iff_eq_drop.mp hrest, hlength]
    rw [parse_eq_error_iff, hstop, hcause, hsame]

/-- Parsing goes on behind a program as it begins.  If some tokens are a program and those behind
them do not begin with `edi`, the whole is the program with the statements of the other tokens
behind its own; or, if these are no program, parsing stops as on them alone, expecting the same at
the same token. -/
theorem parse_append {ts more : List Token} {p : Program}
    (hstrings : ∀ t ∈ ts ++ more, t.kind = .string → 2 ≤ t.text.utf8ByteSize)
    (h : parse ts = .ok p) (hedi : Parser.NotAhead (.word .edi) more) :
    (∀ q, parse more = .ok q → parse (ts ++ more) = .ok (p ++ q)) ∧
    ∀ s, parse more = .error s →
      parse (ts ++ more) = .error s ∧ ∃ e, s.syntaxError? = some e := by
  have hquotes : ∀ t ∈ ts.map Token.requote, t.HasQuotes := by
    intro t ht
    obtain ⟨u, hu, rfl⟩ := List.mem_map.mp ht
    exact Token.requote_hasQuotes (hstrings u (List.mem_append_left more hu))
  have halone : parse (ts.map Token.requote) = .ok p :=
    parse_of_like (by simpa using Like.requote ts []) h
  have hjoined := parse_append_of_hasQuotes hquotes halone hedi
  have hlike := Like.requote ts more
  constructor
  · intro q hq
    rw [hq] at hjoined
    exact parse_of_like hlike.symm hjoined
  · intro s hs
    rw [hs] at hjoined
    have hself : Like [] [] more more := by simpa using @Like.append [] [] more
    have hrest := (program_tracks .none hself).1
    rw [parse_eq_error_iff.mp hs] at hrest
    refine ⟨parse_eq_error_of_like hlike hrest hjoined, ?_⟩
    obtain ⟨taken, htaken⟩ : s.rest <:+ more := hrest
    rw [← htaken] at hs hstrings
    obtain ⟨what, -, -, hwhat, -⟩ :=
      exists_parse_of_error_at (fun t ht => hstrings t (List.mem_append_right ts ht)) hs
    exact ⟨_, by rw [Stop.syntaxError?, hwhat]⟩

/-- Behind `ug (a) ug (b) x = s;`, where the string has two bytes but no quotes, `y = 1;` is another
statement, and `ug (y) edi` is no program, as it is none alone. -/
theorem parse_append_open_conditional :
    let tokens : List Lexeme → List Token := List.map fun l => ⟨l.1, l.2, none⟩
    let conditional := tokens [.word .ug, .sign "(", (.identifier, "a"), .sign ")", .word .ug,
      .sign "(", (.identifier, "b"), .sign ")", (.identifier, "x"), .sign "=", (.string, "ab"),
      .sign ";"]
    let statement := tokens [(.identifier, "y"), .sign "=", (.int, "1"), .sign ";"]
    let broken := tokens [.word .ug, .sign "(", (.identifier, "y"), .sign ")", .word .edi]
    parse (conditional ++ statement) =
      .ok [.ifElse (.name "a")
          (.ifElse (.name "b") (.expression (.assign "x" (.literal .string ""))) .absent) .absent,
        .expression (.assign "y" (.literal .int "1"))] ∧
    parse (conditional ++ broken) = .error ⟨.expected .expression, broken.drop 4⟩ := by
  intro tokens conditional statement broken
  have hparse : parse conditional = .ok [.ifElse (.name "a")
      (.ifElse (.name "b") (.expression (.assign "x" (.literal .string ""))) .absent) .absent] := by
    rfl
  constructor
  · exact (parse_append (by decide) hparse (Parser.notAhead_cons (by decide))).1 _ rfl
  · exact ((parse_append (by decide) hparse (Parser.notAhead_cons (by decide))).2 _ rfl).1

end Binisaya
