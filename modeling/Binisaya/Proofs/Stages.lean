import Binisaya.Compile
import Binisaya.Proofs.Lexing.Failures
import Binisaya.Proofs.Lexing.Kinds

/-!
# Where a compilation stops

A compilation goes through its stages until one finds something wrong.  `StageContract` says what it
leaves behind at each of the points where it can stop.  Main statement: every compilation of a text
keeps this contract, unless it breaks off while it lowers the program; and a reader is compiled like
the text it delivers, or not at all.
-/

namespace Binisaya

/-- Whether an error is one that a compilation does not come back from: there was no room for the
quotes of a string, or a value went to a slot of another type. -/
def CompileError.breaksOff : CompileError → Bool
  | parsing stop => stop.syntaxError?.isNone
  | lowering (.storeMismatch _ _) => true
  | inFile _ error => error.breaksOff
  | _ => false

/-- Whether a compilation breaks off. -/
def Outcome.breaksOff (o : Outcome) : Bool := o.error.any CompileError.breaksOff

/-- The listing of the tokens, if it is asked for. -/
def Options.dump (options : Options) (ts : List Token) : String :=
  if options.dumpTokens then Token.listing ts else ""

/-- The text of a program in each form. -/
def EmitTarget.Writes (p : Program) (output : String) : EmitTarget → Prop
  | text => output = renderProgram p
  | llvm => ∃ m, lower p = .ok m ∧ output = m.render

/-- What a compilation of `ts` leaves behind, where `c` is what it has produced. -/
structure StageContract (options : Options) (ts : List Token) (o : Outcome) (c : Compilation) :
    Prop where
  result : o.result = some c
  tokens : c.tokens = ts
  dump : o.dump = options.dump ts
  /-- The error is a syntax error exactly if there is no program. -/
  syntaxError_iff : (∃ s e, o.error = some (.parsing s) ∧ s.syntaxError? = some e ∧
    (CompileError.parsing s).message = "syntax error: " ++ e.message) ↔ ∃ s, parse ts = .error s
  unparsed : ∀ s, parse ts = .error s →
    o.error = some (.parsing s) ∧ c.program = none ∧ c.diagnostics = [] ∧ c.output = ""
  /-- The error is a semantic one exactly if there is a program with something wrong in it. -/
  semantic_iff : o.error = some .semantic ↔ ∃ p, parse ts = .ok p ∧ analyze p ≠ []
  rejected : ∀ p, parse ts = .ok p → analyze p ≠ [] →
    c.program = some p ∧ c.diagnostics = analyze p ∧ c.output = ""
  /-- A program with nothing wrong in it is written in the form that is asked for, or has no
  code. -/
  accepted : ∀ p, parse ts = .ok p → analyze p = [] →
    c.program = some p ∧ c.diagnostics = [] ∧
      ((options.emit = .llvm ∧ c.output = "" ∧
          ∃ cause, lower p = .error (.error cause) ∧ o.error = some (.lowering (.error cause))) ∨
        (o.error = none ∧ options.emit.Writes p c.output))

/-! ### The points where a compilation stops -/

section

variable {options : Options} {ts : List Token} {p : Program}

theorem compileTokens_of_stop {s : Stop} (h : parse ts = .error s) :
    compileTokens options ts = ⟨options.dump ts, some ⟨ts, none, [], ""⟩, some (.parsing s)⟩ := by
  simp only [compileTokens, h]
  rfl

theorem compileTokens_of_rejected (h : parse ts = .ok p) (hp : analyze p ≠ []) :
    compileTokens options ts =
      ⟨options.dump ts, some ⟨ts, some p, analyze p, ""⟩, some .semantic⟩ := by
  have hempty : (analyze p).isEmpty = false := by simpa using hp
  simp only [compileTokens, h, hempty]
  rfl

theorem compileTokens_of_emitted {output : String} (h : parse ts = .ok p) (hp : analyze p = [])
    (hemit : emitProgram options.emit p = .ok output) :
    compileTokens options ts = ⟨options.dump ts, some ⟨ts, some p, [], output⟩, none⟩ := by
  simp only [compileTokens, h, hp, hemit]
  rfl

theorem compileTokens_of_failure {failure : LoweringFailure} (h : parse ts = .ok p)
    (hp : analyze p = []) (hemit : emitProgram options.emit p = .error failure) :
    compileTokens options ts =
      ⟨options.dump ts, some ⟨ts, some p, [], ""⟩, some (.lowering failure)⟩ := by
  simp only [compileTokens, h, hp, hemit]
  rfl

/-- Only lowering can fail to write a program. -/
theorem lower_eq_error_of_emitProgram {target : EmitTarget} {failure : LoweringFailure}
    (h : emitProgram target p = .error failure) : target = .llvm ∧ lower p = .error failure := by
  cases target with
  | text => cases h
  | llvm =>
    unfold emitProgram at h
    cases hlower : lower p with
    | ok m =>
      rw [hlower] at h
      cases h
    | error failure' =>
      rw [hlower] at h
      cases h
      exact ⟨rfl, rfl⟩

theorem writes_of_emitProgram {target : EmitTarget} {output : String}
    (h : emitProgram target p = .ok output) : target.Writes p output := by
  cases target with
  | text =>
    cases h
    rfl
  | llvm =>
    unfold emitProgram at h
    cases hlower : lower p with
    | ok m =>
      rw [hlower] at h
      cases h
      exact ⟨m, hlower, rfl⟩
    | error failure =>
      rw [hlower] at h
      cases h

/-! ### The contract at each of them -/

theorem Stop.message_of_syntaxError {s : Stop} {e : SyntaxError} (h : s.syntaxError? = some e) :
    s.message = e.message := by
  unfold Stop.syntaxError? at h
  unfold Stop.message
  split at h
  · next what hcause =>
    cases h
    rw [hcause]
  · cases h

theorem StageContract.of_stop {s : Stop} {e : SyntaxError} (h : parse ts = .error s)
    (he : s.syntaxError? = some e) :
    StageContract options ts (compileTokens options ts) ⟨ts, none, [], ""⟩ := by
  rw [compileTokens_of_stop h]
  refine ⟨rfl, rfl, rfl, ?_, ?_, by simp [h], by simp [h], by simp [h]⟩
  · have hmessage : (CompileError.parsing s).message = "syntax error: " ++ e.message :=
      congrArg ("syntax error: " ++ ·) (Stop.message_of_syntaxError he)
    exact iff_of_true ⟨s, e, rfl, he, hmessage⟩ ⟨s, h⟩
  · intro s' hs'
    cases h.symm.trans hs'
    exact ⟨rfl, rfl, rfl, rfl⟩

theorem StageContract.of_rejected (h : parse ts = .ok p) (hp : analyze p ≠ []) :
    StageContract options ts (compileTokens options ts) ⟨ts, some p, analyze p, ""⟩ := by
  rw [compileTokens_of_rejected h hp]
  refine ⟨rfl, rfl, rfl, by simp [h], by simp [h], iff_of_true rfl ⟨p, h, hp⟩, ?_, ?_⟩
  · intro p' hp'
    cases h.symm.trans hp'
    exact fun _ => ⟨rfl, rfl, rfl⟩
  · intro p' hp' hnil
    cases h.symm.trans hp'
    exact absurd hnil hp

theorem StageContract.of_emitted {output : String} (h : parse ts = .ok p) (hp : analyze p = [])
    (hemit : emitProgram options.emit p = .ok output) :
    StageContract options ts (compileTokens options ts) ⟨ts, some p, [], output⟩ := by
  rw [compileTokens_of_emitted h hp hemit]
  refine ⟨rfl, rfl, rfl, by simp [h], by simp [h], by simp [h, hp], by simp [h, hp], ?_⟩
  intro p' hp' _
  cases h.symm.trans hp'
  exact ⟨rfl, rfl, .inr ⟨rfl, writes_of_emitProgram hemit⟩⟩

theorem StageContract.of_failure {cause : LoweringError} (h : parse ts = .ok p)
    (hp : analyze p = []) (hemit : emitProgram options.emit p = .error (.error cause)) :
    StageContract options ts (compileTokens options ts) ⟨ts, some p, [], ""⟩ := by
  rw [compileTokens_of_failure h hp hemit]
  refine ⟨rfl, rfl, rfl, by simp [h], by simp [h], by simp [h, hp], by simp [h, hp], ?_⟩
  intro p' hp' _
  cases h.symm.trans hp'
  obtain ⟨htarget, hlower⟩ := lower_eq_error_of_emitProgram hemit
  exact ⟨rfl, rfl, .inl ⟨htarget, rfl, cause, hlower, rfl⟩⟩

end

/-! ### Texts and readers -/

/-- Where the compilation of a text can stop: at a syntax error, at what is wrong with the program,
at its output, or at the failure to write it. -/
theorem compile_cases (target : EmitTarget) (text : List Char) :
    (∃ s e, parse (tokenize text) = .error s ∧ s.syntaxError? = some e) ∨
      ∃ p, parse (tokenize text) = .ok p ∧
        (analyze p ≠ [] ∨
          (analyze p = [] ∧ ((∃ output, emitProgram target p = .ok output) ∨
            ∃ failure, emitProgram target p = .error failure))) := by
  obtain ⟨p, hparse⟩ | ⟨s, e, hparse, he⟩ := parse_tokenize_cases text
  · refine .inr ⟨p, hparse, ?_⟩
    by_cases hp : analyze p = []
    · refine .inr ⟨hp, ?_⟩
      cases hemit : emitProgram target p with
      | ok output => exact .inl ⟨output, rfl⟩
      | error failure => exact .inr ⟨failure, rfl⟩
    · exact .inl hp
  · exact .inl ⟨s, e, hparse, he⟩

/-- A compilation of a text breaks off only while it lowers a program with nothing wrong in it. -/
theorem compileText_breaksOff_iff (options : Options) (text : List Char) :
    (compileText options text).breaksOff = true ↔
      options.emit = .llvm ∧ ∃ p value slot, parse (tokenize text) = .ok p ∧ analyze p = [] ∧
        lower p = .error (.storeMismatch value slot) := by
  unfold compileText
  constructor
  · intro h
    obtain ⟨s, e, hparse, he⟩ | ⟨p, hparse, hp | ⟨hp, ⟨output, hemit⟩ | ⟨failure, hemit⟩⟩⟩ :=
      compile_cases options.emit text
    · rw [compileTokens_of_stop hparse] at h
      simp [Outcome.breaksOff, CompileError.breaksOff, he] at h
    · rw [compileTokens_of_rejected hparse hp] at h
      cases h
    · rw [compileTokens_of_emitted hparse hp hemit] at h
      cases h
    · obtain ⟨htarget, hlower⟩ := lower_eq_error_of_emitProgram hemit
      cases failure with
      | error cause =>
        rw [compileTokens_of_failure hparse hp hemit] at h
        cases h
      | storeMismatch value slot => exact ⟨htarget, p, value, slot, hparse, hp, hlower⟩
  · rintro ⟨htarget, p, value, slot, hparse, hp, hlower⟩
    have hemit : emitProgram options.emit p = .error (.storeMismatch value slot) := by
      rw [htarget, emitProgram, hlower]
      rfl
    rw [compileTokens_of_failure hparse hp hemit]
    rfl

theorem compileText_staged {options : Options} {text : List Char}
    (h : (compileText options text).breaksOff = false) :
    ∃ c, StageContract options (tokenize text) (compileText options text) c := by
  unfold compileText at h ⊢
  obtain ⟨s, e, hparse, he⟩ | ⟨p, hparse, hp | ⟨hp, ⟨output, hemit⟩ | ⟨failure, hemit⟩⟩⟩ :=
    compile_cases options.emit text
  · exact ⟨_, .of_stop hparse he⟩
  · exact ⟨_, .of_rejected hparse hp⟩
  · exact ⟨_, .of_emitted hparse hp hemit⟩
  · cases failure with
    | error cause => exact ⟨_, .of_failure hparse hp hemit⟩
    | storeMismatch value slot =>
      rw [compileTokens_of_failure hparse hp hemit] at h
      cases h

theorem compileReader_eq (options : Options) (r : Reader) :
    compileReader options r =
      match r.failure with
      | none => compileText options r.chars
      | some reason => ⟨"", none, some (.reading reason)⟩ := by
  rw [compileReader, (Lexer.run_verdict _).1, Lexer.ofReader_verdict]
  cases r.failure <;> rfl

/-- A compilation of a source comes to an end unless it lowers a program with nothing wrong in it to
a store in a slot of another type.  Where it comes to an end, it keeps the contract of its stages.
What a reader delivers is compiled like the source of these bytes; a reader that fails, at whatever
point, gives nothing but an error that says so. -/
theorem compile_stops_as_staged (options : Options) :
    (∀ source : List UInt8,
      let text := Utf8.decode source
      let o := compileText options text
      (o.breaksOff = true ↔ options.emit = .llvm ∧ ∃ p value slot,
        parse (tokenize text) = .ok p ∧ analyze p = [] ∧
          lower p = .error (.storeMismatch value slot)) ∧
      (o.breaksOff = false → ∃ c, StageContract options (tokenize text) o c)) ∧
    ∀ r : Reader,
      let o := compileReader options r
      (r.failure = none → o = compileText options (Utf8.decode r.chunks.flatten)) ∧
      ∀ reason, r.failure = some reason →
        o.result = none ∧ o.dump = "" ∧
          ∃ e, o.error = some e ∧ e.message = "read source: " ++ reason := by
  refine ⟨fun source => ⟨compileText_breaksOff_iff options _, compileText_staged⟩, fun r => ?_⟩
  simp only [compileReader_eq]
  refine ⟨?_, ?_⟩
  · intro hnone
    rw [hnone]
    rfl
  · intro reason hsome
    rw [hsome]
    exact ⟨rfl, rfl, _, rfl, rfl⟩

/-- The sum of two strings has nothing wrong in it but has no code: the compilation comes to an end
with the listing, the program, and the error of lowering.  A reader that fails behind the same bytes
gives none of them. -/
theorem staged_string_sum :
    let options : Options := ⟨.llvm, true⟩
    let source := Utf8.encode "imprenta_gawas \"a\" + \"b\";".toList
    let o := compileText options (Utf8.decode source)
    let failed := compileReader options ⟨[source], some "gone"⟩
    o.breaksOff = false ∧
      (∃ c, o.result = some c ∧ c.program.isSome ∧ c.output = "" ∧
        o.error = some (.lowering (.error (.unsupportedArithmetic .add .string)))) ∧
      failed.result = none ∧ failed.dump = "" := by
  intro options source o failed
  obtain ⟨hsource, hreader⟩ := compile_stops_as_staged options
  let p : Program :=
    [.print (.binary .add (.literal .string "a") (.literal .string "b"))]
  have hparse : parse (tokenize (Utf8.decode source)) = .ok p := by
    refine parse_of_spelled ?_ ?_
    · simp only [p, WellFormed, Stmt.AllWellFormed, Stmt.WellFormed]
      decide
    · decide +kernel
  have hlower : lower p = .error (.error (.unsupportedArithmetic .add .string)) := by rfl
  have hends : o.breaksOff = false := by decide +kernel
  obtain ⟨c, hc⟩ := (hsource source).2 hends
  obtain ⟨hprogram, -, hcode⟩ := hc.accepted p hparse (by decide)
  obtain ⟨hresult, hdump, -⟩ := (hreader ⟨[source], some "gone"⟩).2 "gone" rfl
  refine ⟨hends, ⟨c, hc.result, by rw [hprogram]; rfl, ?_⟩, hresult, hdump⟩
  rcases hcode with ⟨-, houtput, cause, hcause, herror⟩ | ⟨-, m, hm, -⟩
  · cases hlower.symm.trans hcause
    exact ⟨houtput, herror⟩
  · cases hlower.symm.trans hm

end Binisaya
