import Binisaya.CommandLine.Run
import Binisaya.Proofs.Stages

/-!
# Compilations that end in any order

The files of a job are compiled at the same time, and each compilation fills a slot of its own when
it ends.  `Job.Step` is the end of one of them, whichever it may be; `Job.Reaches` says which stages
a job can come to, and in which order compilations have ended on the way.  Main statement: unless a
compilation breaks off, a job can always go on to its end, the orders in which it does so are all
orders of its files, and in each of them the command prints what it prints about the files one at a
time.
-/

namespace Binisaya

/-! ### Slots -/

namespace Slots

theorem fillAll_concat (reports : List Report) (order : List Nat) (i : Nat) :
    fillAll reports (order ++ [i]) = fill reports (fillAll reports order) i := by
  simp [fillAll]

theorem length_fillAll (reports : List Report) (order : List Nat) :
    (fillAll reports order).length = reports.length := by
  induction order using List.reverseRecOn with
  | nil => simp [fillAll, empty]
  | append_singleton order i ih => rw [fillAll_concat, fill, List.length_set, ih]

/-- Whatever the order was, the slots of the files in it hold the reports on these files, and the
other slots hold nothing. -/
theorem getElem?_fillAll (reports : List Report) (order : List Nat) (i : Nat) :
    (fillAll reports order)[i]? = (reports[i]?).map fun r => if i ∈ order then some r else none := by
  induction order using List.reverseRecOn with
  | nil =>
    simp only [fillAll, List.foldl_nil, empty, List.getElem?_replicate]
    by_cases hi : i < reports.length
    · simp [hi]
    · simp [hi]
  | append_singleton order k ih =>
    rw [fillAll_concat, fill, List.getElem?_set, length_fillAll, ih]
    by_cases hk : k = i
    · subst hk
      by_cases hlt : k < reports.length
      · simp [hlt]
      · simp [hlt]
    · simp [hk, Ne.symm hk]

/-- When all compilations have ended, the slots hold all reports. -/
theorem fillAll_of_perm {reports : List Report} {order : List Nat}
    (h : order.Perm (List.range reports.length)) : fillAll reports order = reports.map some := by
  apply List.ext_getElem?
  intro i
  rw [getElem?_fillAll, List.getElem?_map]
  by_cases hi : i < reports.length
  · have hmem : i ∈ order := h.mem_iff.mpr (List.mem_range.mpr hi)
    simp [hmem]
  · simp [hi]

theorem text_map_some (reports : List Report) :
    text (reports.map some) = String.join (reports.map Report.text) := by
  rw [text, List.map_map]
  rfl

theorem allOk_map_some (reports : List Report) :
    allOk (reports.map some) = reports.all Report.ok := by
  rw [allOk, List.all_map]
  rfl

end Slots

/-! ### What a file comes to -/

/-- The file is read, its text is a program with nothing wrong in it, and the program is written in
the form that is asked for. -/
def Options.Compiles (options : Options) (opened : Except OpenFailure Reader) : Prop :=
  ∃ r p output, opened = .ok r ∧ r.failure = none ∧
    parse (tokenize (Utf8.decode r.chunks.flatten)) = .ok p ∧ analyze p = [] ∧
    options.emit.Writes p output

theorem emitProgram_eq_ok_iff {target : EmitTarget} {p : Program} {output : String} :
    emitProgram target p = .ok output ↔ target.Writes p output := by
  constructor
  · exact writes_of_emitProgram
  · intro h
    cases target with
    | text =>
      rw [show output = renderProgram p from h]
      rfl
    | llvm =>
      obtain ⟨m, hlower, rfl⟩ := h
      rw [emitProgram, hlower]
      rfl

theorem compileText_error_eq_none_iff {options : Options} {text : List Char} :
    (compileText options text).error = none ↔
      ∃ p output, parse (tokenize text) = .ok p ∧ analyze p = [] ∧
        options.emit.Writes p output := by
  unfold compileText
  constructor
  · intro h
    rcases compile_cases options.emit text with
      ⟨s, e, hparse, -⟩ | ⟨p, hparse, hp | ⟨hp, ⟨output, hemit⟩ | ⟨failure, hemit⟩⟩⟩
    · rw [compileTokens_of_stop hparse] at h
      cases h
    · rw [compileTokens_of_rejected hparse hp] at h
      cases h
    · exact ⟨p, output, hparse, hp, writes_of_emitProgram hemit⟩
    · rw [compileTokens_of_failure hparse hp hemit] at h
      cases h
  · rintro ⟨p, output, hparse, hp, hwrites⟩
    rw [compileTokens_of_emitted hparse hp (emitProgram_eq_ok_iff.mpr hwrites)]

theorem compileFile_error_eq_none_iff {options : Options} {name : String}
    {opened : Except OpenFailure Reader} :
    (compileFile options name opened).error = none ↔ options.Compiles opened := by
  cases opened with
  | error why => simp [compileFile, Options.Compiles]
  | ok r =>
    simp only [compileFile, Option.map_eq_none_iff, compileReader_eq, Options.Compiles,
      Except.ok.injEq]
    cases hfailure : r.failure with
    | some reason => simp [hfailure]
    | none =>
      rw [compileText_error_eq_none_iff]
      constructor
      · rintro ⟨p, output, h⟩
        exact ⟨r, p, output, rfl, hfailure, h⟩
      · rintro ⟨r', p, output, rfl, -, h⟩
        exact ⟨p, output, h⟩

theorem Report.ofOutcome_ok (options : Options) (name : String) (outcome : Outcome) :
    (Report.ofOutcome options name outcome).ok = outcome.error.isNone := by
  unfold ofOutcome
  cases outcome.error with
  | none => rfl
  | some e =>
    simp only
    split <;> rfl

namespace Job

/-! ### Jobs under way -/

/-- A job under way: the indices of the files whose compilations have not ended, and the slots. -/
structure Stage where
  running : List Nat
  slots : Slots
  deriving DecidableEq, Repr

/-- What the command answers at the end of a job. -/
def Stage.result (stage : Stage) : CommandResult :=
  ⟨stage.slots.text, "", if stage.slots.allOk then 0 else 1⟩

/-- No compilation has ended. -/
def start (j : Job) : Stage := ⟨List.range j.files.length, .empty j.files.length⟩

variable (j : Job) (opened : String → Except OpenFailure Reader)

/-- The compilation of one of the files. -/
def outcome (name : String) : Outcome := compileFile j.options name (opened name)

/-- The compilation of the file with index `i` ends, and its report goes to its slot.  A compilation
that breaks off never ends: it takes the command down. -/
inductive Step : Stage → Nat → Stage → Prop where
  | ends {running : List Nat} {slots : Slots} {i : Nat} {name : String} (hrunning : i ∈ running)
      (hname : j.files[i]? = some name) (hends : (j.outcome opened name).breaksOff = false) :
      Step ⟨running, slots⟩ i ⟨running.erase i, Slots.fill (j.reports opened) slots i⟩

/-- The job comes to a stage when its compilations have ended in the given order. -/
inductive Reaches : List Nat → Stage → Prop where
  | start : Reaches [] j.start
  | step {order : List Nat} {stage next : Stage} {i : Nat} (hstage : Reaches order stage)
      (hstep : j.Step opened stage i next) : Reaches (order ++ [i]) next

/-- What has ended and what is running are all files, and the slots are filled as far as
compilations have ended. -/
structure Accounts (order : List Nat) (stage : Stage) : Prop where
  files : (order ++ stage.running).Perm (List.range j.files.length)
  slots : stage.slots = Slots.fillAll (j.reports opened) order

variable {j opened}

theorem length_reports : (j.reports opened).length = j.files.length := by simp [reports]

theorem Accounts.step {order : List Nat} {stage next : Stage} {i : Nat}
    (h : j.Accounts opened order stage) (hstep : j.Step opened stage i next) :
    j.Accounts opened (order ++ [i]) next := by
  cases hstep with
  | @ends running slots i name hrunning hname hends =>
    constructor
    · have hmoved : (order ++ i :: running.erase i).Perm (order ++ running) :=
        (List.perm_cons_erase hrunning).symm.append_left order
      simpa using hmoved.trans h.files
    · rw [Slots.fillAll_concat, ← h.slots]

theorem Reaches.accounts {order : List Nat} {stage : Stage} (h : j.Reaches opened order stage) :
    j.Accounts opened order stage := by
  induction h with
  | start => exact ⟨List.Perm.refl _, by simp [Job.start, Slots.fillAll, length_reports]⟩
  | step _ hstep ih => exact ih.step hstep

/-- A compilation that is running can end. -/
theorem Accounts.exists_step {order : List Nat} {stage : Stage} {i : Nat}
    (hends : ∀ name ∈ j.files, (j.outcome opened name).breaksOff = false)
    (h : j.Accounts opened order stage) (hi : i ∈ stage.running) :
    j.Step opened stage i
      ⟨stage.running.erase i, Slots.fill (j.reports opened) stage.slots i⟩ := by
  have hlt : i < j.files.length := by
    apply List.mem_range.mp
    exact h.files.mem_iff.mp (List.mem_append_right order hi)
  apply Step.ends hi (List.getElem?_eq_getElem hlt)
  exact hends _ (List.getElem_mem hlt)

/-- Every order of some of the files is one in which their compilations can end. -/
theorem exists_reaches (hends : ∀ name ∈ j.files, (j.outcome opened name).breaksOff = false)
    {order others : List Nat} (h : (order ++ others).Perm (List.range j.files.length)) :
    ∃ stage, j.Reaches opened order stage ∧ stage.running.Perm others := by
  induction order using List.reverseRecOn generalizing others with
  | nil => exact ⟨j.start, .start, h.symm⟩
  | append_singleton order i ih =>
    have hsplit : (order ++ i :: others).Perm (List.range j.files.length) := by simpa using h
    obtain ⟨stage, hstage, hrunning⟩ := ih hsplit
    have hi : i ∈ stage.running := hrunning.mem_iff.mpr List.mem_cons_self
    refine ⟨_, .step hstage (hstage.accounts.exists_step hends hi), ?_⟩
    simpa using hrunning.erase i

/-! ### The end of a job -/

theorem result_eq_of_perm {order : List Nat} (h : order.Perm (List.range j.files.length)) :
    j.resultInOrder opened order =
      ⟨String.join ((j.reports opened).map Report.text), "",
        if (j.reports opened).all Report.ok then 0 else 1⟩ := by
  have hslots : Slots.fillAll (j.reports opened) order = (j.reports opened).map some := by
    apply Slots.fillAll_of_perm
    rwa [length_reports]
  simp only [resultInOrder, hslots, Slots.text_map_some, Slots.allOk_map_some]

/-- When no compilation is running, each file is in the order once. -/
theorem Reaches.order_perm {order : List Nat} {stage : Stage} (h : j.Reaches opened order stage)
    (hrunning : stage.running = []) : order.Perm (List.range j.files.length) := by
  simpa [hrunning] using h.accounts.files

theorem Reaches.slots_eq {order : List Nat} {stage : Stage} (h : j.Reaches opened order stage)
    (hrunning : stage.running = []) : stage.slots = (j.reports opened).map some := by
  rw [h.accounts.slots]
  apply Slots.fillAll_of_perm
  rw [length_reports]
  exact h.order_perm hrunning

/-- What the command prints about a file alone. -/
theorem result_alone (options : Options) (name : String) :
    ((⟨options, [name]⟩ : Job).result opened).stdout =
      (Report.ofOutcome options name (compileFile options name (opened name))).text := by
  rw [result, result_eq_of_perm (List.Perm.refl _)]
  simp [reports]

theorem all_ok_iff : (j.reports opened).all Report.ok = true ↔
    ∀ name ∈ j.files, j.options.Compiles (opened name) := by
  simp only [reports, List.all_map, List.all_eq_true, Function.comp_apply, Report.ofOutcome_ok,
    Option.isNone_iff_eq_none, compileFile_error_eq_none_iff]

/-- Unless a compilation breaks off, a job goes on as long as compilations are running, and they may
end in every order.  In every order the command answers the same: it prints the reports on its files
in the order of its arguments, each being what it prints about that file alone, and its exit code is
0 if every file is read and compiled, and else 1. -/
theorem every_order_answers_alike (j : Job) (opened : String → Except OpenFailure Reader)
    (hends : ∀ name ∈ j.files, (j.outcome opened name).breaksOff = false) :
    (∀ order stage, j.Reaches opened order stage → stage.running ≠ [] →
      ∃ i next, j.Step opened stage i next) ∧
    (∀ order, (∃ stage, j.Reaches opened order stage ∧ stage.running = []) ↔
      order.Perm (List.range j.files.length)) ∧
    ∀ order stage, j.Reaches opened order stage → stage.running = [] →
      let report (name : String) : Report := .ofOutcome j.options name (j.outcome opened name)
      let alone (name : String) : CommandResult := (⟨j.options, [name]⟩ : Job).result opened
      stage.result = j.resultInOrder opened order ∧ stage.result = j.result opened ∧
      stage.result.stdout = String.join (j.files.map fun name => (report name).text) ∧
      stage.result.stdout = String.join (j.files.map fun name => (alone name).stdout) ∧
      (stage.slots.allOk = true ↔ ∀ name ∈ j.files, j.options.Compiles (opened name)) ∧
      (stage.slots.allOk = true → stage.result.exit = 0) ∧
      (stage.slots.allOk = false → stage.result.exit = 1) := by
  refine ⟨?_, ?_, ?_⟩
  · intro order stage hstage hrunning
    obtain ⟨i, hi⟩ := List.exists_mem_of_ne_nil _ hrunning
    exact ⟨i, _, hstage.accounts.exists_step hends hi⟩
  · intro order
    constructor
    · rintro ⟨stage, hstage, hrunning⟩
      exact hstage.order_perm hrunning
    · intro h
      rw [← List.append_nil order] at h
      obtain ⟨stage, hstage, hrunning⟩ := exists_reaches hends h
      exact ⟨stage, hstage, hrunning.eq_nil⟩
  · intro order stage hstage hrunning report alone
    have hsame : stage.result = j.resultInOrder opened order := by
      rw [Stage.result, hstage.accounts.slots]
      rfl
    have hresult := hsame.trans (result_eq_of_perm (hstage.order_perm hrunning))
    have hstdout : stage.result.stdout =
        String.join (j.files.map fun name => (report name).text) := by
      rw [hresult, reports, List.map_map]
      rfl
    refine ⟨hsame, ?_, hstdout, ?_, ?_, ?_, ?_⟩
    · rw [result, result_eq_of_perm (List.Perm.refl _)]
      exact hresult
    · simp only [alone, result_alone]
      exact hstdout
    · rw [hstage.slots_eq hrunning, Slots.allOk_map_some, all_ok_iff]
    · intro h
      simp [Stage.result, h]
    · intro h
      simp [Stage.result, h]

/-- Of four files one is named twice and has something wrong in it, and one is missing.  The missing
one ends first and the sound one last; what is printed is in the order of the names. -/
theorem answers_alike_repeated_missing :
    let opened (name : String) : Except OpenFailure Reader :=
      if name = "sound" then .ok ⟨[Utf8.encode "imprenta_gawas 1;".toList], none⟩
      else if name = "faulty" then .ok ⟨[Utf8.encode "imprenta_gawas x;".toList], none⟩
      else .error .missing
    let j : Job := ⟨⟨.text, true⟩, ["faulty", "sound", "faulty", "gone"]⟩
    let faulty := "TOKENS GENERATED (faulty):\n" ++
      "KEYWORD :\timprenta_gawas\nIDENTIFIER :\tx\nPUNCTUATION :\t;\n" ++
      "faulty: 1 error(s) found:\nsemantic error: Variable 'x' not declared.\n"
    let sound := "TOKENS GENERATED (sound):\n" ++
      "KEYWORD :\timprenta_gawas\nINT :\t1\nPUNCTUATION :\t;\n" ++
      "sound: semantic analysis passed, no errors found\nprint(1);\n"
    let gone := "TOKENS GENERATED (gone):\n" ++
      "gone: open source: open gone: no such file or directory\n"
    (∀ name ∈ j.files, (j.outcome opened name).breaksOff = false) ∧
      ∃ stage, j.Reaches opened [3, 0, 2, 1] stage ∧ stage.running = [] ∧
        stage.result.stdout = faulty ++ sound ++ faulty ++ gone ∧ stage.result.exit = 1 := by
  intro opened j faulty sound gone
  have hends : ∀ name ∈ j.files, (j.outcome opened name).breaksOff = false := by decide +kernel
  obtain ⟨-, horders, hend⟩ := every_order_answers_alike j opened hends
  obtain ⟨stage, hstage, hrunning⟩ := (horders [3, 0, 2, 1]).mpr (by decide)
  obtain ⟨-, -, hstdout, -, hok, -, hexit⟩ := hend _ stage hstage hrunning
  refine ⟨hends, stage, hstage, hrunning, ?_, hexit ?_⟩
  · rw [hstdout]
    decide +kernel
  · apply Bool.eq_false_iff.mpr
    intro hall
    obtain ⟨r, -, -, hopened, -⟩ := hok.mp hall "gone" (by decide)
    cases hopened

end Job

end Binisaya
