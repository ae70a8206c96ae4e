import Binisaya.CommandLine.Flags
import Binisaya.CommandLine.Report
import Binisaya.FileTree

/-!
# The command

From arguments to what the command prints and its exit code.
-/

namespace Binisaya

/-- What a run of the command leaves behind. -/
structure CommandResult where
  stdout : String
  stderr : String
  exit : Nat
  deriving DecidableEq, Repr

/-- The compilations that arguments ask for. -/
structure Job where
  options : Options
  files : List String
  deriving DecidableEq, Repr

/-- The job that arguments ask for, or what the command answers instead.  A missing file name is
noted before an unknown form. -/
def readArguments (arguments : List String) : Except CommandResult Job :=
  match readFlags .initial arguments with
  | .help => .error ⟨"", usage, 0⟩
  | .error e => .error ⟨"", e.message ++ "\n" ++ usage, 2⟩
  | .settings _ [] => .error ⟨"", usage, 2⟩
  | .settings s files =>
    match EmitTarget.ofName? s.emit with
    | none => .error ⟨"", EmitTarget.unknownMessage s.emit ++ "\n", 2⟩
    | some target => .ok ⟨⟨target, s.tokens⟩, files⟩

namespace Job

/-- The reports on the files, where `opened` says what opening each gives. -/
def reports (j : Job) (opened : String → Except OpenFailure Reader) : List Report :=
  j.files.map fun name =>
    .ofOutcome j.options name (compileFile j.options name (opened name))

/-- The result of a job whose compilations end in the given order. -/
def resultInOrder (j : Job) (opened : String → Except OpenFailure Reader) (order : List Nat) :
    CommandResult :=
  let slots := Slots.fillAll (j.reports opened) order
  ⟨slots.text, "", if slots.allOk then 0 else 1⟩

/-- The result of a job. -/
def result (j : Job) (opened : String → Except OpenFailure Reader) : CommandResult :=
  j.resultInOrder opened (List.range j.files.length)

end Job

/-- Runs the command with its arguments in a working directory. -/
def runCommand (tree : FileTree) (arguments : List String) : CommandResult :=
  match readArguments arguments with
  | .error r => r
  | .ok job => job.result tree.open?

end Binisaya
