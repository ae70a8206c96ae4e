import Binisaya.Compile

/-!
# Reports

What the command prints about each of its files.  The files are compiled independently, each into a
slot of its own, and the slots are read in the order of the arguments once all are filled.
-/

namespace Binisaya

/-- What is printed about a file, and whether it was compiled. -/
structure Report where
  text : String
  ok : Bool
  deriving DecidableEq, Repr

namespace Report

/-- The report on a compilation of the file with the given name. -/
def ofOutcome (options : Options) (name : String) (outcome : Outcome) : Report :=
  let heading := if options.dumpTokens then "TOKENS GENERATED (" ++ name ++ "):\n" else ""
  let front := heading ++ outcome.dump
  match outcome.error with
  | none =>
    let output := (outcome.result.map Compilation.output).getD ""
    ⟨front ++ name ++ ": semantic analysis passed, no errors found\n" ++ output, true⟩
  | some e =>
    match e.cause with
    | .semantic =>
      let ds := (outcome.result.map Compilation.diagnostics).getD []
      ⟨front ++ name ++ ": " ++ Diagnostic.summary ds, false⟩
    | _ => ⟨front ++ name ++ ": " ++ e.message ++ "\n", false⟩

end Report

/-- The slots for the reports on a number of files, filled as the compilations end. -/
abbrev Slots := List (Option Report)

namespace Slots

/-- No report is there yet. -/
def empty (count : Nat) : Slots := List.replicate count none

/-- The compilation of the file with the given index has ended. -/
def fill (reports : List Report) (slots : Slots) (index : Nat) : Slots :=
  slots.set index reports[index]?

/-- The slots after compilations have ended in the given order. -/
def fillAll (reports : List Report) (order : List Nat) : Slots :=
  order.foldl (fill reports) (empty reports.length)

/-- What is printed: the reports in the order of their slots. -/
def text (slots : Slots) : String := String.join (slots.map fun r => (r.map Report.text).getD "")

/-- Whether every file was compiled. -/
def allOk (slots : Slots) : Bool := slots.all fun r => r.any Report.ok

end Slots

end Binisaya
