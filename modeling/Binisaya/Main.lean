import Binisaya.CommandLine.Run

/-!
# The program

Reads the files that the command line names, and prints what the command answers.
-/

namespace Binisaya

/-- What opening a file gives.  A directory can be opened, but not read. -/
def openFile (name : String) : IO (Except OpenFailure Reader) := do
  try
    let content ← IO.FS.readBinFile name
    pure (.ok ⟨[content.toList], none⟩)
  catch e =>
    match e with
    | .noFileOrDirectory _ _ _ => pure (.error .missing)
    | .inappropriateType none _ _ =>
      pure (.ok ⟨[], some ("read " ++ name ++ ": is a directory")⟩)
    | .inappropriateType (some _) _ _ => pure (.error .notDirectory)
    | .permissionDenied _ _ _ => pure (.error (.other "permission denied"))
    | e => pure (.error (.other (toString e)))

end Binisaya

open Binisaya in
def main (arguments : List String) : IO UInt32 := do
  let result ← match readArguments arguments with
    | .error r => pure r
    | .ok job => do
      let opened ← job.files.mapM fun name => do pure (name, ← openFile name)
      pure (job.result fun name => (opened.lookup name).getD (.error .missing))
  IO.print result.stdout
  IO.eprint result.stderr
  pure result.exit.toUInt32
