import Binisaya.Lowering.Stmt
import Binisaya.Rendering.Program
import Binisaya.Token.Lexer
import Binisaya.Tree.Parser.Stmt
import Binisaya.Typing.Check

/-!
# Compilation

Source text is cut into tokens, parsed, checked, and written in one of two forms.  Each stage runs
only if the one before it found nothing wrong, and what the stages produced up to that point is
kept.
-/

namespace Binisaya

/-- The forms in which a program is written. -/
inductive EmitTarget where
  | text
  | llvm
  deriving DecidableEq, Repr

namespace EmitTarget

/-- The form with a given name. -/
def ofName? (name : String) : Option EmitTarget :=
  if name = "text" then some text else if name = "llvm" then some llvm else none

/-- What is said about a name that no form has. -/
def unknownMessage (name : String) : String := "unknown emit target " ++ quoted name

end EmitTarget

/-- What a compilation is asked for. -/
structure Options where
  emit : EmitTarget
  /-- Whether the tokens are listed before they are parsed. -/
  dumpTokens : Bool
  deriving DecidableEq, Repr

/-- Why a file cannot be opened. -/
inductive OpenFailure where
  | missing
  | notDirectory
  | other (reason : String)
  deriving DecidableEq, Repr

/-- How the failure to open a file reads. -/
def OpenFailure.message : OpenFailure → String
  | missing => "no such file or directory"
  | notDirectory => "not a directory"
  | other reason => reason

/-- Why a compilation ends without output. -/
inductive CompileError where
  | opening (name : String) (why : OpenFailure)
  | reading (reason : String)
  | parsing (stop : Stop)
  | semantic
  | lowering (failure : LoweringFailure)
  /-- An error in the file of the given name. -/
  | inFile (name : String) (error : CompileError)
  deriving DecidableEq, Repr

namespace CompileError

/-- How an error reads. -/
def message : CompileError → String
  | opening name why => "open source: open " ++ name ++ ": " ++ why.message
  | reading reason => "read source: " ++ reason
  | parsing stop => "syntax error: " ++ stop.message
  | semantic => "semantic errors found"
  | lowering failure => failure.message
  | inFile name error => name ++ ": " ++ error.message

/-- The error without the names of files around it. -/
def cause : CompileError → CompileError
  | inFile _ error => error.cause
  | e => e

end CompileError

/-- What the stages of a compilation produced before it ended. -/
structure Compilation where
  tokens : List Token
  program : Option Program
  diagnostics : List Diagnostic
  output : String

/-- A compilation: the listing that was asked for, what was produced, and the error, if any. -/
structure Outcome where
  dump : String
  result : Option Compilation
  error : Option CompileError

/-- The text of a program in the form that is asked for. -/
def emitProgram (target : EmitTarget) (p : Program) : Except LoweringFailure String :=
  match target with
  | .text => .ok (renderProgram p)
  | .llvm => (lower p).map Llvm.Module.render

/-- Compiles a token sequence. -/
def compileTokens (options : Options) (ts : List Token) : Outcome :=
  let dump := if options.dumpTokens then Token.listing ts else ""
  match parse ts with
  | .error stop => ⟨dump, some ⟨ts, none, [], ""⟩, some (.parsing stop)⟩
  | .ok p =>
    let ds := analyze p
    if ds.isEmpty then
      match emitProgram options.emit p with
      | .ok output => ⟨dump, some ⟨ts, some p, [], output⟩, none⟩
      | .error failure => ⟨dump, some ⟨ts, some p, [], ""⟩, some (.lowering failure)⟩
    else ⟨dump, some ⟨ts, some p, ds, ""⟩, some .semantic⟩

/-- Compiles a text. -/
def compileText (options : Options) (text : List Char) : Outcome :=
  compileTokens options (tokenize text)

/-- Compiles what a reader delivers. -/
def compileReader (options : Options) (r : Reader) : Outcome :=
  match (Lexer.ofReader r).run.1 with
  | .error reason => ⟨"", none, some (.reading reason)⟩
  | .ok ts => compileTokens options ts

/-- Compiles the file of the given name, of which the second argument is the reader. -/
def compileFile (options : Options) (name : String) : Except OpenFailure Reader → Outcome
  | .error why => ⟨"", none, some (.opening name why)⟩
  | .ok r =>
    let outcome := compileReader options r
    { outcome with error := outcome.error.map (.inFile name) }

end Binisaya
