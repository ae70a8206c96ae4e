import Binisaya.Token.Basic

/-!
# Diagnostics

What is reported about a faulty program, and the error that parsing ends with.
-/

namespace Binisaya

/-- The stage that a diagnostic comes from. -/
inductive DiagnosticKind where
  | lexical
  | grammatical
  | semantic
  | unknown
  deriving DecidableEq, Repr

namespace DiagnosticKind

/-- How a kind is written. -/
def name : DiagnosticKind → String
  | lexical => "lexical"
  | grammatical => "syntax"
  | semantic => "semantic"
  | unknown => "unknown"

/-- The kind with a given code. -/
def ofCode : Int → DiagnosticKind
  | 0 => lexical
  | 1 => grammatical
  | 2 => semantic
  | _ => unknown

end DiagnosticKind

/-- A message about a program. -/
structure Diagnostic where
  kind : DiagnosticKind
  message : String
  deriving DecidableEq, Repr

namespace Diagnostic

/-- A diagnostic as one line. -/
def render (d : Diagnostic) : String := d.kind.name ++ " error: " ++ d.message

/-- The count of the diagnostics and then each on its line. -/
def summary (ds : List Diagnostic) : String :=
  toString ds.length ++ " error(s) found:\n" ++ String.join (ds.map fun d => d.render ++ "\n")

end Diagnostic

/-- What the grammar asked for, and the token that stood there instead, if there was one. -/
structure SyntaxError where
  expected : String
  found : Option Token
  deriving DecidableEq, Repr

namespace SyntaxError

/-- The text of the error. -/
def message (e : SyntaxError) : String :=
  match e.found with
  | some t => "expected " ++ e.expected ++ ", found '" ++ t.text ++ "' at " ++ t.place
  | none => "expected " ++ e.expected ++ ", found end of input"

/-- The error as a diagnostic. -/
def diagnostic (e : SyntaxError) : Diagnostic := ⟨.grammatical, e.message⟩

end SyntaxError

end Binisaya
