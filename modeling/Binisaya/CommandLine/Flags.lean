import Binisaya.Text.Quoted

/-!
# Command line flags

Flags come first and begin with one or two dashes.  A flag takes its value after an equals sign;
`-emit` may also take it from the next argument.  The first argument that is no flag, and whatever
follows it, is a file name.
-/

namespace Binisaya

/-- What the flags set: the form of the output, whether tokens are listed first, and whether changed
files are to be compiled again.  A run of the command is one round of compiling, with or without
further rounds to come. -/
structure Settings where
  emit : String
  tokens : Bool
  watch : Bool
  deriving DecidableEq, Repr

/-- What holds without flags. -/
def Settings.initial : Settings := ⟨"text", false, false⟩

/-- Why flags are not accepted. -/
inductive FlagError where
  | badFlag (argument : String)
  | undefinedFlag (name : String)
  | missingValue (name : String)
  | badTruth (value name : String)
  deriving DecidableEq, Repr

/-- How an error reads. -/
def FlagError.message : FlagError → String
  | badFlag argument => "bad flag syntax: " ++ argument
  | undefinedFlag name => "flag provided but not defined: -" ++ name
  | missingValue name => "flag needs an argument: -" ++ name
  | badTruth value name =>
    "invalid boolean value " ++ quoted value ++ " for -" ++ name ++ ": parse error"

/-- What an argument in front of the file names is. -/
inductive Argument where
  /-- A file name. -/
  | operand
  /-- The end of the flags. -/
  | endMark
  /-- Dashes without a name after them. -/
  | malformed
  | flag (name : List Char) (value : Option (List Char))
  deriving DecidableEq, Repr

namespace Argument

/-- The flag that follows the dashes. -/
def ofBody : List Char → Argument
  | [] => malformed
  | '-' :: _ => malformed
  | '=' :: _ => malformed
  | body =>
    match body.dropWhile (· != '=') with
    | [] => flag body none
    | _ :: value => flag (body.takeWhile (· != '=')) (some value)

/-- What an argument is. -/
def ofText : List Char → Argument
  | ['-', '-'] => endMark
  | '-' :: '-' :: body => ofBody body
  | ['-'] => operand
  | '-' :: body => ofBody body
  | _ => operand

end Argument

/-- The spellings of truth values. -/
def readTruth? (text : String) : Option Bool :=
  if text ∈ ["1", "t", "T", "TRUE", "true", "True"] then some true
  else if text ∈ ["0", "f", "F", "FALSE", "false", "False"] then some false
  else none

/-- The value of a truth flag, which is true if none is given. -/
def truthValue (name : String) : Option (List Char) → Except FlagError Bool
  | none => .ok true
  | some value =>
    match readTruth? (String.ofList value) with
    | some b => .ok b
    | none => .error (.badTruth (String.ofList value) name)

/-- What the flags in front of the file names come to. -/
inductive FlagResult where
  | settings (settings : Settings) (files : List String)
  /-- The usage was asked for. -/
  | help
  | error (error : FlagError)
  deriving DecidableEq, Repr

/-- Reads flags.  A later setting replaces an earlier one. -/
def readFlags (s : Settings) : List String → FlagResult
  | [] => .settings s []
  | argument :: others =>
    match Argument.ofText argument.toList with
    | .operand => .settings s (argument :: others)
    | .endMark => .settings s others
    | .malformed => .error (.badFlag argument)
    | .flag name value =>
      let name := String.ofList name
      if name = "emit" then
        match value with
        | some v => readFlags { s with emit := String.ofList v } others
        | none =>
          match others with
          | v :: rest => readFlags { s with emit := v } rest
          | [] => .error (.missingValue name)
      else if name = "tokens" then
        match truthValue name value with
        | .ok b => readFlags { s with tokens := b } others
        | .error e => .error e
      else if name = "watch" then
        match truthValue name value with
        | .ok b => readFlags { s with watch := b } others
        | .error e => .error e
      else if name = "help" ∨ name = "h" then .help
      else .error (.undefinedFlag name)

/-- The text that explains the command. -/
def usage : String :=
  "usage: binisaya [-emit text|llvm] [-tokens] [-watch] file...\n" ++
  "  -emit string\n    \toutput form: text or llvm (default \"text\")\n" ++
  "  -tokens\n    \tprint the token listing before compiling\n" ++
  "  -watch\n    \trecompile when a source file changes\n"

end Binisaya
