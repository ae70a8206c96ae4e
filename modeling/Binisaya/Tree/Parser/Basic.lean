import Binisaya.Diagnostic
import Binisaya.Token.Keyword
import Binisaya.Tree.Basic

/-!
# Parsing, in general

A parser takes tokens from the front of a sequence.  It answers with a tree and the tokens that it
left, or stops with a cause and the tokens that it had not taken, so that parsing can be taken up
again where it stopped.
-/

namespace Binisaya

/-- What the grammar can ask for. -/
inductive Expectation where
  /-- The name in a declaration that begins with the given type word. -/
  | variableName (typeWord : String)
  | declarationEnd
  /-- The parenthesis after a control word. -/
  | clauseStart (word : Keyword)
  | condition
  | conditionEnd
  | loopConditionEnd
  | clausesEnd
  | printEnd
  | blockStart
  | blockEnd
  | expressionEnd
  | assignmentTarget
  | groupEnd
  | expression
  | intInRange
  deriving DecidableEq, Repr

namespace Expectation

/-- How an expectation reads in an error. -/
def text : Expectation → String
  | variableName typeWord => "variable name after '" ++ typeWord ++ "'"
  | declarationEnd => "';' after variable declaration"
  | clauseStart word => "'(' after '" ++ word.spelling ++ "'"
  | condition => "condition after '('"
  | conditionEnd => "')' after condition"
  | loopConditionEnd => "';' after loop condition"
  | clausesEnd => "')' after for clauses"
  | printEnd => "';' after " ++ Keyword.imprentaGawas.spelling ++ " statement"
  | blockStart => "'\x7b'"
  | blockEnd => "'\x7d' after block"
  | expressionEnd => "';' after expression"
  | assignmentTarget => "variable name as assignment target"
  | groupEnd => "')' after expression"
  | expression => "expression"
  | intInRange => "integer literal within 32-bit range"

end Expectation

/-- Why parsing stops. -/
inductive StopCause where
  /-- The next token is not what the grammar asks for. -/
  | expected (what : Expectation)
  /-- The next token is a string with fewer than two bytes, so it cannot hold its two quotes. -/
  | shortString (bytes : Nat)
  deriving DecidableEq, Repr

/-- Where and why parsing stops: the cause, and the tokens not taken. -/
structure Stop where
  cause : StopCause
  rest : List Token
  deriving DecidableEq, Repr

/-- A parser over a token sequence. -/
abbrev Parser (α : Type) := StateT (List Token) (Except Stop) α

namespace Parser

/-- Stops at the next token. -/
def stop {α : Type} (cause : StopCause) : Parser α := fun ts => .error ⟨cause, ts⟩

/-- Stops because the next token is not what the grammar asks for. -/
def fail {α : Type} (what : Expectation) : Parser α := stop (.expected what)

/-- The next token, which is not taken. -/
def peek : Parser (Option Token) := fun ts => .ok (ts.head?, ts)

/-- Takes the next token, if there is one. -/
def skip : Parser Unit := fun ts => .ok ((), ts.tail)

/-- Whether the next token is the given word or sign. -/
def sees (kind : TokenKind) (text : String) : Parser Bool :=
  fun ts => .ok (ts.head?.any fun t => t.is kind text, ts)

/-- Whether the next token is the given sign. -/
def seesSign (text : String) : Parser Bool := sees .punctuation text

/-- Whether the next token is the given reserved word. -/
def seesWord (word : Keyword) : Parser Bool := sees .keyword word.spelling

/-- Takes the given sign, or stops. -/
def sign (text : String) (what : Expectation) : Parser Unit := do
  if ← seesSign text then skip else fail what

/-- Takes a name, or stops. -/
def identifier (what : Expectation) : Parser String := do
  match ← peek with
  | some t => if t.kind = .identifier then do skip; pure t.text else fail what
  | none => fail what

/-- Collects items as long as `more` holds of what is ahead.  Each item takes a token, so there are
at most as many rounds as tokens. -/
def repeatWhile {α : Type} (more : List Token → Bool) (item : Parser α) :
    Nat → Parser (List α)
  | 0 => pure []
  | rounds + 1 => do
    if more (← get) then
      let first ← item
      let others ← repeatWhile more item rounds
      pure (first :: others)
    else pure []

end Parser

end Binisaya
