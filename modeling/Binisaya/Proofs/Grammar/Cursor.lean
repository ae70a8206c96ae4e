import Binisaya.Tree.Parser.Stmt

/-!
# Reading with a cursor

The grammar once more, read by positions.  The tokens stay where they are and a position among them
moves.  It also stays where it is when reading stops, so that another run can begin there.

That reading ends is not built in.  All nesting and all loops are cut off at one bound, and what goes
on beyond it has the result `none`, which nothing else has.  So a reading ends if there is a bound
from which on its result is no longer `none`.
-/

namespace Binisaya

/-- Why reading stopped, and the token at which it did, if it was not the end. -/
structure Fault where
  cause : StopCause
  found : Option Token
  deriving DecidableEq, Repr

/-- From a position among the tokens to an answer or a fault, and the position that was reached. -/
abbrev Cursor (α : Type) := ReaderT (List Token) (ExceptT Fault (StateT Nat Option)) α

namespace Cursor

variable {α : Type}

/-- What goes on beyond the bound. -/
def unfinished : Cursor α := fun _ _ => none

def stop (cause : StopCause) : Cursor α := fun tokens k => some (.error ⟨cause, tokens[k]?⟩, k)

def fail (what : Expectation) : Cursor α := stop (.expected what)

def peek : Cursor (Option Token) := fun tokens k => some (.ok tokens[k]?, k)

/-- Moves behind the next token, if there is one. -/
def skip : Cursor Unit := fun tokens k => some (.ok (), if k < tokens.length then k + 1 else k)

/-- Whether there is a next token that passes a test. -/
def sees (test : Token → Bool) : Cursor Bool := do
  let next ← peek
  pure (next.any test)

def seesSign (text : String) : Cursor Bool := sees fun t => t.isSign text

def seesWord (word : Keyword) : Cursor Bool := sees fun t => t.is .keyword word.spelling

def seesType : Cursor Bool := sees fun t => t.kind = .keyword && isTypeWord t.text

def sign (text : String) (what : Expectation) : Cursor Unit := do
  if ← seesSign text then skip else fail what

def identifier (what : Expectation) : Cursor String := do
  match ← peek with
  | some t => if t.kind = .identifier then do skip; pure t.text else fail what
  | none => fail what

def literal : Cursor Expr := do
  match ← peek with
  | none => fail .expression
  | some t =>
    match t.kind with
    | .int =>
      match readInt 32 t.text with
      | .ok _ => do skip; pure (.literal .int t.text)
      | .error _ => fail .intInRange
    | .double => do skip; pure (.literal .float t.text)
    | .boolean => do skip; pure (.literal .bool t.text)
    | .string =>
      match Parser.unquote t.text with
      | .ok text => do skip; pure (.literal .string text)
      | .error cause => stop cause
    | _ => fail .expression

/-- `inner` reads what stands in parentheses. -/
def primary (inner : Cursor Expr) : Cursor Expr := do
  match ← peek with
  | some t =>
    if t.isSign "(" then do
      skip
      let e ← inner
      sign ")" .groupEnd
      pure (.group e)
    else if t.kind = .identifier then do
      skip
      pure (.name t.text)
    else literal
  | none => literal

def unary (inner : Cursor Expr) : Nat → Cursor Expr
  | 0 => unfinished
  | rounds + 1 => do
    match (← peek).bind Parser.unaryOp? with
    | some op => do
      skip
      let e ← unary inner rounds
      pure (.unary op e)
    | none => primary inner

/-- Goes on for as long as an operator among `ops` is ahead. -/
def chainFrom (operand : Cursor Expr) (ops : List BinaryOp) : Nat → Expr → Cursor Expr
  | 0, _ => unfinished
  | rounds + 1, left => do
    match (← peek).bind (Parser.binaryOp? ops) with
    | none => pure left
    | some op => do
      skip
      let right ← operand
      chainFrom operand ops rounds (.binary op left right)

/-- Declarations or statements for as long as the next token passes a test. -/
def items (more : Token → Bool) (item : Cursor Stmt) : Nat → Cursor (List Stmt)
  | 0 => unfinished
  | rounds + 1 => do
    if ← sees more then
      let first ← item
      let others ← items more item rounds
      pure (first :: others)
    else pure []

section

variable (bound : Nat)

def chain (operand : Cursor Expr) (ops : List BinaryOp) : Cursor Expr := do
  let first ← operand
  chainFrom operand ops bound first

def operation (inner : Cursor Expr) : Cursor Expr :=
  Parser.levels.foldl (chain bound) (unary inner bound)

/-- `inner` reads what stands in parentheses or right of an assignment. -/
def assignment (inner : Cursor Expr) : Cursor Expr := do
  let left ← operation bound inner
  if ← seesSign "=" then
    match left with
    | .name target => do
      skip
      let value ← inner
      pure (.assign target value)
    | _ => fail .assignmentTarget
  else pure left

def expr : Nat → Cursor Expr
  | 0 => unfinished
  | depth + 1 => assignment bound (expr depth)

def expression : Cursor Expr := expr bound bound

/-- A declaration, of which the type word is ahead. -/
def declaration : Cursor Stmt := do
  let typeWord := ((← peek).map Token.text).getD ""
  skip
  let name ← identifier (.variableName typeWord)
  if ← seesSign "=" then
    skip
    let initial ← expression bound
    sign ";" .declarationEnd
    pure (.declare typeWord name initial)
  else
    sign ";" .declarationEnd
    pure (.declare typeWord name .absent)

def expressionStatement : Cursor Stmt := do
  let e ← expression bound
  sign ";" .expressionEnd
  pure (.expression e)

def condition (word : Keyword) : Cursor Expr := do
  sign "(" (.clauseStart word)
  if ← sees Parser.startsExpression then
    let e ← expression bound
    sign ")" .conditionEnd
    pure e
  else fail .condition

def optionalBefore (text : String) : Cursor Expr := do
  if ← seesSign text then pure .absent else expression bound

def loopInitial : Cursor Stmt := do
  if ← seesSign ";" then
    skip
    pure .absent
  else if ← seesType then declaration bound
  else expressionStatement bound

def conditional (inner : Cursor Stmt) : Cursor Stmt := do
  skip
  let c ← condition bound .ug
  let consequent ← inner
  if ← seesWord .edi then
    skip
    let alternative ← inner
    pure (.ifElse c consequent alternative)
  else pure (.ifElse c consequent .absent)

def whileLoop (inner : Cursor Stmt) : Cursor Stmt := do
  skip
  let c ← condition bound .samtang
  let body ← inner
  pure (.whileLoop c body)

def forLoop (inner : Cursor Stmt) : Cursor Stmt := do
  skip
  sign "(" (.clauseStart .alang)
  let initial ← loopInitial bound
  let c ← optionalBefore bound ";"
  sign ";" .loopConditionEnd
  let increment ← optionalBefore bound ")"
  sign ")" .clausesEnd
  let body ← inner
  pure (.forLoop initial c increment body)

def printStatement : Cursor Stmt := do
  skip
  let e ← expression bound
  sign ";" .printEnd
  pure (.print e)

def declarationOr (inner : Cursor Stmt) : Cursor Stmt := do
  if ← seesType then declaration bound else inner

def block (inner : Cursor Stmt) : Cursor Stmt := do
  sign "\x7b" .blockStart
  let body ← items (fun t => !t.isSign "\x7d") (declarationOr bound inner) bound
  sign "\x7d" .blockEnd
  pure (.block body)

def stmt : Nat → Cursor Stmt
  | 0 => unfinished
  | depth + 1 => do
    if ← seesWord .ug then conditional bound (stmt depth)
    else if ← seesWord .samtang then whileLoop bound (stmt depth)
    else if ← seesWord .alang then forLoop bound (stmt depth)
    else if ← seesWord .imprentaGawas then printStatement bound
    else if ← seesSign "\x7b" then block bound (stmt depth)
    else expressionStatement bound

def statement : Cursor Stmt := stmt bound bound

/-- A declaration or a statement. -/
def item : Cursor Stmt := declarationOr bound (statement bound)

/-- One run: declarations and statements up to the end of the tokens. -/
def program : Cursor Program := items (fun _ => true) (item bound) bound

/-- The answers of a number of runs, each from the position that the one before it reached. -/
def runs (tokens : List Token) : Nat → Nat → Option (List (Except Fault Program))
  | 0, _ => some []
  | n + 1, k => do
    let (answer, stop) ← program bound tokens k
    let others ← runs tokens n stop
    pure (answer :: others)

end

end Cursor

end Binisaya
