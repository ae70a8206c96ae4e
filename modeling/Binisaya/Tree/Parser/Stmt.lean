import Binisaya.Tree.Parser.Expr

/-!
# Parsing statements and programs

`parse` reads a whole token sequence.  `Parse` keeps the tokens that are still ahead, so that
reading can go on after an error with the token at which it stopped.
-/

namespace Binisaya

namespace Parser

/-- Whether what is ahead begins with a type word. -/
def seesType : Parser Bool :=
  fun ts => .ok (ts.head?.any fun t => t.kind = .keyword && isTypeWord t.text, ts)

/-- A declaration, of which the type word is ahead. -/
def declaration : Parser Stmt := do
  let typeWord := ((← peek).map Token.text).getD ""
  skip
  let name ← identifier (.variableName typeWord)
  if ← seesSign "=" then
    skip
    let initial ← expression
    sign ";" .declarationEnd
    pure (.declare typeWord name initial)
  else
    sign ";" .declarationEnd
    pure (.declare typeWord name .absent)

/-- An expression as a statement. -/
def expressionStatement : Parser Stmt := do
  let e ← expression
  sign ";" .expressionEnd
  pure (.expression e)

/-- The condition after a control word, in its parentheses. -/
def condition (word : Keyword) : Parser Expr := do
  sign "(" (.clauseStart word)
  if (← peek).any startsExpression then
    let e ← expression
    sign ")" .conditionEnd
    pure e
  else fail .condition

/-- An expression, unless the given sign is ahead. -/
def optionalBefore (text : String) : Parser Expr := do
  if ← seesSign text then pure .absent else expression

/-- The first clause of a counting loop, with the semicolon after it. -/
def loopInitial : Parser Stmt := do
  if ← seesSign ";" then
    skip
    pure .absent
  else if ← seesType then declaration
  else expressionStatement

/-- A conditional, of which the control word is ahead. -/
def conditional (statement : Parser Stmt) : Parser Stmt := do
  skip
  let c ← condition .ug
  let consequent ← statement
  if ← seesWord .edi then
    skip
    let alternative ← statement
    pure (.ifElse c consequent alternative)
  else pure (.ifElse c consequent .absent)

/-- A loop with a condition, of which the control word is ahead. -/
def whileLoop (statement : Parser Stmt) : Parser Stmt := do
  skip
  let c ← condition .samtang
  let body ← statement
  pure (.whileLoop c body)

/-- A counting loop, of which the control word is ahead. -/
def forLoop (statement : Parser Stmt) : Parser Stmt := do
  skip
  sign "(" (.clauseStart .alang)
  let initial ← loopInitial
  let c ← optionalBefore ";"
  sign ";" .loopConditionEnd
  let increment ← optionalBefore ")"
  sign ")" .clausesEnd
  let body ← statement
  pure (.forLoop initial c increment body)

/-- A print statement, of which the word is ahead. -/
def printStatement : Parser Stmt := do
  skip
  let e ← expression
  sign ";" .printEnd
  pure (.print e)

/-- A declaration or a statement. -/
def declarationOr (statement : Parser Stmt) : Parser Stmt := do
  if ← seesType then declaration else statement

/-- Whether a block goes on: something is ahead that does not close it. -/
def insideBlock (ts : List Token) : Bool := ts.head?.any fun t => !t.isSign "\x7d"

/-- A block. -/
def block (statement : Parser Stmt) : Parser Stmt := do
  sign "\x7b" .blockStart
  let body ← repeatWhile insideBlock (declarationOr statement) (← get).length
  sign "\x7d" .blockEnd
  pure (.block body)

/-- A statement that nests less deep than the bound.  Every nesting takes a token. -/
def stmt : Nat → Parser Stmt
  | 0 => fail .expression
  | depth + 1 => do
    if ← seesWord .ug then conditional (stmt depth)
    else if ← seesWord .samtang then whileLoop (stmt depth)
    else if ← seesWord .alang then forLoop (stmt depth)
    else if ← seesWord .imprentaGawas then printStatement
    else if ← seesSign "\x7b" then block (stmt depth)
    else expressionStatement

/-- A statement. -/
def statement : Parser Stmt := fun ts => stmt (ts.length + 1) ts

/-- A sequence of declarations and statements up to the end. -/
def program : Parser Program := fun ts =>
  repeatWhile (fun ahead => !ahead.isEmpty) (declarationOr statement) ts.length ts

end Parser

namespace Stop

/-- The token at which parsing stopped, if it was not the end. -/
def found (s : Stop) : Option Token := s.rest.head?

/-- The error that a stop is, unless it comes from a string without room for its quotes. -/
def syntaxError? (s : Stop) : Option SyntaxError :=
  match s.cause with
  | .expected what => some ⟨what.text, s.found⟩
  | .shortString _ => none

/-- How a stop reads. -/
def message (s : Stop) : String :=
  match s.cause with
  | .expected what => (⟨what.text, s.found⟩ : SyntaxError).message
  | .shortString 0 => "runtime error: slice bounds out of range [:-1]"
  | .shortString _ => "runtime error: slice bounds out of range [1:0]"

end Stop

/-- The program that a token sequence is. -/
def parse (ts : List Token) : Except Stop Program := (Parser.program ts).map Prod.fst

/-- A parse that can be taken up again: the tokens still ahead. -/
structure Parse where
  ahead : List Token
  deriving DecidableEq, Repr

namespace Parse

/-- Reads what is ahead.  A run that stops leaves the token at which it stopped ahead. -/
def run (p : Parse) : Except Stop Program × Parse :=
  match Parser.program p.ahead with
  | .ok (program, rest) => (.ok program, ⟨rest⟩)
  | .error s => (.error s, ⟨s.rest⟩)

/-- The answers of a number of runs, one after the other. -/
def runs : Nat → Parse → List (Except Stop Program)
  | 0, _ => []
  | n + 1, p => p.run.1 :: runs n p.run.2

end Parse

end Binisaya
