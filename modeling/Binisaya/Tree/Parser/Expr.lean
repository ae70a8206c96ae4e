import Binisaya.Numeral.Integer
import Binisaya.Text.Utf8
import Binisaya.Tree.Parser.Basic

/-!
# Parsing expressions

Assignment binds weakest and to the right.  Below it are six levels of binary operators, each
binding to the left: disjunction, conjunction, equality, order, sums, products.  Then come the
operators in front of an operand, and last names, literals and parentheses.

`expr` is given a bound on how deep expressions may nest.  Every nesting takes a token, so one more
than the number of tokens is always enough.
-/

namespace Binisaya

namespace Parser

/-- The text of a string token without its first and its last byte, which are its quotes.  Where a
byte of a longer character is cut off, the others stand for replacement characters. -/
def unquote (text : String) : Except StopCause String :=
  match text.toList with
  | [] => .error (.shortString 0)
  | first :: others =>
    match others.getLast? with
    | none =>
      if first.utf8Size = 1 then .error (.shortString 1)
      else .ok (String.ofList (Utf8.decode (Utf8.encode [first]).tail.dropLast))
    | some last =>
      if first.utf8Size = 1 ∧ last.utf8Size = 1 then .ok (String.ofList others.dropLast)
      else .ok (String.ofList (Utf8.decode (Utf8.encode text.toList).tail.dropLast))

/-- A literal. -/
def literal : Parser Expr := do
  match ← peek with
  | none => fail .expression
  | some t =>
    match t.kind with
    | .int =>
      match readInt 32 t.text with
      | .ok _ => do skip; pure (.literal .int t.text)
      | .error _ => fail .intInRange
    | .double => do skip; pure (.literal .float t.text)
    | .boolean => do skip; pure (.literal .bool t.text)
    | .string =>
      match unquote t.text with
      | .ok text => do skip; pure (.literal .string text)
      | .error cause => stop cause
    | _ => fail .expression

/-- A parenthesised expression, a name or a literal.  `inner` reads what stands in parentheses. -/
def primary (inner : Parser Expr) : Parser Expr := do
  match ← peek with
  | some t =>
    if t.isSign "(" then do
      skip
      let e ← inner
      sign ")" .groupEnd
      pure (.group e)
    else if t.kind = .identifier then do
      skip
      pure (.name t.text)
    else literal
  | none => literal

/-- The operator that a sign in front of an operand denotes. -/
def unaryOp? (t : Token) : Option UnaryOp :=
  if t.isSign UnaryOp.negate.symbol then some .negate
  else if t.isSign UnaryOp.not.symbol then some .not
  else none

/-- Any number of operators in front of a primary expression. -/
def unary (inner : Parser Expr) : Parser Expr
  | [] => primary inner []
  | t :: ts =>
    match unaryOp? t with
    | some op =>
      match unary inner ts with
      | .ok (e, rest) => .ok (.unary op e, rest)
      | .error s => .error s
    | none => primary inner (t :: ts)

/-- The operator among `ops` that a token denotes. -/
def binaryOp? (ops : List BinaryOp) (t : Token) : Option BinaryOp :=
  ops.find? fun op => t.isSign op.symbol

/-- Extends an expression by operators among `ops` and their right operands, as long as there are
any.  Each takes a token, so there are at most as many rounds as tokens. -/
def chainFrom (operand : Parser Expr) (ops : List BinaryOp) : Nat → Expr → Parser Expr
  | 0, left => pure left
  | rounds + 1, left => do
    match (← peek).bind (binaryOp? ops) with
    | none => pure left
    | some op => do
      skip
      let right ← operand
      chainFrom operand ops rounds (.binary op left right)

/-- Operands joined by operators among `ops`, which bind to the left. -/
def chain (operand : Parser Expr) (ops : List BinaryOp) : Parser Expr := do
  let rounds := (← get).length
  let first ← operand
  chainFrom operand ops rounds first

/-- The binary operators from the tightest level to the weakest. -/
def levels : List (List BinaryOp) :=
  [[.multiply, .divide], [.add, .subtract], [.less, .lessEqual, .greater, .greaterEqual],
    [.equal, .notEqual], [.and], [.or]]

/-- Expressions without an assignment at the top. -/
def operation (inner : Parser Expr) : Parser Expr := levels.foldl chain (unary inner)

/-- An expression, where `inner` reads what stands in parentheses or right of an assignment. -/
def assignment (inner : Parser Expr) : Parser Expr := do
  let left ← operation inner
  if ← seesSign "=" then
    match left with
    | .name target => do
      skip
      let value ← inner
      pure (.assign target value)
    | _ => fail .assignmentTarget
  else pure left

/-- An expression that nests less deep than the bound. -/
def expr : Nat → Parser Expr
  | 0 => fail .expression
  | depth + 1 => assignment (expr depth)

/-- An expression. -/
def expression : Parser Expr := fun ts => expr (ts.length + 1) ts

/-- Whether a token can begin an expression. -/
def startsExpression (t : Token) : Bool :=
  match t.kind with
  | .int | .double | .boolean | .string | .identifier => true
  | .punctuation => t.text = "(" || (unaryOp? t).isSome
  | _ => false

end Parser

end Binisaya
