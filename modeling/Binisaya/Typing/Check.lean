import Binisaya.Scope
import Binisaya.Typing.Problem

/-!
# Checking names and types

`Expr.type` is the type of an expression in a scope, `Expr.problems` what is wrong with it there.
`Stmt.check` goes through a statement and answers with the scope after it and its problems.
`problems` lists the problems of a program in the order in which they are met, an undeclared name
only once.
-/

namespace Binisaya

namespace Expr

/-- The type of an expression.  An arithmetic operation has the type of its left operand, an
assignment that of its target. -/
def type (scopes : Scopes Ty) : Expr → Ty
  | absent => .unknown
  | literal kind _ => .ofLiteral kind
  | name n => (scopes.lookup n).getD .unknown
  | assign target _ => (scopes.lookup target).getD .unknown
  | group inner => inner.type scopes
  | unary .negate operand => operand.type scopes
  | unary .not _ => .bool
  | unary (.other _) _ => .unknown
  | binary op left _ =>
    if op.isArithmetic then left.type scopes
    else if op.isComparison || op.isLogical then .bool
    else .unknown

/-- The problem of an operand that has another type than the allowed ones.  An operand of unknown
type is never one: what made it unknown is reported where it stands. -/
def operandProblem (allowed : List Ty) (found : Ty) (problem : Problem) : List Problem :=
  if found = .unknown ∨ found ∈ allowed then [] else [problem]

/-- What is wrong with an operation on operands of the given types. -/
def operationProblems (op : BinaryOp) (left right : Ty) : List Problem :=
  if op.isArithmetic then
    if left ≠ .unknown ∧ right ≠ .unknown ∧ left ≠ right then [.operandMismatch left op right]
    else []
  else if op.isLogical then
    operandProblem [.bool] left (.logicalOperand op left) ++
      operandProblem [.bool] right (.logicalOperand op right)
  else []

/-- What is wrong with an expression, in the order of evaluation. -/
def problems (scopes : Scopes Ty) : Expr → List Problem
  | absent => []
  | literal _ _ => []
  | name n => if (scopes.lookup n).isSome then [] else [.undeclared n]
  | assign target value =>
    match scopes.lookup target with
    | none => .undeclared target :: value.problems scopes
    | some declared =>
      value.problems scopes ++
        operandProblem [declared] (value.type scopes)
          (.assignMismatch (value.type scopes) declared target)
  | group inner => inner.problems scopes
  | unary op operand =>
    operand.problems scopes ++
      match op with
      | .negate =>
        operandProblem [.int, .float] (operand.type scopes) (.unaryOperand op (operand.type scopes))
      | .not => operandProblem [.bool] (operand.type scopes) (.unaryOperand op (operand.type scopes))
      | .other _ => []
  | binary op left right =>
    left.problems scopes ++ right.problems scopes ++
      operationProblems op (left.type scopes) (right.type scopes)

/-- What is wrong with an expression that has to be a condition. -/
def conditionProblems (scopes : Scopes Ty) (statement : Conditioned) (e : Expr) :
    List Problem :=
  e.problems scopes ++ if e.type scopes = .bool then [] else [.condition statement]

end Expr

mutual

/-- The scope after a statement, and what is wrong with the statement. -/
def Stmt.check (scopes : Scopes Ty) : Stmt → Scopes Ty × List Problem
  | .absent => (scopes, [])
  | .declare type name initial =>
    match scopes.declare? name (.ofWord type) with
    | none => (scopes, [.redeclared name])
    | some inside =>
      (inside,
        initial.problems inside ++
          Expr.operandProblem [.ofWord type] (initial.type inside)
            (.initialMismatch (.ofWord type) name (initial.type inside)))
  | .print value => (scopes, value.problems scopes)
  | .expression value => (scopes, value.problems scopes)
  | .block body =>
    let inner := Stmt.checkAll scopes.push body
    (inner.1.pop, inner.2)
  | .ifElse condition consequent alternative =>
    let first := consequent.check scopes
    let second := alternative.check first.1
    (second.1, condition.conditionProblems scopes .ifElse ++ first.2 ++ second.2)
  | .whileLoop condition body =>
    let inner := body.check scopes
    (inner.1, condition.conditionProblems scopes .whileLoop ++ inner.2)
  | .forLoop initial condition increment body =>
    let before := initial.check scopes.push
    let inner := body.check before.1
    let conditionProblems :=
      if condition.isAbsent then [] else condition.conditionProblems before.1 .forLoop
    (inner.1.pop, before.2 ++ conditionProblems ++ inner.2 ++ increment.problems inner.1)

/-- The scope after a sequence of statements, and what is wrong with them. -/
def Stmt.checkAll (scopes : Scopes Ty) : List Stmt → Scopes Ty × List Problem
  | [] => (scopes, [])
  | s :: ss =>
    let first := s.check scopes
    let others := Stmt.checkAll first.1 ss
    (others.1, first.2 ++ others.2)

end

/-- Drops the reports of an undeclared name after the first, where the names in `reported` have
been reported before. -/
def reportOnce (reported : List String) : List Problem → List Problem
  | [] => []
  | .undeclared name :: ps =>
    if name ∈ reported then reportOnce reported ps
    else .undeclared name :: reportOnce (name :: reported) ps
  | p :: ps => p :: reportOnce reported ps

/-- What is wrong with a program. -/
def problems (p : Program) : List Problem := reportOnce [] (Stmt.checkAll .initial p).2

/-- What is reported about a program. -/
def analyze (p : Program) : List Diagnostic := (problems p).map Problem.diagnostic

end Binisaya
