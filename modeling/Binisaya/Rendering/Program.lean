import Binisaya.Rendering.Literal
import Binisaya.Scope

/-!
# Rendering programs as text

A program is written out as structured text in which every name is replaced by the text of the value
that was last given to it.  No branch is chosen: every part of the program is rendered once, in
order.
-/

namespace Binisaya

/-- The texts of the values that names have, by open block. -/
abbrev Values := Scopes String

/-- What stands for a name without a value. -/
def undefinedText : String := "undefined"

/-- A text in parentheses if it begins with an operator. -/
def shieldOperator (text : String) : String :=
  if text.toList.head? = some '-' ∨ text.toList.head? = some '!' then "(" ++ text ++ ")" else text

/-- The text of an expression, and the values after its assignments. -/
def Expr.render (values : Values) : Expr → Values × String
  | .absent => (values, undefinedText)
  | .literal kind text => (values, renderLiteral kind text)
  | .name n => (values, (values.lookup n).getD undefinedText)
  | .binary op left right =>
    let first := left.render values
    let second := right.render first.1
    (second.1, "(" ++ first.2 ++ " " ++ op.symbol ++ " " ++ second.2 ++ ")")
  | .unary op operand =>
    let inner := operand.render values
    (inner.1, op.symbol ++ shieldOperator inner.2)
  | .group e =>
    let inner := e.render values
    (inner.1, "(" ++ inner.2 ++ ")")
  | .assign target value =>
    let inner := value.render values
    (inner.1.assign target inner.2, target ++ " = " ++ inner.2)

/-- The text of an optional expression. -/
def Expr.renderOptional (values : Values) (e : Expr) : Values × String :=
  if e.isAbsent then (values, "") else e.render values

/-- The text of a declaration without its semicolon, and the values after it. -/
def renderDeclaration (values : Values) (type name : String) (initial : Expr) : Values × String :=
  if initial.isAbsent then (values.bind name undefinedText, type ++ " " ++ name)
  else
    let inner := initial.render values
    (inner.1.bind name inner.2, type ++ " " ++ name ++ " = " ++ inner.2)

/-- The text of the first clause of a counting loop, which is a declaration or an expression. -/
def renderInitial (values : Values) : Stmt → Values × String
  | .declare type name initial => renderDeclaration values type name initial
  | .expression e => e.render values
  | _ => (values, "")

/-- A line at the given depth of indentation. -/
def indentedLine (depth : Nat) (text : String) : String :=
  String.join (List.replicate depth "    ") ++ text

/-- A text without one space at its end. -/
def dropEndSpace (text : String) : String :=
  match text.toList.getLast? with
  | some ' ' => String.ofList text.toList.dropLast
  | _ => text

/-- What stands in front of a statement. -/
inductive Lead where
  /-- Nothing. -/
  | plain
  /-- The header of a statement whose body it is. -/
  | header (text : String)
  /-- The word for the alternative of a conditional. -/
  | alternative (text : String)
  deriving DecidableEq, Repr

namespace Lead

/-- The text in front. -/
def text : Lead → String
  | plain => ""
  | header t => t
  | alternative t => t

/-- The line that the text in front takes, if it does not share the line of the statement. -/
def ownLine (depth : Nat) : Lead → List String
  | plain => []
  | header t => [indentedLine depth (dropEndSpace t)]
  | alternative t => [indentedLine depth (dropEndSpace t)]

/-- The depth of a statement below a line of its own for the text in front. -/
def inner (depth : Nat) : Lead → Nat
  | plain => depth
  | _ => depth + 1

/-- What is left in front of a conditional: one that is itself an alternative stays on that line. -/
def ofConditional : Lead → Lead
  | alternative t => alternative t
  | _ => plain

/-- The lines in front of a conditional. -/
def conditionalLine (depth : Nat) : Lead → List String
  | alternative _ => []
  | l => l.ownLine depth

/-- The depth of a conditional. -/
def conditionalDepth (depth : Nat) : Lead → Nat
  | alternative _ => depth
  | l => l.inner depth

end Lead

mutual

/-- The lines of a statement, and the values after it. -/
def Stmt.render (values : Values) (depth : Nat) (lead : Lead) : Stmt → Values × List String
  | .absent => (values, lead.ownLine depth)
  | .declare type name initial =>
    let inner := renderDeclaration values type name initial
    (inner.1, lead.ownLine depth ++ [indentedLine (lead.inner depth) (inner.2 ++ ";")])
  | .print value =>
    let inner := value.render values
    (inner.1,
      lead.ownLine depth ++ [indentedLine (lead.inner depth) ("print(" ++ inner.2 ++ ");")])
  | .expression value =>
    let inner := value.render values
    (inner.1, lead.ownLine depth ++ [indentedLine (lead.inner depth) (inner.2 ++ ";")])
  | .block body =>
    let inner := Stmt.renderAll values.push (depth + 1) body
    (inner.1.pop,
      indentedLine depth (lead.text ++ "\x7b") :: inner.2 ++ [indentedLine depth "\x7d"])
  | .ifElse condition consequent alternative =>
    let below := lead.conditionalDepth depth
    let test := condition.render values
    let first :=
      consequent.render test.1 below
        (.header (lead.ofConditional.text ++ "if (" ++ test.2 ++ ") "))
    if alternative.isAbsent then (first.1, lead.conditionalLine depth ++ first.2)
    else if consequent.isBlock then
      let second := alternative.render first.1 below (.alternative "\x7d else ")
      (second.1, lead.conditionalLine depth ++ first.2.dropLast ++ second.2)
    else
      let second := alternative.render first.1 below (.alternative "else ")
      (second.1, lead.conditionalLine depth ++ first.2 ++ second.2)
  | .whileLoop condition body =>
    let test := condition.render values
    let inner :=
      body.render test.1 (lead.inner depth) (.header ("while (" ++ test.2 ++ ") "))
    (inner.1, lead.ownLine depth ++ inner.2)
  | .forLoop initial condition increment body =>
    let before := renderInitial values.push initial
    let test := condition.renderOptional before.1
    let step := increment.renderOptional test.1
    let inner :=
      body.render step.1 (lead.inner depth)
        (.header ("for (" ++ before.2 ++ "; " ++ test.2 ++ "; " ++ step.2 ++ ") "))
    (inner.1.pop, lead.ownLine depth ++ inner.2)

/-- The lines of a sequence of statements, and the values after them. -/
def Stmt.renderAll (values : Values) (depth : Nat) : List Stmt → Values × List String
  | [] => (values, [])
  | s :: ss =>
    let first := s.render values depth .plain
    let others := Stmt.renderAll first.1 depth ss
    (others.1, first.2 ++ others.2)

end

/-- The lines of a program. -/
def renderLines (p : Program) : List String := (Stmt.renderAll .initial 0 p).2

/-- The text of a program: its lines, each with its end. -/
def renderProgram (p : Program) : String :=
  String.join ((renderLines p).map fun line => line ++ "\n")

end Binisaya
