import Binisaya.Tree.Operator

/-!
# Syntax trees

Programs as trees.  The constructor `absent` stands where a node is missing: for the parts of a
statement that may be left out, and, in a tree built from outside, anywhere.
-/

namespace Binisaya

/-- What a literal denotes.  A tree built from outside may carry a literal of another kind. -/
inductive LiteralKind where
  | int
  | float
  | bool
  | string
  | other
  deriving DecidableEq, Repr

/-- Expressions.  The text of a string literal has no quotes. -/
inductive Expr where
  | absent
  | literal (kind : LiteralKind) (text : String)
  | name (name : String)
  | binary (op : BinaryOp) (left right : Expr)
  | unary (op : UnaryOp) (operand : Expr)
  | group (inner : Expr)
  | assign (target : String) (value : Expr)
  deriving DecidableEq, Inhabited, Repr

/-- Statements.  A declaration without an initial value, a conditional without an alternative and a
loop without some of its clauses have `absent` there. -/
inductive Stmt where
  | absent
  | declare (type name : String) (initial : Expr)
  | print (value : Expr)
  | expression (value : Expr)
  | block (body : List Stmt)
  | ifElse (condition : Expr) (consequent alternative : Stmt)
  | whileLoop (condition : Expr) (body : Stmt)
  | forLoop (initial : Stmt) (condition increment : Expr) (body : Stmt)
  deriving Inhabited, Repr

/-- A program is a sequence of statements. -/
abbrev Program := List Stmt

namespace Expr

/-- Whether nothing stands in an expression's place. -/
def isAbsent : Expr → Bool
  | absent => true
  | _ => false

end Expr

namespace Stmt

/-- Whether nothing stands in a statement's place. -/
def isAbsent : Stmt → Bool
  | absent => true
  | _ => false

/-- Whether a statement is a block. -/
def isBlock : Stmt → Bool
  | block _ => true
  | _ => false

end Stmt

end Binisaya
