/-!
# Operators

The operators of expressions.  A tree built from outside may carry a symbol that is no operator of
the language; it is kept as it is.
-/

namespace Binisaya

/-- The operators between two operands. -/
inductive BinaryOp where
  | or
  | and
  | equal
  | notEqual
  | less
  | lessEqual
  | greater
  | greaterEqual
  | add
  | subtract
  | multiply
  | divide
  | other (symbol : String)
  deriving DecidableEq, Repr

namespace BinaryOp

/-- How an operator is written. -/
def symbol : BinaryOp → String
  | or => "||"
  | and => "&&"
  | equal => "=="
  | notEqual => "!="
  | less => "<"
  | lessEqual => "<="
  | greater => ">"
  | greaterEqual => ">="
  | add => "+"
  | subtract => "-"
  | multiply => "*"
  | divide => "/"
  | other s => s

/-- The operators of the language. -/
def all : List BinaryOp :=
  [or, and, equal, notEqual, less, lessEqual, greater, greaterEqual, add, subtract, multiply,
    divide]

/-- The operator that is written in the given way. -/
def ofSymbol (s : String) : BinaryOp := (all.find? fun op => op.symbol = s).getD (other s)

/-- Sums, differences, products and quotients. -/
def isArithmetic : BinaryOp → Bool
  | add | subtract | multiply | divide => true
  | _ => false

/-- Equality and order. -/
def isComparison : BinaryOp → Bool
  | equal | notEqual | less | lessEqual | greater | greaterEqual => true
  | _ => false

/-- Conjunction and disjunction. -/
def isLogical : BinaryOp → Bool
  | and | or => true
  | _ => false

end BinaryOp

/-- The operators in front of one operand. -/
inductive UnaryOp where
  | negate
  | not
  | other (symbol : String)
  deriving DecidableEq, Repr

namespace UnaryOp

/-- How an operator is written. -/
def symbol : UnaryOp → String
  | negate => "-"
  | not => "!"
  | other s => s

/-- The operator that is written in the given way. -/
def ofSymbol (s : String) : UnaryOp :=
  if s = "-" then negate else if s = "!" then not else other s

end UnaryOp

end Binisaya
