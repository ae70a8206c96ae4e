import Binisaya.Tree.Parser.Stmt

/-!
# The grammar

Which trees are programs of the language, and how each is spelled.  `unparse` gives the pieces of a
tree, each a kind and a text, without places.  `Expr.WellFormed` and `Stmt.WellFormed` say which
trees follow the grammar: every operand binds tighter than its operator asks for, bodies are not
declarations, and an `edi` belongs to the nearest `ug`.
-/

namespace Binisaya

/-- A token without its place. -/
abbrev Lexeme := TokenKind × String

/-- A token without its place. -/
def Token.bare (t : Token) : Lexeme := (t.kind, t.text)

namespace Lexeme

/-- The lexeme of a sign. -/
def sign (text : String) : Lexeme := (.punctuation, text)

/-- The lexeme of a reserved word. -/
def word (w : Keyword) : Lexeme := (.keyword, w.spelling)

end Lexeme

/-- How tight a binary operator binds.  A symbol that is no operator binds not at all. -/
def BinaryOp.rank : BinaryOp → Nat
  | .or => 1
  | .and => 2
  | .equal | .notEqual => 3
  | .less | .lessEqual | .greater | .greaterEqual => 4
  | .add | .subtract => 5
  | .multiply | .divide => 6
  | .other _ => 0

namespace Expr

/-- How tight an expression holds together: an assignment least, then the six levels of binary
operators, then the operators in front of an operand, then names, literals and parentheses. -/
def rank : Expr → Nat
  | absent => 0
  | assign _ _ => 0
  | binary op _ _ => op.rank
  | unary _ _ => 7
  | literal _ _ => 8
  | name _ => 8
  | group _ => 8

/-- The pieces of a literal.  A string has its quotes again. -/
def literalLexemes : LiteralKind → String → List Lexeme
  | .int, text => [(.int, text)]
  | .float, text => [(.double, text)]
  | .bool, text => [(.boolean, text)]
  | .string, text => [(.string, "\"" ++ text ++ "\"")]
  | .other, _ => []

/-- The pieces of an expression. -/
def unparse : Expr → List Lexeme
  | absent => []
  | literal kind text => literalLexemes kind text
  | name n => [(.identifier, n)]
  | binary op left right => left.unparse ++ .sign op.symbol :: right.unparse
  | unary op operand => .sign op.symbol :: operand.unparse
  | group inner => .sign "(" :: (inner.unparse ++ [.sign ")"])
  | assign target value => (.identifier, target) :: .sign "=" :: value.unparse

/-- The literals of the grammar: the four kinds, integers within their range. -/
def LiteralAllowed : LiteralKind → String → Prop
  | .int, text => (readInt 32 text).isOk
  | .other, _ => False
  | _, _ => True

/-- The expressions of the grammar.  An operator takes a left operand that binds at least as tight
as itself and a right operand that binds tighter, so that equal operators group to the left; an
assignment takes any expression, so that assignments group to the right. -/
def WellFormed : Expr → Prop
  | absent => False
  | literal kind text => LiteralAllowed kind text
  | name _ => True
  | binary op left right =>
    0 < op.rank ∧ left.WellFormed ∧ right.WellFormed ∧ op.rank ≤ left.rank ∧ op.rank < right.rank
  | unary op operand => (op = .negate ∨ op = .not) ∧ operand.WellFormed ∧ 7 ≤ operand.rank
  | group inner => inner.WellFormed
  | assign _ value => value.WellFormed

/-- An expression of the grammar, or nothing. -/
def OptionalWellFormed (e : Expr) : Prop := e = absent ∨ e.WellFormed

instance decidableLiteralAllowed (kind : LiteralKind) (text : String) :
    Decidable (LiteralAllowed kind text) :=
  match kind with
  | .int => inferInstanceAs (Decidable ((readInt 32 text).isOk = true))
  | .other => inferInstanceAs (Decidable False)
  | .float | .bool | .string => inferInstanceAs (Decidable True)

instance decidableWellFormed : (e : Expr) → Decidable e.WellFormed
  | absent => inferInstanceAs (Decidable False)
  | literal kind text => inferInstanceAs (Decidable (LiteralAllowed kind text))
  | name _ => inferInstanceAs (Decidable True)
  | binary op left right =>
    have := decidableWellFormed left
    have := decidableWellFormed right
    inferInstanceAs (Decidable (0 < op.rank ∧ left.WellFormed ∧ right.WellFormed ∧
      op.rank ≤ left.rank ∧ op.rank < right.rank))
  | unary op operand =>
    have := decidableWellFormed operand
    inferInstanceAs (Decidable ((op = .negate ∨ op = .not) ∧ operand.WellFormed ∧
      7 ≤ operand.rank))
  | group inner => decidableWellFormed inner
  | assign _ value => decidableWellFormed value

instance decidableOptionalWellFormed (e : Expr) : Decidable e.OptionalWellFormed :=
  inferInstanceAs (Decidable (e = absent ∨ e.WellFormed))

end Expr

namespace Stmt

/-- Whether a statement is a declaration. -/
def isDeclare : Stmt → Bool
  | declare _ _ _ => true
  | _ => false

/-- Whether a statement ends in a conditional without an alternative, to which an `edi` after the
statement would belong. -/
def endsOpen : Stmt → Bool
  | ifElse _ _ absent => true
  | ifElse _ _ alternative => alternative.endsOpen
  | whileLoop _ body => body.endsOpen
  | forLoop _ _ _ body => body.endsOpen
  | _ => false

/-- The pieces of the part of a declaration after the name. -/
def initialLexemes (initial : Expr) : List Lexeme :=
  if initial.isAbsent then [.sign ";"] else .sign "=" :: (initial.unparse ++ [.sign ";"])

mutual

/-- The pieces of a statement. -/
def unparse : Stmt → List Lexeme
  | absent => []
  | declare type name initial => (.keyword, type) :: (.identifier, name) :: initialLexemes initial
  | print value => .word .imprentaGawas :: (value.unparse ++ [.sign ";"])
  | expression value => value.unparse ++ [.sign ";"]
  | block body => .sign "\x7b" :: (unparseAll body ++ [.sign "\x7d"])
  | ifElse condition consequent alternative =>
    .word .ug :: .sign "(" :: (condition.unparse ++ .sign ")" :: consequent.unparse) ++
      if alternative.isAbsent then [] else .word .edi :: alternative.unparse
  | whileLoop condition body =>
    .word .samtang :: .sign "(" :: (condition.unparse ++ .sign ")" :: body.unparse)
  | forLoop initial condition increment body =>
    .word .alang :: .sign "(" ::
      ((if initial.isAbsent then [.sign ";"] else initial.unparse) ++ condition.unparse ++
        .sign ";" :: (increment.unparse ++ .sign ")" :: body.unparse))

/-- The pieces of a sequence of statements. -/
def unparseAll : List Stmt → List Lexeme
  | [] => []
  | s :: ss => s.unparse ++ unparseAll ss

end

/-- The first clauses that a counting loop can have. -/
def isLoopInitial : Stmt → Bool
  | declare _ _ _ => true
  | expression _ => true
  | _ => false

mutual

/-- The statements of the grammar. -/
def WellFormed : Stmt → Prop
  | absent => False
  | declare type _ initial => isTypeWord type ∧ initial.OptionalWellFormed
  | print value => value.WellFormed
  | expression value => value.WellFormed
  | block body => AllWellFormed body
  | ifElse condition consequent alternative =>
    condition.WellFormed ∧ consequent.WellFormed ∧ consequent.isDeclare = false ∧
      (alternative = absent ∨
        alternative.WellFormed ∧ alternative.isDeclare = false ∧ consequent.endsOpen = false)
  | whileLoop condition body => condition.WellFormed ∧ body.WellFormed ∧ body.isDeclare = false
  | forLoop initial condition increment body =>
    (initial = absent ∨ initial.WellFormed ∧ initial.isLoopInitial) ∧
      condition.OptionalWellFormed ∧ increment.OptionalWellFormed ∧
      body.WellFormed ∧ body.isDeclare = false

/-- The sequences of statements of the grammar. -/
def AllWellFormed : List Stmt → Prop
  | [] => True
  | s :: ss => s.WellFormed ∧ AllWellFormed ss

end

end Stmt

theorem Expr.WellFormed.isAbsent {e : Expr} (h : e.WellFormed) : e.isAbsent = false := by
  cases e with
  | absent => exact h.elim
  | _ => rfl

theorem Stmt.WellFormed.isAbsent {s : Stmt} (h : s.WellFormed) : s.isAbsent = false := by
  cases s with
  | absent => simp [Stmt.WellFormed] at h
  | _ => rfl

theorem Stmt.endsOpen_ifElse {condition : Expr} {consequent alternative : Stmt}
    (h : alternative.isAbsent = false) :
    (ifElse condition consequent alternative).endsOpen = alternative.endsOpen := by
  cases alternative with
  | absent => cases h
  | _ => simp [endsOpen]

theorem Expr.WellFormed.unparse_ne_nil {e : Expr} (h : e.WellFormed) : e.unparse ≠ [] := by
  cases e with
  | absent => exact h.elim
  | literal kind text =>
    cases kind with
    | other => exact h.elim
    | _ => simp [unparse, literalLexemes]
  | _ => simp [unparse]

theorem Stmt.WellFormed.length_pos {s : Stmt} (h : s.WellFormed) : 0 < s.unparse.length := by
  cases s with
  | absent => simp [WellFormed] at h
  | _ => simp [unparse]

theorem Stmt.mem_initialLexemes {initial : Expr} {l : Lexeme} (h : l ∈ initial.unparse) :
    l ∈ Stmt.initialLexemes initial := by
  unfold Stmt.initialLexemes
  by_cases habsent : initial.isAbsent = true
  · cases initial with
    | absent => cases h
    | _ => cases habsent
  · simp [habsent, h]

/-- The pieces of a program. -/
def unparse (p : Program) : List Lexeme := Stmt.unparseAll p

/-- The programs of the grammar. -/
def WellFormed (p : Program) : Prop := Stmt.AllWellFormed p

end Binisaya
