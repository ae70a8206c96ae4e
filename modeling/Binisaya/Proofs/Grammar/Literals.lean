import Binisaya.Proofs.Grammar.WellFormed

/-!
# The literals of a program

`Stmt.allLiterals kind p` are the texts of all literals of a kind in a program, in the order in
which they are evaluated: operands from left to right, and the increment of a counting loop behind
its body.  Main statement: among the pieces of a program, the literals are those of its tree.
-/

namespace Binisaya

/-- The texts of the literals of a kind in an expression. -/
def Expr.literals (kind : LiteralKind) : Expr → List String
  | .absent => []
  | .literal k text => if k = kind then [text] else []
  | .name _ => []
  | .binary _ left right => left.literals kind ++ right.literals kind
  | .unary _ operand => operand.literals kind
  | .group inner => inner.literals kind
  | .assign _ value => value.literals kind

mutual

/-- The texts of the literals of a kind in a statement. -/
def Stmt.literals (kind : LiteralKind) : Stmt → List String
  | .absent => []
  | .declare _ _ initial => initial.literals kind
  | .print value => value.literals kind
  | .expression value => value.literals kind
  | .block body => Stmt.allLiterals kind body
  | .ifElse condition consequent alternative =>
    condition.literals kind ++ (consequent.literals kind ++ alternative.literals kind)
  | .whileLoop condition body => condition.literals kind ++ body.literals kind
  | .forLoop initial condition increment body =>
    initial.literals kind ++
      (condition.literals kind ++ (body.literals kind ++ increment.literals kind))

/-- The texts of the literals of a kind in a sequence of statements. -/
def Stmt.allLiterals (kind : LiteralKind) : List Stmt → List String
  | [] => []
  | s :: ss => s.literals kind ++ Stmt.allLiterals kind ss

end

theorem Expr.eq_absent_of_isAbsent {e : Expr} (h : e.isAbsent = true) : e = .absent := by
  cases e with
  | absent => rfl
  | _ => cases h

theorem Stmt.eq_absent_of_isAbsent {s : Stmt} (h : s.isAbsent = true) : s = .absent := by
  cases s with
  | absent => rfl
  | _ => cases h

/-! ### Literals and pieces -/

/-- The kinds of tokens that literals are spelled with. -/
def TokenKind.isLiteral : TokenKind → Bool
  | .int | .double | .boolean | .string => true
  | _ => false

namespace Lexeme

variable {l : Lexeme} (hl : l.1.isLiteral = true)
include hl

theorem ne_sign (text : String) : l ≠ .sign text := by
  rintro rfl
  cases hl

theorem ne_keyword (text : String) : l ≠ (.keyword, text) := by
  rintro rfl
  cases hl

theorem ne_identifier (text : String) : l ≠ (.identifier, text) := by
  rintro rfl
  cases hl

end Lexeme

/-- The pieces of an expression that are literals are those of its literals. -/
theorem Expr.mem_unparse_iff {l : Lexeme} (hl : l.1.isLiteral = true) (e : Expr) :
    l ∈ e.unparse ↔ ∃ kind, ∃ text ∈ e.literals kind, l ∈ literalLexemes kind text := by
  induction e with
  | absent => simp [unparse, literals]
  | literal kind text =>
    rw [unparse]
    constructor
    · exact fun h => ⟨kind, text, by simp [literals], h⟩
    · rintro ⟨kind', text', htext, h⟩
      obtain ⟨rfl, rfl⟩ : kind = kind' ∧ text' = text := by simpa [literals] using htext
      exact h
  | name n => simp [unparse, literals, l.ne_identifier hl]
  | binary op left right ihl ihr =>
    simp [unparse, literals, l.ne_sign hl, ihl, ihr, or_and_right, exists_or]
  | unary op operand ih => simp [unparse, literals, l.ne_sign hl, ih]
  | group inner ih => simp [unparse, literals, l.ne_sign hl, ih]
  | assign target value ih => simp [unparse, literals, l.ne_sign hl, l.ne_identifier hl, ih]

theorem Stmt.mem_initialLexemes_iff {l : Lexeme} (hl : l.1.isLiteral = true) (initial : Expr) :
    l ∈ Stmt.initialLexemes initial ↔ l ∈ initial.unparse := by
  cases initial with
  | absent => simp [Stmt.initialLexemes, Expr.isAbsent, Expr.unparse, l.ne_sign hl]
  | _ => simp [Stmt.initialLexemes, Expr.isAbsent, l.ne_sign hl]

mutual

/-- The pieces of a statement that are literals are those of its literals. -/
theorem Stmt.mem_unparse_iff {l : Lexeme} (hl : l.1.isLiteral = true) : (s : Stmt) →
    (l ∈ s.unparse ↔ ∃ kind, ∃ text ∈ s.literals kind, l ∈ Expr.literalLexemes kind text)
  | .absent => by simp [Stmt.unparse, Stmt.literals]
  | .declare type name initial => by
    simp [Stmt.unparse, Stmt.literals, l.ne_keyword hl, l.ne_identifier hl,
      Stmt.mem_initialLexemes_iff hl, Expr.mem_unparse_iff hl]
  | .print value => by
    simp [Stmt.unparse, Stmt.literals, Lexeme.word, l.ne_sign hl, l.ne_keyword hl,
      Expr.mem_unparse_iff hl]
  | .expression value => by
    simp [Stmt.unparse, Stmt.literals, l.ne_sign hl, Expr.mem_unparse_iff hl]
  | .block body => by
    simp [Stmt.unparse, Stmt.literals, l.ne_sign hl, Stmt.mem_unparseAll_iff hl body]
  | .ifElse condition consequent alternative => by
    have halternative :
        l ∈ (if alternative.isAbsent then [] else .word .edi :: alternative.unparse) ↔
          l ∈ alternative.unparse := by
      cases alternative with
      | absent => simp [Stmt.unparse, Stmt.isAbsent]
      | _ => simp [Stmt.isAbsent, Lexeme.word, l.ne_keyword hl]
    simp only [Stmt.unparse, List.mem_append, halternative]
    simp [Stmt.literals, Lexeme.word, l.ne_sign hl, l.ne_keyword hl, Expr.mem_unparse_iff hl,
      Stmt.mem_unparse_iff hl consequent, Stmt.mem_unparse_iff hl alternative, or_and_right,
      exists_or, or_assoc]
  | .whileLoop condition body => by
    simp [Stmt.unparse, Stmt.literals, Lexeme.word, l.ne_sign hl, l.ne_keyword hl,
      Expr.mem_unparse_iff hl, Stmt.mem_unparse_iff hl body, or_and_right, exists_or]
  | .forLoop initial condition increment body => by
    have hinitial : l ∈ (if initial.isAbsent then [.sign ";"] else initial.unparse) ↔
        l ∈ initial.unparse := by
      cases initial with
      | absent => simp [Stmt.unparse, Stmt.isAbsent, l.ne_sign hl]
      | _ => simp [Stmt.isAbsent]
    simp only [Stmt.unparse, List.mem_append, List.mem_cons, hinitial]
    simp [Stmt.literals, Lexeme.word, l.ne_sign hl, l.ne_keyword hl, Expr.mem_unparse_iff hl,
      Stmt.mem_unparse_iff hl initial, Stmt.mem_unparse_iff hl body, or_and_right, exists_or,
      or_assoc, or_comm, or_left_comm]

theorem Stmt.mem_unparseAll_iff {l : Lexeme} (hl : l.1.isLiteral = true) : (ss : List Stmt) →
    (l ∈ Stmt.unparseAll ss ↔
      ∃ kind, ∃ text ∈ Stmt.allLiterals kind ss, l ∈ Expr.literalLexemes kind text)
  | [] => by simp [Stmt.unparseAll, Stmt.allLiterals]
  | s :: ss => by
    simp [Stmt.unparseAll, Stmt.allLiterals, Stmt.mem_unparse_iff hl s,
      Stmt.mem_unparseAll_iff hl ss, or_and_right, exists_or]

end

/-! ### Literals of the grammar -/

theorem Expr.WellFormed.literalAllowed {kind : LiteralKind} {text : String} {e : Expr}
    (hwf : e.WellFormed) (h : text ∈ e.literals kind) : LiteralAllowed kind text := by
  induction e with
  | absent => exact hwf.elim
  | literal kind' text' =>
    obtain ⟨rfl, rfl⟩ : kind' = kind ∧ text = text' := by simpa [literals] using h
    exact hwf
  | name n => simp [literals] at h
  | binary op left right ihl ihr =>
    obtain ⟨-, hleft, hright, -⟩ := hwf
    rcases List.mem_append.mp h with h | h
    · exact ihl hleft h
    · exact ihr hright h
  | unary op operand ih => exact ih hwf.2.1 h
  | group inner ih => exact ih hwf h
  | assign target value ih => exact ih hwf h

theorem Expr.OptionalWellFormed.literalAllowed {kind : LiteralKind} {text : String} {e : Expr}
    (hwf : e.OptionalWellFormed) (h : text ∈ e.literals kind) : LiteralAllowed kind text := by
  rcases hwf with rfl | hwf
  · simp [literals] at h
  · exact hwf.literalAllowed h

mutual

/-- The literals of a statement of the grammar are literals of the grammar. -/
theorem Stmt.literalAllowed {kind : LiteralKind} {text : String} : (s : Stmt) → s.WellFormed →
    text ∈ s.literals kind → Expr.LiteralAllowed kind text
  | .absent, hwf, _ => by simp [Stmt.WellFormed] at hwf
  | .declare type name initial, hwf, h => by
    rw [Stmt.WellFormed] at hwf
    rw [Stmt.literals] at h
    exact hwf.2.literalAllowed h
  | .print value, hwf, h | .expression value, hwf, h => by
    rw [Stmt.WellFormed] at hwf
    rw [Stmt.literals] at h
    exact hwf.literalAllowed h
  | .block body, hwf, h => by
    rw [Stmt.WellFormed] at hwf
    rw [Stmt.literals] at h
    exact Stmt.allLiteralAllowed body hwf h
  | .ifElse condition consequent alternative, hwf, h => by
    rw [Stmt.WellFormed] at hwf
    obtain ⟨hcondition, hconsequent, -, halternative⟩ := hwf
    simp only [Stmt.literals, List.mem_append] at h
    rcases h with h | h | h
    · exact hcondition.literalAllowed h
    · exact Stmt.literalAllowed consequent hconsequent h
    · rcases halternative with rfl | ⟨halternative, -⟩
      · simp [Stmt.literals] at h
      · exact Stmt.literalAllowed alternative halternative h
  | .whileLoop condition body, hwf, h => by
    rw [Stmt.WellFormed] at hwf
    rw [Stmt.literals] at h
    rcases List.mem_append.mp h with h | h
    · exact hwf.1.literalAllowed h
    · exact Stmt.literalAllowed body hwf.2.1 h
  | .forLoop initial condition increment body, hwf, h => by
    rw [Stmt.WellFormed] at hwf
    obtain ⟨hinitial, hcondition, hincrement, hbody, -⟩ := hwf
    simp only [Stmt.literals, List.mem_append] at h
    rcases h with h | h | h | h
    · rcases hinitial with rfl | ⟨hinitial, -⟩
      · simp [Stmt.literals] at h
      · exact Stmt.literalAllowed initial hinitial h
    · exact hcondition.literalAllowed h
    · exact Stmt.literalAllowed body hbody h
    · exact hincrement.literalAllowed h

theorem Stmt.allLiteralAllowed {kind : LiteralKind} {text : String} : (ss : List Stmt) →
    Stmt.AllWellFormed ss → text ∈ Stmt.allLiterals kind ss → Expr.LiteralAllowed kind text
  | [], _, h => by simp [Stmt.allLiterals] at h
  | s :: ss, hwf, h => by
    rw [Stmt.AllWellFormed] at hwf
    rw [Stmt.allLiterals] at h
    rcases List.mem_append.mp h with h | h
    · exact Stmt.literalAllowed s hwf.1 h
    · exact Stmt.allLiteralAllowed ss hwf.2 h

end

end Binisaya
