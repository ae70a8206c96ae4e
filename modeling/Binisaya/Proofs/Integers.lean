import Binisaya.Proofs.Grammar.Replacement
import Binisaya.Proofs.Lexing.Kinds
import Binisaya.Proofs.Lowering.IntegerStops
import Binisaya.Proofs.Numeral.Written
import Binisaya.Rendering.Program

/-!
# Integers in all stages

An integer of a text is digits, as many as there are.  The parser, the renderer and lowering read
them in words of different widths, but of the same number.  Main statement: the parser accepts an
integer exactly if a signed word of thirty-two bits holds the number, and then the other stages
give that number: rendered text its decimal, lowering the constant.
-/

namespace Binisaya

/-- A literal, and so an expression, may stand behind some tokens. -/
def LiteralMayFollow (before : List Token) : Prop :=
  ∃ p l more, WellFormed p ∧ l.1.isLiteral = true ∧
    unparse p = before.map Token.bare ++ l :: more

/-! ### Acceptance -/

theorem isOk_readInt_of_mem_unparse {p : Program} (hwf : WellFormed p) {v : String}
    (h : (.int, v) ∈ unparse p) : (readInt 32 v).isOk = true := by
  obtain ⟨kind, text, htext, hmem⟩ := (Stmt.mem_unparseAll_iff rfl p).mp h
  cases kind with
  | int =>
    obtain rfl : v = text := by simpa [Expr.literalLexemes] using hmem
    exact Stmt.allLiteralAllowed p hwf htext
  | _ => simp [Expr.literalLexemes] at hmem

namespace LiteralMayFollow

variable {before after : List Token} {t : Token}

theorem exists_parse (h : LiteralMayFollow before) (hkind : t.kind = .int)
    (hfits : (readInt 32 t.text).isOk = true) : ∃ more p, parse (before ++ t :: more) = .ok p := by
  obtain ⟨p, l, more, hwf, hl, hp⟩ := h
  obtain ⟨p', hwf', hp'⟩ := Stmt.allReplaceable hl hfits p hwf _ _ hp
  refine ⟨more.map fun l => ⟨l.1, l.2, none⟩, p', parse_of_spelled hwf' ?_⟩
  rw [unparse, hp', List.map_append, List.map_cons, List.map_map, Token.bare, hkind]
  simp [Function.comp_def, Token.bare]

/-- A parser that gets as far as an integer that cannot be read stops there. -/
theorem stops (h : LiteralMayFollow before) (hquotes : ∀ x ∈ before ++ t :: after, x.HasQuotes)
    (hkind : t.kind = .int) (hlarge : (readInt 32 t.text).isOk = false) :
    ∃ what, parse (before ++ t :: after) = .error ⟨.expected what, t :: after⟩ := by
  have hnot : ∀ p, WellFormed p → t.bare ∉ unparse p := by
    intro p hwf hmem
    rw [Token.bare, hkind] at hmem
    rw [isOk_readInt_of_mem_unparse hwf hmem] at hlarge
    cases hlarge
  cases hparse : parse (before ++ t :: after) with
  | ok p =>
    obtain ⟨hwf, used, hused, hspelled⟩ := parse_takes hparse
    rw [List.append_nil] at hused
    rw [← hused] at hspelled
    exact absurd (Token.map_bare_of_spelledBy hspelled hquotes ▸ by simp) (hnot p hwf)
  | error s =>
    obtain ⟨used, what, more, hts, hcause, p, hwf, hp⟩ :=
      (Parser.program_guides _).stops hquotes s (parse_eq_error_iff.mp hparse)
    suffices hrest : s.rest = t :: after by
      refine ⟨what, ?_⟩
      rw [← hcause, ← hrest]
    rcases List.append_eq_append_iff.mp hts with ⟨mid, rfl, hrest⟩ | ⟨mid, rfl, hrest⟩
    · -- behind the integer, which would then be part of a program
      cases mid with
      | nil => exact hrest.symm
      | cons c mid =>
        obtain ⟨rfl, -⟩ := List.cons.inj hrest
        exact absurd (hp ▸ by simp) (hnot p hwf)
    · -- before the integer, where a program could go on
      cases mid with
      | nil => exact hrest
      | cons c mid =>
        obtain ⟨p', l, more', hwf', -, hp'⟩ := h
        rw [List.append_assoc] at hparse
        have himpossible := parse_ne_ok_of_error hparse hrest
          (mid ++ (l :: more').map fun l => ⟨l.1, l.2, none⟩) p'
        refine absurd (parse_of_spelled hwf' ?_) himpossible
        rw [hp']
        simp [Function.comp_def, Token.bare]

end LiteralMayFollow

/-! ### The other stages -/

theorem isDigits_of_mem_tokenize {text : List Char} {t : Token} (ht : t ∈ tokenize text)
    (hkind : t.kind = .int) : isDigits t.text.toList = true := by
  obtain ⟨hclass, hshape⟩ := (scan_splits [] text).text_cases ht
  have hspelled : t.Spelled := Token.spelled_of_legible ⟨hclass, hshape⟩
  unfold Token.Spelled at hspelled
  rwa [hkind] at hspelled

/-- The integers of a parsed text are digits of numbers that a word of thirty-two bits holds. -/
theorem integer_of_parse {text : List Char} {p : Program} (h : parse (tokenize text) = .ok p)
    {v : String} (hv : v ∈ Stmt.allLiterals .int p) :
    isDigits v.toList = true ∧ digitsValue v.toList ≤ 2147483647 := by
  obtain ⟨hwf, -⟩ := parse_takes h
  have hpiece : (.int, v) ∈ unparse p :=
    (Stmt.mem_unparseAll_iff rfl p).mpr ⟨.int, v, hv, by simp [Expr.literalLexemes]⟩
  have hdigits : isDigits v.toList = true := (unparse_legible h _ hpiece).isDigits
  exact ⟨hdigits, (isOk_readInt_iff hdigits).mp (isOk_readInt_of_mem_unparse hwf hpiece)⟩

/-- What is rendered for a number reads as that number, so it is rendered as it is. -/
theorem renderLiteral_toString {n : Nat} (h : n ≤ 2147483647) :
    renderLiteral .int (toString n) = toString n := by
  have hdigits : isDigits (toString n).toList = true := by
    rw [toList_toString]
    exact isDigits_decimalDigits n
  have hvalue : digitsValue (toString n).toList = n := by
    rw [toList_toString, digitsValue_decimalDigits]
  rw [(renderLiteral_of_isDigits hdigits (hvalue.symm ▸ h)).2, hvalue]

/-- An integer is the constant that it denotes, and takes no code. -/
theorem lower_integer {v : String} (hdigits : isDigits v.toList = true)
    (hfits : digitsValue v.toList ≤ 2147483647) (env : Lowering.Environment)
    (b : Lowering.Builder) :
    (Expr.literal .int v).lower env b = .ok (⟨.i32 (digitsValue v.toList), .int⟩, b) := by
  have hpow : Nat.pow 2 (32 - 1) = 2147483648 := by decide
  have hread : readInt 32 v = .ok (digitsValue v.toList : Int) := by
    rw [readInt_of_isDigits (by decide) hdigits, hpow, if_pos (by omega)]
  rw [Expr.lower, Lowering.literal, hread]
  rfl

/-- All stages agree on integers.  Each is digits, which denote a number `n`.  Where an expression may
stand, the parser accepts it exactly if `n` is at most 2147483647, and stops at it otherwise.  In a
parsed program the renderer and lowering can read it, rendered text has the decimal of `n`, without
zeros in front and rendered as it is, and lowering gives the constant `n`; so it never stops at an
integer. -/
theorem integers_agree (text : List Char) :
    (∀ before t after, tokenize text = before ++ t :: after → t.kind = .int →
      let n := digitsValue t.text.toList
      isDigits t.text.toList = true ∧
      (LiteralMayFollow before →
        ((∃ more p, parse (before ++ t :: more) = .ok p) ↔ n ≤ 2147483647) ∧
        ((∃ what, parse (tokenize text) = .error ⟨.expected what, t :: after⟩) ↔
          2147483647 < n))) ∧
    ∀ p, parse (tokenize text) = .ok p →
      (∀ v ∈ Stmt.allLiterals .int p,
        let n := digitsValue v.toList
        isDigits v.toList = true ∧ n ≤ 2147483647 ∧ readInt 64 v = .ok (n : Int) ∧
        (∀ values, (Expr.literal .int v).render values = (values, toString n)) ∧
        (n ≠ 0 → (toString n).toList.head? ≠ some '0') ∧
        renderLiteral .int (toString n) = toString n ∧
        ∀ env b, (Expr.literal .int v).lower env b = .ok (⟨.i32 n, .int⟩, b)) ∧
      ∀ v reason, lower p ≠ .error (.error (.intLiteral v reason)) := by
  refine ⟨?_, ?_⟩
  · intro before t after hsplit hkind n
    have hmem : t ∈ tokenize text := by simp [hsplit]
    have hdigits := isDigits_of_mem_tokenize hmem hkind
    have hquotes : ∀ x ∈ before ++ t :: after, x.HasQuotes :=
      fun x hx => tokenize_hasQuotes (hsplit ▸ hx)
    refine ⟨hdigits, fun hplace => ?_⟩
    rw [hsplit]
    by_cases hfits : n ≤ 2147483647
    · have haccepts := hplace.exists_parse hkind ((isOk_readInt_iff hdigits).mpr hfits)
      refine ⟨iff_of_true haccepts hfits, iff_of_false ?_ (by omega)⟩
      rintro ⟨what, hstop⟩
      obtain ⟨more, p, hp⟩ := haccepts
      exact parse_ne_ok_of_error hstop rfl more p hp
    · have hlarge : (readInt 32 t.text).isOk = false := by
        rw [← Bool.not_eq_true, isOk_readInt_iff hdigits]
        exact hfits
      obtain ⟨what, hstop⟩ := hplace.stops hquotes hkind hlarge
      refine ⟨iff_of_false ?_ hfits, iff_of_true ⟨what, hstop⟩ (by omega)⟩
      rintro ⟨more, p, hp⟩
      exact parse_ne_ok_of_error hstop rfl more p hp
  · intro p hparse
    refine ⟨?_, ?_⟩
    · intro v hv n
      obtain ⟨hdigits, hfits⟩ := integer_of_parse hparse hv
      obtain ⟨hread, hrender⟩ := renderLiteral_of_isDigits hdigits hfits
      refine ⟨hdigits, hfits, hread, fun values => ?_, fun hne => ?_, renderLiteral_toString hfits,
        lower_integer hdigits hfits⟩
      · rw [Expr.render, hrender]
      · rw [toList_toString]
        exact head?_decimalDigits hne
    · intro v reason hstop
      obtain ⟨hv, hread⟩ := lower_stops_at_integer hstop
      obtain ⟨hdigits, hfits⟩ := integer_of_parse hparse hv
      have hok := (isOk_readInt_iff hdigits).mpr hfits
      rw [hread] at hok
      cases hok

/-- In `x = 002147483647; y = 2147483648;` the first integer is accepted and the parser stops at the
second; without it the first is rendered without its zeros. -/
theorem integers_agree_at_bound :
    let text := "x = 002147483647; y = 2147483648;".toList
    let t : Token := ⟨.int, "2147483648", some ⟨1, 23⟩⟩
    let short := "x = 002147483647;".toList
    let p : Program := [.expression (.assign "x" (.literal .int "002147483647"))]
    (∃ what, parse (tokenize text) = .error ⟨.expected what, t :: (tokenize text).drop 7⟩) ∧
      parse (tokenize short) = .ok p ∧
      (∀ values, (Expr.literal .int "002147483647").render values = (values, "2147483647")) ∧
      ∀ env b, (Expr.literal .int "002147483647").lower env b =
        .ok (⟨.i32 2147483647, .int⟩, b) := by
  intro text t short p
  have hsplit : tokenize text = (tokenize text).take 6 ++ t :: (tokenize text).drop 7 := by
    decide +kernel
  have hplace : LiteralMayFollow ((tokenize text).take 6) := by
    refine ⟨p ++ [.expression (.assign "y" (.literal .int "0"))], (.int, "0"), [.sign ";"], ?_, rfl,
      by decide +kernel⟩
    simp only [p, WellFormed, List.cons_append, List.nil_append, Stmt.AllWellFormed,
      Stmt.WellFormed]
    decide
  have hparse : parse (tokenize short) = .ok p := by
    refine parse_of_spelled ?_ (by decide +kernel)
    simp only [p, WellFormed, Stmt.AllWellFormed, Stmt.WellFormed]
    decide
  have hstops := (((integers_agree text).1 _ t _ hsplit rfl).2 hplace).2.mpr (by decide)
  obtain ⟨-, -, -, hrender, -, -, hlower⟩ :=
    ((integers_agree short).2 p hparse).1 "002147483647" (by decide)
  exact ⟨hstops, hparse, hrender, hlower⟩

end Binisaya
