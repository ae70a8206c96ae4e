import Binisaya.Proofs.Grammar.Literals
import Binisaya.Proofs.Lexing.Kinds
import Binisaya.Proofs.Numeral.Written
import Binisaya.Proofs.Scoping
import Binisaya.Rendering.Program

/-!
# Texts without braces

Only blocks have braces in rendered text.  Main statements: the pieces of a program whose strings
have no brace have none but for signs, provided that a token with a brace has the kind of its text;
and then no text of an expression or of a clause has one, nor has any value that a name stands for.
-/

namespace Binisaya

/-- A text without braces. -/
def Braceless (text : String) : Prop := '\x7b' ∉ text.toList ∧ '\x7d' ∉ text.toList

instance decidableBraceless (text : String) : Decidable (Braceless text) :=
  inferInstanceAs (Decidable ('\x7b' ∉ text.toList ∧ '\x7d' ∉ text.toList))

theorem Braceless.empty : Braceless "" := by decide

theorem Braceless.append {front rest : String} (h : Braceless front) (h' : Braceless rest) :
    Braceless (front ++ rest) := by
  simp only [Braceless, String.toList_append, List.mem_append, not_or]
  exact ⟨⟨h.1, h'.1⟩, h.2, h'.2⟩

/-- A text between two others. -/
theorem Braceless.between {text : String} (h : Braceless text) {front rest : String}
    (hfront : Braceless front) (hrest : Braceless rest) : Braceless (front ++ text ++ rest) :=
  (hfront.append h).append hrest

theorem Braceless.of_between {front text rest : String} (h : Braceless (front ++ text ++ rest)) :
    Braceless text := by
  simp only [Braceless, String.toList_append, List.mem_append, not_or] at h
  exact ⟨h.1.1.2, h.2.1.2⟩

/-- A text is without braces if its characters are of a kind that braces are not of. -/
theorem Braceless.of_forall {q : Char → Bool} {text : String}
    (h : ∀ c ∈ text.toList, q c = true) (hopen : q '\x7b' = false) (hclose : q '\x7d' = false) :
    Braceless text := by
  constructor
  · intro hc
    rw [h _ hc] at hopen
    cases hopen
  · intro hc
    rw [h _ hc] at hclose
    cases hclose

/-! ### Tokens -/

/-- A reserved word, a literal or a name without braces, or anything else. -/
def Lexeme.Tame (l : Lexeme) : Prop :=
  match l.1 with
  | .punctuation | .unknown | .unnamed _ => True
  | _ => Braceless l.2

theorem mem_unsignedPart {c : Char} {cs : List Char} (h : c ∈ cs) :
    c = '-' ∨ c ∈ unsignedPart cs := by
  unfold unsignedPart
  split
  · exact List.mem_cons.mp h
  · exact .inr h

theorem Lexeme.Tame.of_braceless {l : Lexeme} (h : Braceless l.2) : l.Tame := by
  unfold Lexeme.Tame
  split
  · trivial
  · trivial
  · trivial
  · exact h

/-- A token with the kind of its text has no braces, unless it is a string, a sign or unknown. -/
theorem Token.tame {t : Token} (hkind : t.kind = classify t.text) (hstring : t.kind ≠ .string) :
    t.bare.Tame := by
  obtain ⟨kind, text, location⟩ := t
  have hclass := classify_cases text
  have htables := classify_reserved_cases text
  dsimp only at hkind hstring
  rw [← hkind] at hclass htables
  unfold Lexeme.Tame Token.bare
  cases kind with
  | unknown | punctuation | unnamed => trivial
  | keyword =>
    obtain ⟨k, hk, heq⟩ := List.any_eq_true.mp htables
    have hall : ∀ k ∈ Keyword.all, Braceless k.spelling := by decide
    exact of_decide_eq_true heq ▸ hall k hk
  | int =>
    refine .of_forall (q := fun c => c == '-' || isDigit c) ?_ rfl rfl
    intro c hc
    rcases mem_unsignedPart hc with rfl | hc
    · rfl
    · simp [(isDigits_iff.mp hclass).2 c hc]
  | double =>
    refine .of_forall (q := fun c => c == '-' || c == '.' || isDigit c) ?_ rfl rfl
    intro c hc
    rcases mem_unsignedPart hc with rfl | hc
    · rfl
    · obtain ⟨whole, fraction, hbody, hwhole, hfraction⟩ := isPointed_of_isDoubleText hclass
      rw [hbody, List.mem_append, List.mem_cons] at hc
      rcases hc with hc | rfl | hc
      · simp [(isDigits_iff.mp hwhole).2 c hc]
      · rfl
      · simp [(isDigits_iff.mp hfraction).2 c hc]
  | boolean =>
    have hwords : Braceless "true" ∧ Braceless "false" := by decide
    rcases hclass with rfl | rfl
    · exact hwords.1
    · exact hwords.2
  | string => exact absurd rfl hstring
  | identifier =>
    refine .of_forall (q := fun c => isNameStart c || isDigit c) ?_ rfl rfl
    intro c hc
    dsimp only at hclass
    cases hcs : text.toList with
    | nil => simp [hcs] at hc
    | cons first others =>
      rw [hcs] at hclass hc
      rw [isNameText, Bool.and_eq_true] at hclass
      rcases List.mem_cons.mp hc with rfl | hc
      · simp [hclass.1]
      · exact List.all_eq_true.mp hclass.2 c hc

/-- The pieces of a program have no braces if its strings have none, nor has any token that has not
the kind of its text. -/
theorem unparse_tame {ts : List Token} {p : Program}
    (hbraces : ∀ t ∈ ts, t.kind = classify t.text ∨ Braceless t.text) (hparse : parse ts = .ok p)
    (hstrings : ∀ s ∈ Stmt.allLiterals .string p, Braceless s) : ∀ l ∈ unparse p, l.Tame := by
  intro l hl
  by_cases hstring : l.1 = .string
  · have hliteral : l.1.isLiteral = true := by
      rw [hstring]
      rfl
    obtain ⟨kind, text, htext, hmem⟩ := (Stmt.mem_unparseAll_iff hliteral p).mp hl
    cases kind with
    | string =>
      obtain rfl := List.mem_singleton.mp hmem
      exact .of_braceless ((hstrings text htext).between (by decide) (by decide))
    | int | float | bool =>
      obtain rfl := List.mem_singleton.mp hmem
      cases hstring
    | other => cases hmem
  · obtain ⟨-, used, hused, hspelled⟩ := parse_takes hparse
    obtain ⟨t, ht, rfl⟩ := Token.exists_bare_of_spelledBy hspelled hl hstring
    rw [List.append_nil] at hused
    subst hused
    rcases hbraces t ht with hkind | hclean
    · exact Token.tame hkind hstring
    · exact .of_braceless hclean

/-! ### Expressions -/

/-- No value has braces. -/
def Scopes.Braceless (values : Values) : Prop := ∀ v ∈ values.values, Binisaya.Braceless v

namespace Scopes.Braceless

variable {values : Values}

theorem initial : Scopes.Braceless .initial := by simp [Scopes.Braceless]

theorem push (h : Scopes.Braceless values) : Scopes.Braceless values.push := h

theorem pop (h : Scopes.Braceless values) : Scopes.Braceless values.pop :=
  fun v hv => h v ((Scopes.values_pop values).subset hv)

theorem bind (h : Scopes.Braceless values) (name : String) {text : String}
    (htext : Binisaya.Braceless text) : Scopes.Braceless (values.bind name text) := by
  intro v hv
  rcases List.mem_cons.mp ((Scopes.values_bind values name text).subset hv) with rfl | hv
  · exact htext
  · exact h v hv

theorem assign (h : Scopes.Braceless values) (name : String) {text : String}
    (htext : Binisaya.Braceless text) : Scopes.Braceless (values.assign name text) := by
  intro v hv
  rcases Scopes.mem_values_assign hv with rfl | hv
  · exact htext
  · exact h v hv

theorem lookup (h : Scopes.Braceless values) (name : String) :
    Binisaya.Braceless ((values.lookup name).getD undefinedText) := by
  cases hvalue : values.lookup name with
  | none => decide
  | some v => exact h v (Scopes.mem_values_of_lookup hvalue)

end Scopes.Braceless

theorem braceless_of_isDigits {cs : List Char} (h : isDigits cs = true) :
    Braceless (String.ofList cs) := by
  refine .of_forall (q := isDigit) ?_ rfl rfl
  rw [String.toList_ofList]
  exact (isDigits_iff.mp h).2

theorem braceless_toString (n : Int) : Braceless (toString n) := by
  have hnat : ∀ k : Nat, Braceless (toString k) := by
    intro k
    rw [Nat.toString_eq_repr, Nat.repr_eq_ofList_toDigits]
    exact braceless_of_isDigits (isDigits_decimalDigits k)
  cases n with
  | ofNat k => exact hnat k
  | negSucc k =>
    have hminus : Braceless "-" := by decide
    exact hminus.append (hnat (k + 1))

theorem braceless_positional (d : Decimal) : Braceless (String.ofList d.positional) := by
  rcases positional_cases d with hdigits | ⟨whole, fraction, htext, hwhole, hfraction⟩
  · exact braceless_of_isDigits hdigits
  · have hpoint : Braceless "." := by decide
    have hsplit : String.ofList d.positional =
        String.ofList whole ++ "." ++ String.ofList fraction := by
      rw [← String.toList_inj, String.toList_ofList, htext]
      simp
    rw [hsplit]
    exact hpoint.between (braceless_of_isDigits hwhole) (braceless_of_isDigits hfraction)

theorem braceless_render (x : Binary64) : Braceless x.render := by
  have hminus : Braceless "-" := by decide
  have htail : Braceless ".0" := by decide
  have hpositional := braceless_positional x.shortest
  have hpointed : Braceless (String.ofList (if x.shortest.positional.contains '.' then
      x.shortest.positional else x.shortest.positional ++ ['.', '0'])) := by
    split
    · exact hpositional
    · rw [String.ofList_append]
      exact hpositional.append htail
  unfold Binary64.render
  split
  · decide
  · split
    · split <;> decide
    · simp only
      split
      · rw [← List.singleton_append, String.ofList_append]
        exact hminus.append hpointed
      · exact hpointed

theorem braceless_renderLiteral {kind : LiteralKind} {text : String} (h : Braceless text) :
    Braceless (renderLiteral kind text) := by
  unfold renderLiteral
  cases kind with
  | int =>
    cases readInt 64 text with
    | ok n => exact braceless_toString n
    | error => exact h
  | float =>
    cases readDouble text with
    | ok x => exact braceless_render x
    | error => exact h
  | string => exact h.between (by decide) (by decide)
  | bool | other => exact h

theorem braceless_shieldOperator {text : String} (h : Braceless text) :
    Braceless (shieldOperator text) := by
  unfold shieldOperator
  split
  · exact h.between (by decide) (by decide)
  · exact h

theorem BinaryOp.braceless_symbol {op : BinaryOp} (h : 0 < op.rank) : Braceless op.symbol := by
  cases op with
  | other => cases h
  | _ => decide

/-- The text of an expression and the values after it have no braces, if its pieces have none. -/
theorem Expr.braceless_render {values : Values} {e : Expr} (hvalues : values.Braceless)
    (hwf : e.WellFormed) (htame : ∀ l ∈ e.unparse, l.Tame) :
    Scopes.Braceless (e.render values).1 ∧ Braceless (e.render values).2 := by
  induction e generalizing values with
  | absent => exact hwf.elim
  | literal kind text =>
    refine ⟨hvalues, braceless_renderLiteral ?_⟩
    cases kind with
    | int => exact htame (.int, text) (by simp [unparse, literalLexemes])
    | float => exact htame (.double, text) (by simp [unparse, literalLexemes])
    | bool => exact htame (.boolean, text) (by simp [unparse, literalLexemes])
    | string =>
      have hquoted := htame (.string, "\"" ++ text ++ "\"") (by simp [unparse, literalLexemes])
      exact hquoted.of_between
    | other => exact hwf.elim
  | name n => exact ⟨hvalues, hvalues.lookup n⟩
  | binary op left right ihl ihr =>
    obtain ⟨hrank, hleft, hright, -⟩ := hwf
    obtain ⟨hvalues₁, hfirst⟩ := ihl hvalues hleft fun l hl => htame l (by simp [unparse, hl])
    obtain ⟨hvalues₂, hsecond⟩ := ihr hvalues₁ hright fun l hl => htame l (by simp [unparse, hl])
    have hsymbol := BinaryOp.braceless_symbol hrank
    have hspace : Braceless " " := by decide
    have hopen : Braceless "(" := by decide
    have hclose : Braceless ")" := by decide
    exact ⟨hvalues₂, (((hfirst.between hopen hspace).append hsymbol).append hspace).append hsecond
      |>.append hclose⟩
  | unary op operand ih =>
    obtain ⟨hop, hoperand, -⟩ := hwf
    obtain ⟨hvalues₁, hinner⟩ := ih hvalues hoperand fun l hl => htame l (by simp [unparse, hl])
    refine ⟨hvalues₁, .append ?_ (braceless_shieldOperator hinner)⟩
    rcases hop with rfl | rfl <;> decide
  | group inner ih =>
    obtain ⟨hvalues₁, hinner⟩ := ih hvalues hwf fun l hl => htame l (by simp [unparse, hl])
    exact ⟨hvalues₁, hinner.between (by decide) (by decide)⟩
  | assign target value ih =>
    obtain ⟨hvalues₁, hinner⟩ := ih hvalues hwf fun l hl => htame l (by simp [unparse, hl])
    have htarget : Braceless target := htame (.identifier, target) (by simp [unparse])
    exact ⟨hvalues₁.assign target hinner, (htarget.append (by decide)).append hinner⟩

theorem Expr.braceless_renderOptional {values : Values} {e : Expr} (hvalues : values.Braceless)
    (hwf : e.OptionalWellFormed) (htame : ∀ l ∈ e.unparse, l.Tame) :
    Scopes.Braceless (e.renderOptional values).1 ∧ Braceless (e.renderOptional values).2 := by
  rcases hwf with rfl | hwf
  · exact ⟨hvalues, .empty⟩
  · rw [renderOptional, hwf.isAbsent]
    exact braceless_render hvalues hwf htame

/-! ### Declarations and clauses -/

theorem braceless_renderDeclaration {values : Values} {type name : String} {initial : Expr}
    (hvalues : values.Braceless) (hwf : (Stmt.declare type name initial).WellFormed)
    (htame : ∀ l ∈ (Stmt.declare type name initial).unparse, l.Tame) :
    Scopes.Braceless (renderDeclaration values type name initial).1 ∧
      Braceless (renderDeclaration values type name initial).2 := by
  have htype : Braceless type := htame (.keyword, type) (by simp [Stmt.unparse])
  have hname : Braceless name := htame (.identifier, name) (by simp [Stmt.unparse])
  have hspace : Braceless " " := by decide
  have hequals : Braceless " = " := by decide
  rw [Stmt.WellFormed] at hwf
  rcases hwf.2 with rfl | hwf
  · exact ⟨hvalues.bind name (by decide), (htype.append hspace).append hname⟩
  · obtain ⟨hvalues₁, hinner⟩ := Expr.braceless_render hvalues hwf fun l hl =>
      htame l (by simp [Stmt.unparse, Stmt.mem_initialLexemes hl])
    rw [renderDeclaration, hwf.isAbsent]
    exact ⟨hvalues₁.bind name hinner,
      (hname.between (htype.append hspace) hequals).append hinner⟩

theorem braceless_renderInitial {values : Values} {initial : Stmt} (hvalues : values.Braceless)
    (hwf : initial = .absent ∨ initial.WellFormed ∧ initial.isLoopInitial = true)
    (htame : ∀ l ∈ initial.unparse, l.Tame) :
    Scopes.Braceless (renderInitial values initial).1 ∧
      Braceless (renderInitial values initial).2 := by
  rcases hwf with rfl | ⟨hwf, hinitial⟩
  · exact ⟨hvalues, .empty⟩
  · cases initial with
    | declare type name value => exact braceless_renderDeclaration hvalues hwf htame
    | expression value =>
      rw [Stmt.WellFormed] at hwf
      exact Expr.braceless_render hvalues hwf fun l hl => htame l (by simp [Stmt.unparse, hl])
    | _ => cases hinitial

end Binisaya
