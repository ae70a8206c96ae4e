import Binisaya.Proofs.Grammar.Soundness

/-!
# The parser accepts the whole grammar

Every well-formed tree is the answer on its own pieces, wherever its tokens stand.  A parser reads as
far as it can, so what follows a tree must not continue it: `Stops` says so for expressions, and an
`edi` must not follow a statement that ends in a conditional without one.
-/

namespace Binisaya

/-- Symbols tell operators apart. -/
theorem BinaryOp.eq_of_symbol {a b : BinaryOp} (ha : 0 < a.rank) (hb : 0 < b.rank)
    (h : a.symbol = b.symbol) : a = b := by
  cases a <;> cases b <;> simp_all [BinaryOp.rank, BinaryOp.symbol]

namespace Parser

/-- What is ahead does not begin with the given piece. -/
def NotAhead (piece : Lexeme) (rest : List Token) : Prop := rest.head?.map Token.bare ≠ some piece

/-- What is ahead does not continue an expression of at least the given rank. -/
structure Stops (least : Nat) (rest : List Token) : Prop where
  operator : ∀ op : BinaryOp, 0 < op.rank → least ≤ op.rank → NotAhead (.sign op.symbol) rest
  equals : least = 0 → NotAhead (.sign "=") rest

theorem notAhead_cons {piece : Lexeme} {t : Token} {rest : List Token} (h : t.bare ≠ piece) :
    NotAhead piece (t :: rest) := by
  simpa [NotAhead] using h

theorem seesSign_of_notAhead {α : Type} {text : String} {ts : List Token}
    (h : NotAhead (.sign text) ts) (f : Bool → Parser α) :
    (seesSign text >>= f) ts = f false ts := by
  have hfalse : (ts.head?.any fun t => t.isSign text) = false := by
    cases ts with
    | nil => rfl
    | cons t ts =>
      rw [List.head?_cons, Option.any_some, Bool.eq_false_iff]
      intro ht
      exact h (by simp [Token.isSign_iff.mp ht])
  rw [seesSign_bind, hfalse]

theorem seesSign_cons {α : Type} {text : String} {t : Token} (ht : t.bare = .sign text)
    (ts : List Token) (f : Bool → Parser α) :
    (seesSign text >>= f) (t :: ts) = f true (t :: ts) := by
  rw [seesSign_bind, List.head?_cons, Option.any_some, Token.isSign_iff.mpr ht]

theorem seesWord_of_notAhead {α : Type} {w : Keyword} {ts : List Token}
    (h : NotAhead (.word w) ts) (f : Bool → Parser α) :
    (seesWord w >>= f) ts = f false ts := by
  have hfalse : (ts.head?.any fun t => t.is .keyword w.spelling) = false := by
    cases ts with
    | nil => rfl
    | cons t ts =>
      rw [List.head?_cons, Option.any_some, Bool.eq_false_iff]
      intro ht
      exact h (by simp [Token.is_word_iff.mp ht])
  rw [seesWord_bind, hfalse]

theorem seesWord_cons {α : Type} {w : Keyword} {t : Token} (ht : t.bare = .word w)
    (ts : List Token) (f : Bool → Parser α) :
    (seesWord w >>= f) (t :: ts) = f true (t :: ts) := by
  rw [seesWord_bind, List.head?_cons, Option.any_some, Token.is_word_iff.mpr ht]

theorem seesType_cons {α : Type} (t : Token) (ts : List Token) (f : Bool → Parser α) :
    (seesType >>= f) (t :: ts) = f (t.kind = .keyword && isTypeWord t.text) (t :: ts) := rfl

/-- A sign that belongs to no operator ends every expression. -/
theorem stops_cons {t : Token} {text : String} (ht : t.bare = .sign text) (rest : List Token)
    (hequals : text ≠ "=") (hop : ∀ op : BinaryOp, 0 < op.rank → text ≠ op.symbol) (least : Nat) :
    Stops least (t :: rest) where
  operator op hrank _ := notAhead_cons (by simpa [ht, Lexeme.sign] using hop op hrank)
  equals _ := notAhead_cons (by simpa [ht, Lexeme.sign] using hequals)

theorem stops_semicolon {t : Token} (ht : t.bare = .sign ";") (rest : List Token) :
    Stops 0 (t :: rest) := by
  refine stops_cons ht rest (by decide) ?_ 0
  intro op hrank
  cases op <;> simp_all [BinaryOp.symbol, BinaryOp.rank]

theorem stops_parenthesis {t : Token} (ht : t.bare = .sign ")") (rest : List Token) :
    Stops 0 (t :: rest) := by
  refine stops_cons ht rest (by decide) ?_ 0
  intro op hrank
  cases op <;> simp_all [BinaryOp.symbol, BinaryOp.rank]

theorem Stops.mono {least most : Nat} {rest : List Token} (h : Stops least rest)
    (hle : least ≤ most) : Stops most rest where
  operator op hrank hmost := h.operator op hrank (Nat.le_trans hle hmost)
  equals hmost := h.equals (by omega)

/-- The parser answers with every well-formed expression of at least the given rank on its pieces,
if these are fewer than the bound. -/
def AcceptsExpr (p : Parser Expr) (least bound : Nat) : Prop :=
  ∀ (e : Expr) (used rest : List Token), e.WellFormed → least ≤ e.rank →
    used.map Token.bare = e.unparse → used.length < bound → Stops least rest →
    p (used ++ rest) = .ok (e, rest)

theorem unquote_quoted (text : String) : unquote ("\"" ++ text ++ "\"") = .ok text := by
  have htoList : ("\"" ++ text ++ "\"").toList = '"' :: (text.toList ++ ['"']) := by simp
  have hlast : (text.toList ++ ['"']).getLast? = some '"' := by simp
  unfold unquote
  rw [htoList]
  simp only [hlast]
  rw [if_pos (by decide)]
  simp

/-- A single piece is spelled by a single token. -/
theorem eq_singleton_of_map_bare {used : List Token} {piece : Lexeme}
    (h : used.map Token.bare = [piece]) : ∃ t, used = [t] ∧ t.bare = piece := by
  obtain ⟨t, us, rfl, ht, hus⟩ := List.map_eq_cons_iff.mp h
  obtain rfl := List.map_eq_nil_iff.mp hus
  exact ⟨t, rfl, ht⟩

theorem exists_cons_of_spelled {e : Expr} {used : List Token} (hwf : e.WellFormed)
    (hused : used.map Token.bare = e.unparse) : ∃ t us, used = t :: us := by
  cases used with
  | nil => exact absurd hused.symm hwf.unparse_ne_nil
  | cons t us => exact ⟨t, us, rfl⟩

theorem literal_accepts {kind : LiteralKind} {text : String} {used : List Token}
    (hallowed : Expr.LiteralAllowed kind text)
    (hused : used.map Token.bare = Expr.literalLexemes kind text) (rest : List Token) :
    literal (used ++ rest) = .ok (.literal kind text, rest) := by
  cases kind with
  | other => exact hallowed.elim
  | int =>
    obtain ⟨t, rfl, ht⟩ := eq_singleton_of_map_bare hused
    obtain ⟨hkind, rfl⟩ : t.kind = .int ∧ t.text = text := by simpa [Token.bare] using ht
    unfold literal
    rw [peek_bind]
    simp only [List.cons_append, List.head?_cons, hkind]
    cases hread : readInt 32 t.text with
    | ok n => rfl
    | error reason => simp [Expr.LiteralAllowed, hread, Except.isOk, Except.toBool] at hallowed
  | float =>
    obtain ⟨t, rfl, ht⟩ := eq_singleton_of_map_bare hused
    obtain ⟨hkind, rfl⟩ : t.kind = .double ∧ t.text = text := by simpa [Token.bare] using ht
    unfold literal
    rw [peek_bind]
    simp only [List.cons_append, List.head?_cons, hkind]
    rfl
  | bool =>
    obtain ⟨t, rfl, ht⟩ := eq_singleton_of_map_bare hused
    obtain ⟨hkind, rfl⟩ : t.kind = .boolean ∧ t.text = text := by simpa [Token.bare] using ht
    unfold literal
    rw [peek_bind]
    simp only [List.cons_append, List.head?_cons, hkind]
    rfl
  | string =>
    obtain ⟨t, rfl, ht⟩ := eq_singleton_of_map_bare hused
    obtain ⟨hkind, htext⟩ : t.kind = .string ∧ t.text = "\"" ++ text ++ "\"" := by
      simpa [Token.bare] using ht
    unfold literal
    rw [peek_bind]
    simp only [List.cons_append, List.head?_cons, hkind, htext, unquote_quoted]
    rfl

/-- The first piece of a literal is neither a sign nor a name. -/
theorem literalLexemes_kind {kind : LiteralKind} {text : String} {t : Token} {us : List Token}
    (h : (t :: us).map Token.bare = Expr.literalLexemes kind text) :
    t.kind ≠ .punctuation ∧ t.kind ≠ .identifier := by
  cases kind <;> simp_all [Expr.literalLexemes, Token.bare]

theorem isSign_eq_false_of_kind {t : Token} (h : t.kind ≠ .punctuation) (text : String) :
    t.isSign text = false := by
  simp [Token.isSign, Token.is, h]

theorem primary_accepts {inner : Parser Expr} {bound : Nat} (hinner : AcceptsExpr inner 0 bound)
    {e : Expr} {used : List Token} (hwf : e.WellFormed) (hrank : 8 ≤ e.rank)
    (hused : used.map Token.bare = e.unparse) (hlength : used.length ≤ bound)
    (rest : List Token) : primary inner (used ++ rest) = .ok (e, rest) := by
  cases e with
  | absent => exact hwf.elim
  | assign target value => simp [Expr.rank] at hrank
  | binary op left right => cases op <;> simp [Expr.rank, BinaryOp.rank] at hrank
  | unary op operand => simp [Expr.rank] at hrank
  | literal kind text =>
    have haccepts := literal_accepts hwf hused rest
    obtain ⟨t, us, rfl⟩ := exists_cons_of_spelled hwf hused
    obtain ⟨hsign, hname⟩ := literalLexemes_kind hused
    unfold primary
    rw [peek_bind]
    simp only [List.cons_append, List.head?_cons, isSign_eq_false_of_kind hsign, hname,
      Bool.false_eq_true, if_false]
    exact haccepts
  | name n =>
    obtain ⟨t, rfl, ht⟩ := eq_singleton_of_map_bare hused
    obtain ⟨hkind, rfl⟩ : t.kind = .identifier ∧ t.text = n := by simpa [Token.bare] using ht
    unfold primary
    rw [peek_bind]
    simp only [List.cons_append, List.head?_cons,
      isSign_eq_false_of_kind (by simp [hkind] : t.kind ≠ .punctuation), Bool.false_eq_true,
      if_false, hkind, if_true]
    rfl
  | group e =>
    obtain ⟨t, us, rfl, ht, hinside⟩ := List.map_eq_cons_iff.mp hused
    obtain ⟨us, closing, rfl, hus, hclosing⟩ := List.map_eq_append_iff.mp hinside
    obtain ⟨close, rfl, hclose⟩ := eq_singleton_of_map_bare hclosing
    have hread := hinner e us (close :: rest) hwf (Nat.zero_le _) hus
      (by simp only [List.length_cons, List.length_append] at hlength; omega)
      (stops_parenthesis hclose rest)
    unfold primary
    rw [peek_bind]
    simp only [List.cons_append, List.head?_cons, Token.isSign_iff.mpr ht, if_true]
    rw [skip_bind]
    simp only [List.tail_cons, List.append_assoc, List.cons_append, List.nil_append]
    rw [bind_of_ok hread, bind_of_ok (sign_cons hclose _ _)]
    rfl

/-- A name, a literal or a parenthesis does not begin with an operator in front of an operand. -/
theorem unaryOp?_eq_none {e : Expr} {t : Token} {us : List Token} (hrank : 8 ≤ e.rank)
    (h : (t :: us).map Token.bare = e.unparse) : unaryOp? t = none := by
  have hne : t.bare ≠ .sign UnaryOp.negate.symbol ∧ t.bare ≠ .sign UnaryOp.not.symbol := by
    cases e with
    | literal kind text =>
      cases kind <;> simp_all [Expr.unparse, Expr.literalLexemes, Lexeme.sign]
    | name n => simp_all [Expr.unparse, Lexeme.sign]
    | group inner => simp_all [Expr.unparse, Lexeme.sign, UnaryOp.symbol]
    | binary op left right => cases op <;> simp [Expr.rank, BinaryOp.rank] at hrank
    | _ => simp [Expr.rank] at hrank
  unfold unaryOp?
  rw [if_neg fun hs => hne.1 (Token.isSign_iff.mp hs),
    if_neg fun hs => hne.2 (Token.isSign_iff.mp hs)]

theorem unaryOp?_eq_of_bare {op : UnaryOp} {t : Token} (hop : op = .negate ∨ op = .not)
    (ht : t.bare = .sign op.symbol) : unaryOp? t = some op := by
  unfold unaryOp?
  rcases hop with rfl | rfl
  · rw [if_pos (Token.isSign_iff.mpr ht)]
  · have hne : t.bare ≠ .sign UnaryOp.negate.symbol := by simp [ht, Lexeme.sign, UnaryOp.symbol]
    rw [if_neg fun hs => hne (Token.isSign_iff.mp hs), if_pos (Token.isSign_iff.mpr ht)]

theorem unary_accepts {inner : Parser Expr} {bound : Nat} (hinner : AcceptsExpr inner 0 bound)
    (e : Expr) : ∀ (used rest : List Token), e.WellFormed → 7 ≤ e.rank →
      used.map Token.bare = e.unparse → used.length ≤ bound →
      unary inner (used ++ rest) = .ok (e, rest) := by
  induction e with
  | unary op operand ih =>
    intro used rest hwf hrank hused hlength
    obtain ⟨hop, hwf, hrank⟩ := hwf
    obtain ⟨t, us, rfl, ht, hus⟩ := List.map_eq_cons_iff.mp hused
    have hread := ih us rest hwf hrank hus (by simp only [List.length_cons] at hlength; omega)
    rw [List.cons_append]
    unfold unary
    simp only [unaryOp?_eq_of_bare hop ht, hread]
  | binary op left right =>
    intro used rest hwf hrank
    cases op <;> simp [Expr.rank, BinaryOp.rank] at hrank
  | absent | assign =>
    intro used rest hwf hrank
    simp [Expr.rank] at hrank
  | literal | name | group =>
    intro used rest hwf hrank hused hlength
    have hread := primary_accepts hinner hwf (by simp [Expr.rank]) hused hlength rest
    obtain ⟨t, us, rfl⟩ := exists_cons_of_spelled hwf hused
    rw [List.cons_append]
    unfold unary
    simp only [unaryOp?_eq_none (by simp [Expr.rank]) hused]
    exact hread

theorem binaryOp?_eq_of_bare {ops : List BinaryOp} (hops : ∀ op ∈ ops, 0 < op.rank)
    {op : BinaryOp} {t : Token} (hmem : op ∈ ops) (ht : t.bare = .sign op.symbol) :
    binaryOp? ops t = some op := by
  unfold binaryOp?
  cases hfind : ops.find? fun op => t.isSign op.symbol with
  | none => exact absurd (Token.isSign_iff.mpr ht) (List.find?_eq_none.mp hfind op hmem)
  | some found =>
    have hmem' := List.mem_of_find?_eq_some hfind
    have hsymbol : t.bare = .sign found.symbol :=
      Token.isSign_iff.mp (by simpa using List.find?_some hfind)
    have heq : found.symbol = op.symbol := by
      rw [ht] at hsymbol
      simpa [Lexeme.sign] using hsymbol.symm
    rw [BinaryOp.eq_of_symbol (hops found hmem') (hops op hmem) heq]

theorem chainFrom_stops {operand : Parser Expr} {ops : List BinaryOp} {level : Nat}
    (hlevel : 0 < level) (hops : ∀ op, op ∈ ops ↔ op.rank = level) (rounds : Nat) (e : Expr)
    {rest : List Token} (hstops : Stops level rest) :
    chainFrom operand ops rounds e rest = .ok (e, rest) := by
  cases rounds with
  | zero => rfl
  | succ rounds =>
    unfold chainFrom
    rw [peek_bind]
    cases rest with
    | nil => rfl
    | cons t rest =>
      have hnone : binaryOp? ops t = none := by
        refine List.find?_eq_none.mpr ?_
        intro op hmem hsign
        have hrank := (hops op).mp hmem
        exact hstops.operator op (by omega) (by omega) (by simp [Token.isSign_iff.mp hsign])
      simp only [List.head?_cons, Option.bind_some, hnone]
      rfl

/-- A chain reads an expression of its level from the left: it stands before what follows with the
whole expression in hand.  The induction is along the left operands. -/
theorem chain_spine {operand : Parser Expr} {ops : List BinaryOp} {level bound : Nat}
    (hlevel : 0 < level) (hmost : level ≤ 6) (hops : ∀ op, op ∈ ops ↔ op.rank = level)
    (hoperand : AcceptsExpr operand (level + 1) bound) (e : Expr) :
    ∀ (used rest : List Token) (rounds : Nat), e.WellFormed → level ≤ e.rank →
      used.map Token.bare = e.unparse → used.length < bound → Stops (level + 1) rest →
      used.length ≤ rounds →
      ∃ left, rounds ≤ used.length + left ∧
        (operand >>= chainFrom operand ops rounds) (used ++ rest) =
          chainFrom operand ops left e rest := by
  have hsingle : ∀ (e : Expr) (used rest : List Token) (rounds : Nat), e.WellFormed →
      level + 1 ≤ e.rank → used.map Token.bare = e.unparse → used.length < bound →
      Stops (level + 1) rest →
      ∃ left, rounds ≤ used.length + left ∧
        (operand >>= chainFrom operand ops rounds) (used ++ rest) =
          chainFrom operand ops left e rest := by
    intro e used rest rounds hwf hrank hused hlength hstops
    exact ⟨rounds, by omega, bind_of_ok (hoperand e used rest hwf hrank hused hlength hstops) _⟩
  induction e with
  | binary op l r ihl =>
    intro used rest rounds hwf hrank hused hlength hstops hrounds
    by_cases htight : level + 1 ≤ (Expr.binary op l r).rank
    · exact hsingle _ used rest rounds hwf htight hused hlength hstops
    · obtain ⟨hpos, hwfl, hwfr, hl, hr⟩ := hwf
      have hop : op.rank = level := by simp only [Expr.rank] at hrank htight; omega
      obtain ⟨us, after, rfl, hus, hafter⟩ := List.map_eq_append_iff.mp hused
      obtain ⟨t, vs, rfl, ht, hvs⟩ := List.map_eq_cons_iff.mp hafter
      simp only [List.length_append, List.length_cons] at hlength hrounds
      have hstopsOp : Stops (level + 1) (t :: (vs ++ rest)) := by
        refine ⟨fun other hpos hle => notAhead_cons ?_, fun h => by omega⟩
        rw [ht]
        intro heq
        have hsame : op = other :=
          BinaryOp.eq_of_symbol (by omega) hpos (by simpa [Lexeme.sign] using heq)
        rw [← hsame] at hle
        omega
      obtain ⟨left, hleft, hrun⟩ := ihl us (t :: (vs ++ rest)) rounds hwfl (by omega) hus
        (by omega) hstopsOp (by omega)
      have hright := hoperand r vs rest hwfr (by omega) hvs (by omega) hstops
      cases left with
      | zero => omega
      | succ left =>
        refine ⟨left, by simp only [List.length_append, List.length_cons]; omega, ?_⟩
        rw [List.append_assoc, List.cons_append, hrun]
        conv => lhs; unfold chainFrom
        rw [peek_bind]
        simp only [List.head?_cons, Option.bind_some,
          binaryOp?_eq_of_bare (fun o ho => by rw [(hops o).mp ho]; exact hlevel)
            ((hops op).mpr hop) ht]
        rw [skip_bind, List.tail_cons, bind_of_ok hright]
  | absent => exact fun _ _ _ hwf => hwf.elim
  | assign =>
    intro used rest rounds hwf hrank
    simp only [Expr.rank] at hrank
    omega
  | literal | name | group | unary =>
    intro used rest rounds hwf _ hused hlength hstops _
    exact hsingle _ used rest rounds hwf (by simp only [Expr.rank]; omega) hused hlength hstops

theorem chain_accepts {operand : Parser Expr} (ops : List BinaryOp) (level : Nat) {bound : Nat}
    (hlevel : 0 < level) (hmost : level ≤ 6) (hops : ∀ op, op ∈ ops ↔ op.rank = level)
    (hoperand : AcceptsExpr operand (level + 1) bound) :
    AcceptsExpr (chain operand ops) level bound := by
  intro e used rest hwf hrank hused hlength hstops
  obtain ⟨left, -, hrun⟩ := chain_spine hlevel hmost hops hoperand e used rest
    (used ++ rest).length hwf hrank hused hlength (hstops.mono (by omega))
    (by simp only [List.length_append]; omega)
  unfold chain
  rw [bind_of_ok (get_run _)]
  exact hrun.trans (chainFrom_stops hlevel hops left e hstops)

theorem operation_accepts {inner : Parser Expr} {bound : Nat} (hinner : AcceptsExpr inner 0 bound) :
    AcceptsExpr (operation inner) 1 (bound + 1) := by
  have hunary : AcceptsExpr (unary inner) 7 (bound + 1) := by
    intro e used rest hwf hrank hused hlength _
    exact unary_accepts hinner e used rest hwf hrank hused (by omega)
  have hproduct := chain_accepts [.multiply, .divide] 6 (by decide) (by decide)
    (by intro op; cases op <;> simp [BinaryOp.rank]) hunary
  have hsum := chain_accepts [.add, .subtract] 5 (by decide) (by decide)
    (by intro op; cases op <;> simp [BinaryOp.rank]) hproduct
  have horder := chain_accepts [.less, .lessEqual, .greater, .greaterEqual] 4
    (by decide) (by decide) (by intro op; cases op <;> simp [BinaryOp.rank]) hsum
  have hequality := chain_accepts [.equal, .notEqual] 3 (by decide) (by decide)
    (by intro op; cases op <;> simp [BinaryOp.rank]) horder
  have hand := chain_accepts [.and] 2 (by decide) (by decide)
    (by intro op; cases op <;> simp [BinaryOp.rank]) hequality
  exact chain_accepts [.or] 1 (by decide) (by decide)
    (by intro op; cases op <;> simp [BinaryOp.rank]) hand

theorem assignment_accepts {inner : Parser Expr} {bound : Nat}
    (hinner : AcceptsExpr inner 0 bound) : AcceptsExpr (assignment inner) 0 (bound + 1) := by
  intro e used rest hwf hrank hused hlength hstops
  have hoperation := operation_accepts hinner
  by_cases hassign : 1 ≤ e.rank
  · have hread := hoperation e used rest hwf hassign hused hlength (hstops.mono (by omega))
    unfold assignment
    rw [bind_of_ok hread, seesSign_of_notAhead (hstops.equals rfl)]
    rfl
  · cases e with
    | assign target value =>
      obtain ⟨t, us, rfl, ht, hafter⟩ := List.map_eq_cons_iff.mp hused
      obtain ⟨equals, vs, rfl, hequals, hvs⟩ := List.map_eq_cons_iff.mp hafter
      simp only [List.length_cons] at hlength
      have hstopsEquals : Stops 1 (equals :: (vs ++ rest)) := by
        refine ⟨fun op hpos _ => notAhead_cons ?_, fun h => absurd h (by decide)⟩
        rw [hequals]
        cases op <;> simp_all [Lexeme.sign, BinaryOp.symbol, BinaryOp.rank]
      have htarget := hoperation (.name target) [t] (equals :: (vs ++ rest)) trivial
        (by simp [Expr.rank]) (by simp [ht, Expr.unparse])
        (by simp only [List.length_cons, List.length_nil]; omega) hstopsEquals
      have hvalue := hinner value vs rest hwf (Nat.zero_le _) hvs (by omega) hstops
      unfold assignment
      simp only [List.cons_append, List.nil_append] at htarget ⊢
      rw [bind_of_ok htarget, seesSign_cons hequals, if_pos rfl]
      simp only
      rw [skip_bind, List.tail_cons, bind_of_ok hvalue]
      rfl
    | absent => exact hwf.elim
    | binary op left right => exact absurd hwf.1 (by simpa [Expr.rank] using hassign)
    | _ => simp [Expr.rank] at hassign

theorem expr_accepts (depth : Nat) : AcceptsExpr (expr depth) 0 depth := by
  induction depth with
  | zero =>
    intro e used rest _ _ _ hlength
    omega
  | succ depth ih => exact assignment_accepts ih

theorem expression_accepts {e : Expr} {used rest : List Token} (hwf : e.WellFormed)
    (hused : used.map Token.bare = e.unparse) (hstops : Stops 0 rest) :
    expression (used ++ rest) = .ok (e, rest) :=
  expr_accepts _ e used rest hwf (Nat.zero_le _) hused
    (by simp only [List.length_append]; omega) hstops

/-- Every expression begins with a token that can begin one. -/
theorem startsExpression_of_spelled (e : Expr) :
    ∀ {t : Token} {us : List Token}, e.WellFormed → (t :: us).map Token.bare = e.unparse →
      startsExpression t = true := by
  induction e with
  | absent => exact fun hwf => hwf.elim
  | literal kind text =>
    intro t us hwf h
    unfold startsExpression
    cases kind <;> simp_all [Expr.unparse, Expr.literalLexemes, Token.bare, Expr.WellFormed,
      Expr.LiteralAllowed]
  | name n =>
    intro t us hwf h
    unfold startsExpression
    simp_all [Expr.unparse, Token.bare]
  | unary op operand ih =>
    intro t us hwf h
    have ht : t.bare = .sign op.symbol := (List.cons_eq_cons.mp h).1
    have hkind : t.kind = .punctuation := congrArg Prod.fst ht
    unfold startsExpression
    simp [hkind, unaryOp?_eq_of_bare hwf.1 ht]
  | group inner ih =>
    intro t us hwf h
    have ht : t.bare = .sign "(" := (List.cons_eq_cons.mp h).1
    have hkind : t.kind = .punctuation := congrArg Prod.fst ht
    have htext : t.text = "(" := congrArg Prod.snd ht
    unfold startsExpression
    simp [hkind, htext]
  | assign target value ih =>
    intro t us hwf h
    have hkind : t.kind = .identifier := congrArg Prod.fst (List.cons_eq_cons.mp h).1
    unfold startsExpression
    simp [hkind]
  | binary op left right ihl =>
    intro t us hwf h
    obtain ⟨ls, after, hsplit, hls, -⟩ := List.map_eq_append_iff.mp h
    obtain ⟨first, ls, rfl⟩ := exists_cons_of_spelled hwf.2.1 hls
    obtain rfl : t = first := (List.cons_eq_cons.mp hsplit).1
    exact ihl hwf.2.1 hls

theorem bare_ne_word {t : Token} (h : startsExpression t = true) (w : Keyword) :
    t.bare ≠ .word w := by
  intro ht
  have hkind : t.kind = .keyword := congrArg Prod.fst ht
  simp [startsExpression, hkind] at h

theorem bare_ne_sign {t : Token} (h : startsExpression t = true) {text : String}
    (htext : text ≠ "(" ∧ text ≠ "-" ∧ text ≠ "!") : t.bare ≠ .sign text := by
  intro ht
  have hkind : t.kind = .punctuation := congrArg Prod.fst ht
  have htext' : t.text = text := congrArg Prod.snd ht
  simp [startsExpression, hkind, htext', unaryOp?, Token.isSign, Token.is, UnaryOp.symbol,
    htext.1, htext.2.1, htext.2.2] at h

theorem optionalBefore_accepts {e : Expr} {text : String} {used : List Token} {t : Token}
    (rest : List Token) (hwf : e.OptionalWellFormed) (hused : used.map Token.bare = e.unparse)
    (ht : t.bare = .sign text) (htext : text ≠ "(" ∧ text ≠ "-" ∧ text ≠ "!")
    (hstops : Stops 0 (t :: rest)) :
    optionalBefore text (used ++ t :: rest) = .ok (e, t :: rest) := by
  unfold optionalBefore
  rcases hwf with rfl | hwf
  · obtain rfl := List.map_eq_nil_iff.mp hused
    rw [List.nil_append, seesSign_cons ht]
    rfl
  · have hread := expression_accepts hwf hused hstops
    obtain ⟨first, us, rfl⟩ := exists_cons_of_spelled hwf hused
    have hfirst := startsExpression_of_spelled e hwf hused
    rw [List.cons_append, seesSign_of_notAhead (notAhead_cons (bare_ne_sign hfirst htext))]
    exact hread

theorem condition_accepts (word : Keyword) {e : Expr} {opening close : Token}
    {used : List Token} (rest : List Token) (hwf : e.WellFormed)
    (hopening : opening.bare = .sign "(") (hused : used.map Token.bare = e.unparse)
    (hclose : close.bare = .sign ")") :
    condition word (opening :: (used ++ close :: rest)) = .ok (e, rest) := by
  have hread := expression_accepts hwf hused (stops_parenthesis hclose rest)
  obtain ⟨first, us, rfl⟩ := exists_cons_of_spelled hwf hused
  have hfirst := startsExpression_of_spelled e hwf hused
  unfold condition
  rw [bind_of_ok (sign_cons hopening _ _), peek_bind, List.cons_append, List.head?_cons,
    Option.any_some, if_pos hfirst, ← List.cons_append, bind_of_ok hread,
    bind_of_ok (sign_cons hclose _ _)]
  rfl

theorem expressionStatement_accepts {e : Expr} {used : List Token} (rest : List Token)
    (hwf : e.WellFormed) (hused : used.map Token.bare = (Stmt.expression e).unparse) :
    expressionStatement (used ++ rest) = .ok (.expression e, rest) := by
  obtain ⟨us, closing, rfl, hus, hclosing⟩ := List.map_eq_append_iff.mp hused
  obtain ⟨close, rfl, hclose⟩ := eq_singleton_of_map_bare hclosing
  rw [List.append_assoc, List.singleton_append]
  unfold expressionStatement
  rw [bind_of_ok (expression_accepts hwf hus (stops_semicolon hclose rest)),
    bind_of_ok (sign_cons hclose _ _)]
  rfl

theorem declaration_accepts {type name : String} {initial : Expr} {used : List Token}
    (rest : List Token) (hwf : (Stmt.declare type name initial).WellFormed)
    (hused : used.map Token.bare = (Stmt.declare type name initial).unparse) :
    declaration (used ++ rest) = .ok (.declare type name initial, rest) := by
  obtain ⟨t, afterType, rfl, ht, hafterType⟩ := List.map_eq_cons_iff.mp hused
  obtain ⟨n, afterName, rfl, hn, hafterName⟩ := List.map_eq_cons_iff.mp hafterType
  obtain rfl : t.text = type := congrArg Prod.snd ht
  unfold declaration
  rw [peek_bind]
  simp only [List.cons_append, List.head?_cons, Option.map_some, Option.getD_some]
  rw [skip_bind, List.tail_cons, bind_of_ok (identifier_cons hn _ _)]
  rcases hwf.2 with rfl | hinitial
  · obtain ⟨close, rfl, hclose⟩ := eq_singleton_of_map_bare hafterName
    rw [List.singleton_append,
      seesSign_of_notAhead (notAhead_cons (by simp [hclose, Lexeme.sign])),
      if_neg (by decide), bind_of_ok (sign_cons hclose _ _)]
    rfl
  · simp only [Stmt.initialLexemes, hinitial.isAbsent, Bool.false_eq_true, if_false] at hafterName
    obtain ⟨equals, afterEquals, rfl, hequals, hafterEquals⟩ := List.map_eq_cons_iff.mp hafterName
    obtain ⟨us, closing, rfl, hus, hclosing⟩ := List.map_eq_append_iff.mp hafterEquals
    obtain ⟨close, rfl, hclose⟩ := eq_singleton_of_map_bare hclosing
    rw [List.cons_append, seesSign_cons hequals, if_pos rfl, skip_bind, List.tail_cons,
      List.append_assoc, List.singleton_append,
      bind_of_ok (expression_accepts hinitial hus (stops_semicolon hclose rest)),
      bind_of_ok (sign_cons hclose _ _)]
    rfl

theorem printStatement_accepts {e : Expr} {used : List Token} (rest : List Token)
    (hwf : e.WellFormed) (hused : used.map Token.bare = (Stmt.print e).unparse) :
    printStatement (used ++ rest) = .ok (.print e, rest) := by
  obtain ⟨t, after, rfl, ht, hafter⟩ := List.map_eq_cons_iff.mp hused
  obtain ⟨us, closing, rfl, hus, hclosing⟩ := List.map_eq_append_iff.mp hafter
  obtain ⟨close, rfl, hclose⟩ := eq_singleton_of_map_bare hclosing
  unfold printStatement
  rw [skip_bind, List.cons_append, List.tail_cons, List.append_assoc, List.singleton_append,
    bind_of_ok (expression_accepts hwf hus (stops_semicolon hclose rest)),
    bind_of_ok (sign_cons hclose _ _)]
  rfl

/-- The parser answers with every well-formed statement other than a declaration on its pieces, if
these are fewer than the bound, and no `edi` is ahead that would belong to the statement. -/
def AcceptsStmt (p : Parser Stmt) (bound : Nat) : Prop :=
  ∀ (s : Stmt) (used rest : List Token), s.WellFormed → s.isDeclare = false →
    used.map Token.bare = s.unparse → used.length < bound →
    (s.endsOpen = true → NotAhead (.word .edi) rest) → p (used ++ rest) = .ok (s, rest)

/-- What a statement other than a declaration begins with. -/
inductive StartsStatement (t : Token) : Prop where
  | word (w : Keyword) (ht : t.bare = .word w)
      (hw : w = .ug ∨ w = .samtang ∨ w = .alang ∨ w = .imprentaGawas)
  | block (ht : t.bare = .sign "\x7b")
  | expression (ht : startsExpression t = true)

theorem startsStatement_of_spelled {s : Stmt} {used : List Token} (hwf : s.WellFormed)
    (hdeclare : s.isDeclare = false) (hused : used.map Token.bare = s.unparse) :
    ∃ t us, used = t :: us ∧ StartsStatement t := by
  cases s with
  | absent => simp [Stmt.WellFormed] at hwf
  | declare type name initial => cases hdeclare
  | print e =>
    obtain ⟨t, us, rfl, ht, -⟩ := List.map_eq_cons_iff.mp hused
    exact ⟨t, us, rfl, .word _ ht (by simp)⟩
  | expression e =>
    obtain ⟨us, after, rfl, hus, -⟩ := List.map_eq_append_iff.mp hused
    obtain ⟨t, us, rfl⟩ := exists_cons_of_spelled hwf hus
    exact ⟨t, us ++ after, rfl, .expression (startsExpression_of_spelled e hwf hus)⟩
  | block body =>
    obtain ⟨t, us, rfl, ht, -⟩ := List.map_eq_cons_iff.mp hused
    exact ⟨t, us, rfl, .block ht⟩
  | ifElse c consequent alternative =>
    obtain ⟨t, us, rfl, ht, -⟩ := List.map_eq_cons_iff.mp hused
    exact ⟨t, us, rfl, .word _ ht (by simp)⟩
  | whileLoop c body =>
    obtain ⟨t, us, rfl, ht, -⟩ := List.map_eq_cons_iff.mp hused
    exact ⟨t, us, rfl, .word _ ht (by simp)⟩
  | forLoop initial c increment body =>
    obtain ⟨t, us, rfl, ht, -⟩ := List.map_eq_cons_iff.mp hused
    exact ⟨t, us, rfl, .word _ ht (by simp)⟩

theorem StartsStatement.ne_edi {t : Token} (h : StartsStatement t) : t.bare ≠ .word .edi := by
  cases h with
  | word w ht hw =>
    rw [ht]
    rcases hw with rfl | rfl | rfl | rfl <;> decide
  | block ht => simp [ht, Lexeme.sign, Lexeme.word]
  | expression ht => exact bare_ne_word ht _

theorem StartsStatement.ne_close {t : Token} (h : StartsStatement t) :
    t.bare ≠ .sign "\x7d" := by
  cases h with
  | word w ht hw => simp [ht, Lexeme.sign, Lexeme.word]
  | block ht =>
    rw [ht]
    decide
  | expression ht => exact bare_ne_sign ht (by decide)

theorem StartsStatement.ne_semicolon {t : Token} (h : StartsStatement t) :
    t.bare ≠ .sign ";" := by
  cases h with
  | word w ht hw => simp [ht, Lexeme.sign, Lexeme.word]
  | block ht =>
    rw [ht]
    decide
  | expression ht => exact bare_ne_sign ht (by decide)

theorem StartsStatement.not_type {t : Token} (h : StartsStatement t) :
    (t.kind = .keyword && isTypeWord t.text) = false := by
  cases h with
  | word w ht hw =>
    obtain ⟨-, htext⟩ : t.kind = .keyword ∧ t.text = w.spelling := by
      simpa [Token.bare, Lexeme.word] using ht
    have hword : isTypeWord w.spelling = false := by rcases hw with rfl | rfl | rfl | rfl <;> decide
    rw [htext, hword, Bool.and_false]
  | block ht =>
    have hkind : t.kind = .punctuation := congrArg Prod.fst ht
    simp [hkind]
  | expression ht =>
    have hkind : t.kind ≠ .keyword := by
      intro hkind
      simp [startsExpression, hkind] at ht
    simp [hkind]

/-- A declaration begins with a type word. -/
theorem type_of_declare {type name : String} {initial : Expr} {t : Token}
    (hwf : (Stmt.declare type name initial).WellFormed) (ht : t.bare = (.keyword, type)) :
    (t.kind = .keyword && isTypeWord t.text) = true := by
  obtain ⟨hkind, htext⟩ : t.kind = .keyword ∧ t.text = type := by simpa [Token.bare] using ht
  rw [htext, hwf.1]
  simp [hkind]

theorem loopInitial_accepts {s : Stmt} {used : List Token} (rest : List Token)
    (hwf : s = .absent ∨ s.WellFormed ∧ s.isLoopInitial)
    (hused : used.map Token.bare = if s.isAbsent then [.sign ";"] else s.unparse) :
    loopInitial (used ++ rest) = .ok (s, rest) := by
  unfold loopInitial
  rcases hwf with rfl | ⟨hwf, hinitial⟩
  · obtain ⟨t, rfl, ht⟩ := eq_singleton_of_map_bare hused
    rw [List.singleton_append, seesSign_cons ht]
    rfl
  · cases s with
    | declare type name initial =>
      have hread := declaration_accepts rest hwf hused
      obtain ⟨t, us, rfl, ht, -⟩ := List.map_eq_cons_iff.mp hused
      rw [List.cons_append, seesSign_of_notAhead (notAhead_cons (by simp [ht, Lexeme.sign])),
        if_neg (by decide), seesType_cons, type_of_declare hwf ht]
      exact hread
    | expression e =>
      have hread := expressionStatement_accepts rest hwf hused
      obtain ⟨t, us, rfl, hstarts⟩ := startsStatement_of_spelled hwf rfl hused
      rw [List.cons_append, seesSign_of_notAhead (notAhead_cons hstarts.ne_semicolon),
        if_neg (by decide), seesType_cons, hstarts.not_type]
      exact hread
    | _ => simp [Stmt.isLoopInitial] at hinitial

theorem declarationOr_accepts {statement : Parser Stmt} {bound : Nat}
    (hstatement : AcceptsStmt statement bound) {s : Stmt} {used : List Token} (rest : List Token)
    (hwf : s.WellFormed) (hused : used.map Token.bare = s.unparse) (hlength : used.length < bound)
    (hopen : s.endsOpen = true → NotAhead (.word .edi) rest) :
    declarationOr statement (used ++ rest) = .ok (s, rest) := by
  unfold declarationOr
  cases hdeclare : s.isDeclare with
  | true =>
    cases s with
    | declare type name initial =>
      have hread := declaration_accepts rest hwf hused
      obtain ⟨t, us, rfl, ht, -⟩ := List.map_eq_cons_iff.mp hused
      rw [List.cons_append, seesType_cons, type_of_declare hwf ht]
      exact hread
    | _ => cases hdeclare
  | false =>
    have hread := hstatement s used rest hwf hdeclare hused hlength hopen
    obtain ⟨t, us, rfl, hstarts⟩ := startsStatement_of_spelled hwf hdeclare hused
    rw [List.cons_append, seesType_cons, hstarts.not_type]
    exact hread

/-- No statement and no declaration begins with `edi` or with the end of a block. -/
theorem begins_of_spelled {s : Stmt} {used : List Token} (hwf : s.WellFormed)
    (hused : used.map Token.bare = s.unparse) :
    ∃ t us, used = t :: us ∧ t.bare ≠ .word .edi ∧ t.bare ≠ .sign "\x7d" := by
  cases hdeclare : s.isDeclare with
  | true =>
    cases s with
    | declare type name initial =>
      obtain ⟨t, us, rfl, ht, -⟩ := List.map_eq_cons_iff.mp hused
      refine ⟨t, us, rfl, ?_, by simp [ht, Lexeme.sign]⟩
      intro hedi
      obtain rfl : type = Keyword.edi.spelling := by simpa [ht, Lexeme.word] using hedi
      exact absurd hwf.1 (by decide)
    | _ => cases hdeclare
  | false =>
    obtain ⟨t, us, rfl, hstarts⟩ := startsStatement_of_spelled hwf hdeclare hused
    exact ⟨t, us, rfl, hstarts.ne_edi, hstarts.ne_close⟩

theorem notAhead_edi {ss : List Stmt} {used rest : List Token} (hwf : Stmt.AllWellFormed ss)
    (hused : used.map Token.bare = Stmt.unparseAll ss) (hrest : NotAhead (.word .edi) rest) :
    NotAhead (.word .edi) (used ++ rest) := by
  cases ss with
  | nil =>
    obtain rfl := List.map_eq_nil_iff.mp hused
    exact hrest
  | cons s ss =>
    obtain ⟨us, after, rfl, hus, -⟩ := List.map_eq_append_iff.mp hused
    obtain ⟨t, us, rfl, hedi, -⟩ := begins_of_spelled hwf.1 hus
    exact notAhead_cons hedi

/-- A sequence of statements is read up to where `more` says that it ends. -/
theorem repeatWhile_accepts {statement : Parser Stmt} {bound : Nat}
    (hstatement : AcceptsStmt statement bound) (more : List Token → Bool)
    (hmore : ∀ t ts, t.bare ≠ .sign "\x7d" → more (t :: ts) = true) (ss : List Stmt) :
    ∀ (used rest : List Token) (rounds : Nat), Stmt.AllWellFormed ss →
      used.map Token.bare = Stmt.unparseAll ss → used.length < bound → used.length ≤ rounds →
      NotAhead (.word .edi) rest → more rest = false →
      repeatWhile more (declarationOr statement) rounds (used ++ rest) = .ok (ss, rest) := by
  induction ss with
  | nil =>
    intro used rest rounds _ hused _ _ _ hend
    obtain rfl := List.map_eq_nil_iff.mp hused
    cases rounds with
    | zero => rfl
    | succ rounds =>
      unfold repeatWhile
      rw [List.nil_append, bind_of_ok (get_run _), hend]
      rfl
  | cons s ss ih =>
    intro used rest rounds hwf hused hlength hrounds hedi hend
    obtain ⟨us, vs, rfl, hus, hvs⟩ := List.map_eq_append_iff.mp hused
    have hread := declarationOr_accepts hstatement (vs ++ rest) hwf.1 hus
      (by simp only [List.length_append] at hlength; omega)
      (fun _ => notAhead_edi hwf.2 hvs hedi)
    obtain ⟨t, us, rfl, -, hclose⟩ := begins_of_spelled hwf.1 hus
    simp only [List.length_append, List.length_cons] at hlength hrounds
    cases rounds with
    | zero => omega
    | succ rounds =>
      have hothers := ih vs rest rounds hwf.2 hvs (by omega) (by omega) hedi hend
      unfold repeatWhile
      rw [bind_of_ok (get_run _), List.append_assoc, List.cons_append, hmore _ _ hclose,
        if_pos rfl, ← List.cons_append, bind_of_ok hread, bind_of_ok hothers]
      rfl

theorem block_accepts {statement : Parser Stmt} {bound : Nat}
    (hstatement : AcceptsStmt statement bound) {body : List Stmt} {used : List Token}
    (rest : List Token) (hwf : Stmt.AllWellFormed body)
    (hused : used.map Token.bare = (Stmt.block body).unparse) (hlength : used.length ≤ bound) :
    block statement (used ++ rest) = .ok (.block body, rest) := by
  obtain ⟨opening, after, rfl, hopening, hafter⟩ := List.map_eq_cons_iff.mp hused
  obtain ⟨us, closing, rfl, hus, hclosing⟩ := List.map_eq_append_iff.mp hafter
  obtain ⟨close, rfl, hclose⟩ := eq_singleton_of_map_bare hclosing
  simp only [List.length_append, List.length_cons, List.length_nil] at hlength
  have hinside : ∀ t ts, t.bare ≠ .sign "\x7d" → insideBlock (t :: ts) = true := by
    intro t ts hne
    simp only [insideBlock, List.head?_cons, Option.any_some, Bool.not_eq_true']
    exact Bool.eq_false_iff.mpr fun hsign => hne (Token.isSign_iff.mp hsign)
  have hend : insideBlock (close :: rest) = false := by
    simp [insideBlock, Token.isSign_iff.mpr hclose]
  have hbody := repeatWhile_accepts hstatement _ hinside body us (close :: rest)
    (us ++ close :: rest).length hwf hus (by omega)
    (by simp only [List.length_append]; omega)
    (notAhead_cons (by simp [hclose, Lexeme.sign, Lexeme.word])) hend
  unfold block
  rw [List.cons_append, bind_of_ok (sign_cons hopening _ _), bind_of_ok (get_run _),
    List.append_assoc, List.singleton_append, bind_of_ok hbody, bind_of_ok (sign_cons hclose _ _)]
  rfl

theorem conditional_accepts {statement : Parser Stmt} {bound : Nat}
    (hstatement : AcceptsStmt statement bound) {c : Expr} {consequent alternative : Stmt}
    {used : List Token} (rest : List Token)
    (hwf : (Stmt.ifElse c consequent alternative).WellFormed)
    (hused : used.map Token.bare = (Stmt.ifElse c consequent alternative).unparse)
    (hlength : used.length ≤ bound)
    (hopen : (Stmt.ifElse c consequent alternative).endsOpen = true → NotAhead (.word .edi) rest) :
    conditional statement (used ++ rest) = .ok (.ifElse c consequent alternative, rest) := by
  obtain ⟨hwfc, hwf, hdeclare, halternative⟩ := hwf
  simp only [Stmt.unparse, List.cons_append, List.append_assoc] at hused
  obtain ⟨t, fromOpening, rfl, ht, hfromOpening⟩ := List.map_eq_cons_iff.mp hused
  obtain ⟨opening, inside, rfl, hopening, hinside⟩ := List.map_eq_cons_iff.mp hfromOpening
  obtain ⟨cs, fromClose, rfl, hcs, hfromClose⟩ := List.map_eq_append_iff.mp hinside
  obtain ⟨close, branches, rfl, hclose, hbranches⟩ := List.map_eq_cons_iff.mp hfromClose
  obtain ⟨us, after, rfl, hus, hafter⟩ := List.map_eq_append_iff.mp hbranches
  simp only [List.length_cons, List.length_append] at hlength
  have hcondition := condition_accepts .ug (us ++ (after ++ rest)) hwfc hopening hcs hclose
  unfold conditional
  simp only [List.cons_append, List.append_assoc]
  rw [skip_bind, List.tail_cons, bind_of_ok hcondition]
  rcases halternative with rfl | ⟨hwf', hdeclare', hclosed⟩
  · obtain rfl := List.map_eq_nil_iff.mp hafter
    have hconsequent := hstatement consequent us rest hwf hdeclare hus (by omega)
      (fun _ => hopen rfl)
    rw [List.nil_append, bind_of_ok hconsequent, seesWord_of_notAhead (hopen rfl)]
    rfl
  · simp only [hwf'.isAbsent, Bool.false_eq_true, if_false] at hafter
    obtain ⟨edi, vs, rfl, hedi, hvs⟩ := List.map_eq_cons_iff.mp hafter
    simp only [List.length_cons] at hlength
    have hconsequent := hstatement consequent us (edi :: (vs ++ rest)) hwf hdeclare hus (by omega)
      (fun hends => absurd (hclosed.symm.trans hends) (by decide))
    have hread := hstatement alternative vs rest hwf' hdeclare' hvs (by omega)
      (fun hends => hopen (by rw [Stmt.endsOpen_ifElse hwf'.isAbsent]; exact hends))
    rw [List.cons_append, bind_of_ok hconsequent, seesWord_cons hedi, if_pos rfl, skip_bind,
      List.tail_cons, bind_of_ok hread]
    rfl

theorem whileLoop_accepts {statement : Parser Stmt} {bound : Nat}
    (hstatement : AcceptsStmt statement bound) {c : Expr} {body : Stmt} {used : List Token}
    (rest : List Token) (hwf : (Stmt.whileLoop c body).WellFormed)
    (hused : used.map Token.bare = (Stmt.whileLoop c body).unparse) (hlength : used.length ≤ bound)
    (hopen : body.endsOpen = true → NotAhead (.word .edi) rest) :
    whileLoop statement (used ++ rest) = .ok (.whileLoop c body, rest) := by
  obtain ⟨hwfc, hwf, hdeclare⟩ := hwf
  obtain ⟨t, fromOpening, rfl, ht, hfromOpening⟩ := List.map_eq_cons_iff.mp hused
  obtain ⟨opening, inside, rfl, hopening, hinside⟩ := List.map_eq_cons_iff.mp hfromOpening
  obtain ⟨cs, fromClose, rfl, hcs, hfromClose⟩ := List.map_eq_append_iff.mp hinside
  obtain ⟨close, us, rfl, hclose, hus⟩ := List.map_eq_cons_iff.mp hfromClose
  simp only [List.length_cons, List.length_append] at hlength
  have hcondition := condition_accepts .samtang (us ++ rest) hwfc hopening hcs hclose
  have hbody := hstatement body us rest hwf hdeclare hus (by omega) hopen
  unfold whileLoop
  simp only [List.cons_append, List.append_assoc]
  rw [skip_bind, List.tail_cons, bind_of_ok hcondition, bind_of_ok hbody]
  rfl

theorem forLoop_accepts {statement : Parser Stmt} {bound : Nat}
    (hstatement : AcceptsStmt statement bound) {initial body : Stmt} {c increment : Expr}
    {used : List Token} (rest : List Token)
    (hwf : (Stmt.forLoop initial c increment body).WellFormed)
    (hused : used.map Token.bare = (Stmt.forLoop initial c increment body).unparse)
    (hlength : used.length ≤ bound)
    (hopen : body.endsOpen = true → NotAhead (.word .edi) rest) :
    forLoop statement (used ++ rest) = .ok (.forLoop initial c increment body, rest) := by
  obtain ⟨hwfi, hwfc, hwfn, hwf, hdeclare⟩ := hwf
  simp only [Stmt.unparse, List.append_assoc] at hused
  obtain ⟨t, fromOpening, rfl, ht, hfromOpening⟩ := List.map_eq_cons_iff.mp hused
  obtain ⟨opening, clauses, rfl, hopening, hclauses⟩ := List.map_eq_cons_iff.mp hfromOpening
  obtain ⟨is, afterInitial, rfl, his, hafterInitial⟩ := List.map_eq_append_iff.mp hclauses
  obtain ⟨cs, fromSign, rfl, hcs, hfromSign⟩ := List.map_eq_append_iff.mp hafterInitial
  obtain ⟨semicolon, afterSign, rfl, hsemicolon, hafterSign⟩ := List.map_eq_cons_iff.mp hfromSign
  obtain ⟨ns, fromClose, rfl, hns, hfromClose⟩ := List.map_eq_append_iff.mp hafterSign
  obtain ⟨close, us, rfl, hclose, hus⟩ := List.map_eq_cons_iff.mp hfromClose
  simp only [List.length_cons, List.length_append] at hlength
  have hbody := hstatement body us rest hwf hdeclare hus (by omega) hopen
  have hincrement := optionalBefore_accepts (us ++ rest) hwfn hns hclose (by decide)
    (stops_parenthesis hclose _)
  have hcondition := optionalBefore_accepts (ns ++ close :: (us ++ rest)) hwfc hcs hsemicolon
    (by decide) (stops_semicolon hsemicolon _)
  have hinitial := loopInitial_accepts (cs ++ semicolon :: (ns ++ close :: (us ++ rest))) hwfi his
  unfold forLoop
  simp only [List.cons_append, List.append_assoc]
  rw [skip_bind, List.tail_cons, bind_of_ok (sign_cons hopening _ _), bind_of_ok hinitial,
    bind_of_ok hcondition, bind_of_ok (sign_cons hsemicolon _ _), bind_of_ok hincrement,
    bind_of_ok (sign_cons hclose _ _), bind_of_ok hbody]
  rfl

/-- What begins with one word does not begin with another. -/
theorem notAhead_word {t : Token} {w other : Keyword} (ht : t.bare = .word w)
    (hne : w.spelling ≠ other.spelling) (ts : List Token) : NotAhead (.word other) (t :: ts) :=
  notAhead_cons (by simpa [ht, Lexeme.word] using hne)

theorem stmt_accepts (depth : Nat) : AcceptsStmt (stmt depth) depth := by
  induction depth with
  | zero =>
    intro s used rest _ _ _ hlength
    omega
  | succ depth ih =>
    intro s used rest hwf hdeclare hused hlength hopen
    unfold stmt
    cases s with
    | absent => simp [Stmt.WellFormed] at hwf
    | declare type name initial => cases hdeclare
    | ifElse c consequent alternative =>
      have hread := conditional_accepts ih rest hwf hused (by omega) hopen
      obtain ⟨t, us, rfl, ht, -⟩ := List.map_eq_cons_iff.mp hused
      rw [List.cons_append, seesWord_cons ht]
      exact hread
    | whileLoop c body =>
      have hread := whileLoop_accepts ih rest hwf hused (by omega) hopen
      obtain ⟨t, us, rfl, ht, -⟩ := List.map_eq_cons_iff.mp hused
      rw [List.cons_append, seesWord_of_notAhead (notAhead_word ht (by decide) _),
        if_neg (by decide), seesWord_cons ht]
      exact hread
    | forLoop initial c increment body =>
      have hread := forLoop_accepts ih rest hwf hused (by omega) hopen
      obtain ⟨t, us, rfl, ht, -⟩ := List.map_eq_cons_iff.mp hused
      rw [List.cons_append, seesWord_of_notAhead (notAhead_word ht (by decide) _),
        if_neg (by decide), seesWord_of_notAhead (notAhead_word ht (by decide) _),
        if_neg (by decide), seesWord_cons ht]
      exact hread
    | print e =>
      have hread := printStatement_accepts rest hwf hused
      obtain ⟨t, us, rfl, ht, -⟩ := List.map_eq_cons_iff.mp hused
      rw [List.cons_append, seesWord_of_notAhead (notAhead_word ht (by decide) _),
        if_neg (by decide), seesWord_of_notAhead (notAhead_word ht (by decide) _),
        if_neg (by decide), seesWord_of_notAhead (notAhead_word ht (by decide) _),
        if_neg (by decide), seesWord_cons ht]
      exact hread
    | block body =>
      have hread := block_accepts ih rest hwf hused (by omega)
      obtain ⟨t, us, rfl, ht, -⟩ := List.map_eq_cons_iff.mp hused
      have hword : ∀ w, NotAhead (.word w) (t :: (us ++ rest)) := fun w =>
        notAhead_cons (by simp [ht, Lexeme.sign, Lexeme.word])
      rw [List.cons_append, seesWord_of_notAhead (hword _), if_neg (by decide),
        seesWord_of_notAhead (hword _), if_neg (by decide), seesWord_of_notAhead (hword _),
        if_neg (by decide), seesWord_of_notAhead (hword _), if_neg (by decide), seesSign_cons ht]
      exact hread
    | expression e =>
      have hread := expressionStatement_accepts rest hwf hused
      obtain ⟨us, after, rfl, hus, -⟩ := List.map_eq_append_iff.mp hused
      obtain ⟨t, us, rfl⟩ := exists_cons_of_spelled hwf hus
      have ht := startsExpression_of_spelled e hwf hus
      have hword : ∀ w, NotAhead (.word w) (t :: (us ++ after ++ rest)) := fun w =>
        notAhead_cons (bare_ne_word ht w)
      simp only [List.cons_append] at hread ⊢
      rw [seesWord_of_notAhead (hword _), if_neg (by decide), seesWord_of_notAhead (hword _),
        if_neg (by decide), seesWord_of_notAhead (hword _), if_neg (by decide),
        seesWord_of_notAhead (hword _), if_neg (by decide),
        seesSign_of_notAhead (notAhead_cons (bare_ne_sign ht (by decide)))]
      exact hread

theorem statement_accepts (bound : Nat) :
    AcceptsStmt (fun ts => stmt (ts.length + 1) ts) bound := by
  intro s used rest hwf hdeclare hused _ hopen
  exact stmt_accepts _ s used rest hwf hdeclare hused (by simp only [List.length_append]; omega)
    hopen

theorem program_accepts {p : Program} {ts : List Token} (hwf : WellFormed p)
    (hts : ts.map Token.bare = unparse p) : program ts = .ok (p, []) := by
  have hread := repeatWhile_accepts (statement_accepts (ts.length + 1))
    (fun ahead => !ahead.isEmpty) (fun _ _ _ => rfl) p ts [] ts.length hwf hts (by omega)
    (Nat.le_refl _) (by simp [NotAhead]) rfl
  rwa [List.append_nil] at hread

end Parser

/-- A well-formed program is the answer on its own pieces. -/
theorem parse_of_spelled {p : Program} {ts : List Token} (hwf : WellFormed p)
    (hts : ts.map Token.bare = unparse p) : parse ts = .ok p := by
  unfold parse
  rw [Parser.program_accepts hwf hts]
  rfl

/-- The parser accepts exactly the grammar and loses nothing.  Where strings have their quotes, its
answers are the well-formed programs that the tokens spell; and on the pieces of a well-formed
program, wherever they stand, it answers with that program. -/
theorem parse_iff_spelled :
    (∀ (ts : List Token) (p : Program), (∀ t ∈ ts, t.HasQuotes) →
      (parse ts = .ok p ↔ WellFormed p ∧ unparse p = ts.map Token.bare)) ∧
    ∀ (ts : List Token) (p : Program), WellFormed p → ts.map Token.bare = unparse p →
      parse ts = .ok p := by
  refine ⟨?_, fun _ _ => parse_of_spelled⟩
  intro ts p hquotes
  constructor
  · intro h
    obtain ⟨hwf, used, hts, hspelled⟩ := parse_takes h
    rw [List.append_nil] at hts
    subst hts
    exact ⟨hwf, (Token.map_bare_of_spelledBy hspelled hquotes).symm⟩
  · rintro ⟨hwf, hts⟩
    exact parse_of_spelled hwf hts.symm

/-- The tokens `ug (a) ug (b) x = y = "s"; edi { tibuok n; alang (;;) -1 + 2 * 3; }` spell one
program, in which the alternative belongs to the inner conditional. -/
theorem parse_nested_conditional :
    let p : Program :=
      [.ifElse (.name "a")
        (.ifElse (.name "b")
          (.expression (.assign "x" (.assign "y" (.literal .string "s"))))
          (.block [.declare "tibuok" "n" .absent,
            .forLoop .absent .absent .absent
              (.expression (.binary .add (.unary .negate (.literal .int "1"))
                (.binary .multiply (.literal .int "2") (.literal .int "3"))))]))
        .absent]
    let ts : List Token := (unparse p).map fun l => ⟨l.1, l.2, some .start⟩
    (∀ t ∈ ts, t.HasQuotes) ∧ WellFormed p ∧ parse ts = .ok p ∧
      unparse p = ts.map Token.bare := by
  intro p ts
  have hquotes : ∀ t ∈ ts, t.HasQuotes := by decide
  have hwf : WellFormed p := by
    simp only [p, WellFormed, Stmt.AllWellFormed, Stmt.WellFormed, Stmt.isDeclare, Stmt.endsOpen,
      reduceCtorEq, true_or, false_or, and_true, true_and]
    decide
  have hparse : parse ts = .ok p := parse_iff_spelled.2 ts p hwf (by decide)
  exact ⟨hquotes, hwf, hparse, ((parse_iff_spelled.1 ts p hquotes).mp hparse).2⟩

end Binisaya
