import Binisaya.Proofs.Grammar.Reading

/-!
# What the parser accepts follows the grammar

Every tree that a parser answers with is well formed, and its pieces are the tokens that were taken,
in their order.  Each parser of an expression is described by `ReadsExpr`, with the least rank of
its answers; each parser of a statement by `ReadsStmt`.
-/

namespace Binisaya

namespace Parser

/-- A string with its quotes is read as what stands between them. -/
theorem eq_quoted_of_unquote {t : Token} {text : String} (hkind : t.kind = .string)
    (hquotes : t.HasQuotes) (h : unquote t.text = .ok text) : t.text = "\"" ++ text ++ "\"" := by
  obtain ⟨hsize, hhead, hlast⟩ := hquotes hkind
  have htext : t.text = String.ofList t.text.toList := (String.ofList_toList).symm
  unfold unquote at h
  generalize t.text.toList = cs at *
  cases cs with
  | nil => simp at hhead
  | cons first others =>
    obtain rfl : first = '"' := by simpa using hhead
    cases hothers : others.getLast? with
    | none =>
      obtain rfl : others = [] := List.getLast?_eq_none_iff.mp hothers
      rw [htext] at hsize
      exact absurd hsize (by decide)
    | some last =>
      obtain rfl : last = '"' := by simpa [List.getLast?_cons, hothers] using hlast
      simp only [hothers] at h
      rw [if_pos (by decide)] at h
      cases h
      have hsplit : others = others.dropLast ++ ['"'] := by
        obtain ⟨front, rfl⟩ := List.getLast?_eq_some_iff.mp hothers
        simp
      rw [htext, ← String.toList_inj]
      simpa using hsplit

/-- Answers of a parser for expressions are well formed and of at least the given rank, and their
pieces are what was taken. -/
def ReadsExpr (p : Parser Expr) (least : Nat) : Prop :=
  ∀ ts e rest, p ts = .ok (e, rest) → e.WellFormed ∧ least ≤ e.rank ∧ Takes ts rest e.unparse

theorem literal_reads : ReadsExpr literal 8 := by
  intro ts e rest h
  unfold literal at h
  rw [peek_bind] at h
  cases ts with
  | nil => exact absurd h (fail_ne_ok _ _ _)
  | cons t ts =>
    cases hkind : t.kind with
    | int =>
      simp only [List.head?_cons, hkind] at h
      cases hread : readInt 32 t.text with
      | ok n =>
        simp only [hread] at h
        cases h
        refine ⟨?_, Nat.le_refl _, Takes.one ?_ ts⟩
        · simp [Expr.WellFormed, Expr.LiteralAllowed, hread, Except.isOk, Except.toBool]
        · simp [Token.bare, hkind]
      | error reason =>
        simp only [hread] at h
        exact absurd h (fail_ne_ok _ _ _)
    | double =>
      simp only [List.head?_cons, hkind] at h
      cases h
      exact ⟨trivial, Nat.le_refl _, Takes.one (by simp [Token.bare, hkind]) ts⟩
    | boolean =>
      simp only [List.head?_cons, hkind] at h
      cases h
      exact ⟨trivial, Nat.le_refl _, Takes.one (by simp [Token.bare, hkind]) ts⟩
    | string =>
      simp only [List.head?_cons, hkind] at h
      cases hunquote : unquote t.text with
      | ok text =>
        simp only [hunquote] at h
        cases h
        refine ⟨trivial, Nat.le_refl _, [t], rfl, .cons ⟨hkind, fun hquotes => ?_⟩ .nil⟩
        rw [Token.bare, hkind, eq_quoted_of_unquote hkind hquotes hunquote]
      | error cause =>
        simp only [hunquote] at h
        cases h
    | unknown | keyword | punctuation | identifier | unnamed =>
      simp only [List.head?_cons, hkind] at h
      exact absurd h (fail_ne_ok _ _ _)

theorem primary_reads {inner : Parser Expr} (hinner : ReadsExpr inner 0) :
    ReadsExpr (primary inner) 8 := by
  intro ts e rest h
  unfold primary at h
  rw [peek_bind] at h
  cases ts with
  | nil => exact literal_reads _ _ _ h
  | cons t ts =>
    simp only [List.head?_cons] at h
    split at h
    · rename_i hsign
      rw [skip_bind] at h
      obtain ⟨e', mid, he, hclosing⟩ := bind_eq_ok h
      obtain ⟨u, mid', hsigned, hanswer⟩ := bind_eq_ok hclosing
      obtain ⟨close, rfl, hclose⟩ := sign_eq_ok hsigned
      cases hanswer
      obtain ⟨hwf, -, htakes⟩ := hinner _ _ _ he
      exact ⟨hwf, Nat.le_refl _, Takes.cons (Token.isSign_iff.mp hsign) (htakes.snoc hclose)⟩
    · split at h
      · rename_i hkind
        cases h
        exact ⟨trivial, Nat.le_refl _, Takes.one (by simp [Token.bare, hkind]) ts⟩
      · exact literal_reads _ _ _ h

theorem unaryOp?_eq_some {t : Token} {op : UnaryOp} (h : unaryOp? t = some op) :
    (op = .negate ∨ op = .not) ∧ t.bare = .sign op.symbol := by
  unfold unaryOp? at h
  split at h
  · cases h
    exact ⟨Or.inl rfl, Token.isSign_iff.mp ‹_›⟩
  · split at h
    · cases h
      exact ⟨Or.inr rfl, Token.isSign_iff.mp ‹_›⟩
    · cases h

theorem unary_reads {inner : Parser Expr} (hinner : ReadsExpr inner 0) :
    ReadsExpr (unary inner) 7 := by
  intro ts
  induction ts with
  | nil =>
    intro e rest h
    obtain ⟨hwf, hrank, htakes⟩ := primary_reads hinner _ _ _ h
    exact ⟨hwf, by omega, htakes⟩
  | cons t ts ih =>
    intro e rest h
    unfold unary at h
    split at h
    · rename_i op hop
      split at h
      · rename_i e' rest' he
        cases h
        obtain ⟨hop, ht⟩ := unaryOp?_eq_some hop
        obtain ⟨hwf, hrank, htakes⟩ := ih _ _ he
        exact ⟨⟨hop, hwf, hrank⟩, Nat.le_refl _, Takes.cons ht htakes⟩
      · cases h
    · obtain ⟨hwf, hrank, htakes⟩ := primary_reads hinner _ _ _ h
      exact ⟨hwf, by omega, htakes⟩

theorem binaryOp?_eq_some {ops : List BinaryOp} {t : Token} {op : BinaryOp}
    (h : binaryOp? ops t = some op) : op ∈ ops ∧ t.bare = .sign op.symbol :=
  ⟨List.mem_of_find?_eq_some h, Token.isSign_iff.mp (by simpa using List.find?_some h)⟩

/-- What a chain adds to an expression that was read before: the tokens from `start` on are then
the pieces of the whole. -/
theorem chainFrom_reads {operand : Parser Expr} {ops : List BinaryOp} {level : Nat}
    (hlevel : 0 < level) (hops : ∀ op ∈ ops, op.rank = level)
    (hoperand : ReadsExpr operand (level + 1)) (rounds : Nat) :
    ∀ (left : Expr) (start ts : List Token) (e : Expr) (rest : List Token),
      chainFrom operand ops rounds left ts = .ok (e, rest) →
      left.WellFormed → level ≤ left.rank → Takes start ts left.unparse →
      e.WellFormed ∧ level ≤ e.rank ∧ Takes start rest e.unparse := by
  induction rounds with
  | zero =>
    intro left start ts e rest h hwf hrank htakes
    cases h
    exact ⟨hwf, hrank, htakes⟩
  | succ rounds ih =>
    intro left start ts e rest h hwf hrank htakes
    unfold chainFrom at h
    rw [peek_bind] at h
    cases ts with
    | nil =>
      cases h
      exact ⟨hwf, hrank, htakes⟩
    | cons t ts =>
      cases hop : binaryOp? ops t with
      | none =>
        simp only [List.head?_cons, Option.bind_some, hop] at h
        cases h
        exact ⟨hwf, hrank, htakes⟩
      | some op =>
        simp only [List.head?_cons, Option.bind_some, hop] at h
        obtain ⟨hmem, ht⟩ := binaryOp?_eq_some hop
        have hoplevel := hops op hmem
        rw [skip_bind] at h
        obtain ⟨right, mid, hright, hafter⟩ := bind_eq_ok h
        obtain ⟨hwf', hrank', htakes'⟩ := hoperand _ _ _ hright
        exact ih _ start _ _ _ hafter ⟨by omega, hwf, hwf', by omega, by omega⟩
          (by simp [Expr.rank, hoplevel]) (htakes.trans (Takes.cons ht htakes'))

theorem chain_reads {operand : Parser Expr} (ops : List BinaryOp) (level : Nat)
    (hlevel : 0 < level) (hops : ∀ op ∈ ops, op.rank = level)
    (hoperand : ReadsExpr operand (level + 1)) : ReadsExpr (chain operand ops) level := by
  intro ts e rest h
  unfold chain at h
  obtain ⟨_, _, hget, h⟩ := bind_eq_ok h
  cases hget
  obtain ⟨first, mid, hfirst, h⟩ := bind_eq_ok h
  obtain ⟨hwf, hrank, htakes⟩ := hoperand _ _ _ hfirst
  exact chainFrom_reads hlevel hops hoperand _ _ _ _ _ _ h hwf (by omega) htakes

theorem operation_reads {inner : Parser Expr} (hinner : ReadsExpr inner 0) :
    ReadsExpr (operation inner) 1 := by
  have hproduct := chain_reads [.multiply, .divide] 6 (by decide) (by decide)
    (unary_reads hinner)
  have hsum := chain_reads [.add, .subtract] 5 (by decide) (by decide) hproduct
  have horder := chain_reads [.less, .lessEqual, .greater, .greaterEqual] 4
    (by decide) (by decide) hsum
  have hequality := chain_reads [.equal, .notEqual] 3 (by decide) (by decide)
    horder
  have hand := chain_reads [.and] 2 (by decide) (by decide) hequality
  exact chain_reads [.or] 1 (by decide) (by decide) hand

theorem assignment_reads {inner : Parser Expr} (hinner : ReadsExpr inner 0) :
    ReadsExpr (assignment inner) 0 := by
  intro ts e rest h
  unfold assignment at h
  obtain ⟨left, mid, hleft, h⟩ := bind_eq_ok h
  obtain ⟨hwf, -, htakes⟩ := operation_reads hinner _ _ _ hleft
  rw [seesSign_bind] at h
  split at h
  · rename_i hsees
    obtain ⟨t, mid, rfl, ht⟩ := exists_of_sees_sign hsees
    split at h
    · rename_i target
      rw [skip_bind] at h
      obtain ⟨value, mid', hvalue, h⟩ := bind_eq_ok h
      cases h
      obtain ⟨hwf', -, htakes'⟩ := hinner _ _ _ hvalue
      exact ⟨hwf', Nat.zero_le _, htakes.trans (Takes.cons ht htakes')⟩
    · exact absurd h (fail_ne_ok _ _ _)
  · cases h
    exact ⟨hwf, Nat.zero_le _, htakes⟩

theorem expr_reads (depth : Nat) : ReadsExpr (expr depth) 0 := by
  induction depth with
  | zero =>
    intro ts e rest h
    exact absurd h (fail_ne_ok _ _ _)
  | succ depth ih => exact assignment_reads ih

theorem expression_reads : ReadsExpr expression 0 := fun ts => expr_reads (ts.length + 1) ts

theorem optionalBefore_reads {text : String} {ts rest : List Token} {e : Expr}
    (h : optionalBefore text ts = .ok (e, rest)) :
    e.OptionalWellFormed ∧ Takes ts rest e.unparse := by
  unfold optionalBefore at h
  rw [seesSign_bind] at h
  split at h
  · cases h
    exact ⟨Or.inl rfl, Takes.refl ts⟩
  · obtain ⟨hwf, -, htakes⟩ := expression_reads _ _ _ h
    exact ⟨Or.inr hwf, htakes⟩

theorem expressionStatement_reads {ts rest : List Token} {s : Stmt}
    (h : expressionStatement ts = .ok (s, rest)) :
    ∃ e, s = .expression e ∧ e.WellFormed ∧ Takes ts rest s.unparse := by
  unfold expressionStatement at h
  obtain ⟨e, mid, he, hclosing⟩ := bind_eq_ok h
  obtain ⟨u, mid', hsigned, hanswer⟩ := bind_eq_ok hclosing
  obtain ⟨close, rfl, hclose⟩ := sign_eq_ok hsigned
  cases hanswer
  obtain ⟨hwf, -, htakes⟩ := expression_reads _ _ _ he
  exact ⟨e, rfl, hwf, htakes.snoc hclose⟩

theorem condition_reads {word : Keyword} {ts rest : List Token} {e : Expr}
    (h : condition word ts = .ok (e, rest)) :
    e.WellFormed ∧ Takes ts rest (.sign "(" :: (e.unparse ++ [.sign ")"])) := by
  unfold condition at h
  obtain ⟨u, mid, hopened, hinside⟩ := bind_eq_ok h
  obtain ⟨opening, rfl, hopening⟩ := sign_eq_ok hopened
  rw [peek_bind] at hinside
  split at hinside
  · obtain ⟨e', mid', he, hclosing⟩ := bind_eq_ok hinside
    obtain ⟨u', rest', hsigned, hanswer⟩ := bind_eq_ok hclosing
    obtain ⟨close, rfl, hclose⟩ := sign_eq_ok hsigned
    cases hanswer
    obtain ⟨hwf, -, htakes⟩ := expression_reads _ _ _ he
    exact ⟨hwf, Takes.cons hopening (htakes.snoc hclose)⟩
  · exact absurd hinside (fail_ne_ok _ _ _)

/-- A type word that is ahead is the first token. -/
theorem exists_of_sees_type {ts : List Token}
    (h : (ts.head?.any fun t => t.kind = .keyword && isTypeWord t.text) = true) :
    ∃ t rest, ts = t :: rest ∧ t.bare = (.keyword, t.text) ∧ isTypeWord t.text = true := by
  cases ts with
  | nil => simp at h
  | cons t rest =>
    simp only [List.head?_cons, Option.any_some, Bool.and_eq_true, decide_eq_true_eq] at h
    exact ⟨t, rest, rfl, by simp [Token.bare, h.1], h.2⟩

theorem declaration_reads {ts rest : List Token} {s : Stmt}
    (hsees : (ts.head?.any fun t => t.kind = .keyword && isTypeWord t.text) = true)
    (h : declaration ts = .ok (s, rest)) :
    ∃ type name initial, s = .declare type name initial ∧ s.WellFormed ∧
      Takes ts rest s.unparse := by
  obtain ⟨t, ts, rfl, ht, htype⟩ := exists_of_sees_type hsees
  unfold declaration at h
  rw [peek_bind] at h
  simp only [List.head?_cons, Option.map_some, Option.getD_some] at h
  rw [skip_bind] at h
  obtain ⟨name, mid, hnamed, hinitial⟩ := bind_eq_ok h
  obtain ⟨n, hts, hn⟩ := identifier_eq_ok hnamed
  rw [List.tail_cons] at hts
  subst hts
  rw [seesSign_bind] at hinitial
  split at hinitial
  · rename_i hseen
    obtain ⟨equals, after, rfl, hequals⟩ := exists_of_sees_sign hseen
    rw [skip_bind] at hinitial
    obtain ⟨e, beforeEnd, he, hclosing⟩ := bind_eq_ok hinitial
    obtain ⟨u, rest', hsigned, hanswer⟩ := bind_eq_ok hclosing
    obtain ⟨close, rfl, hclose⟩ := sign_eq_ok hsigned
    cases hanswer
    obtain ⟨hwf, -, htakes⟩ := expression_reads _ _ _ he
    refine ⟨_, _, _, rfl, ⟨htype, Or.inr hwf⟩, ?_⟩
    simp only [Stmt.unparse, Stmt.initialLexemes, hwf.isAbsent, Bool.false_eq_true, if_false]
    exact Takes.cons ht (Takes.cons hn (Takes.cons hequals (htakes.snoc hclose)))
  · obtain ⟨u, rest', hsigned, hanswer⟩ := bind_eq_ok hinitial
    obtain ⟨close, rfl, hclose⟩ := sign_eq_ok hsigned
    cases hanswer
    exact ⟨_, _, _, rfl, ⟨htype, Or.inl rfl⟩, Takes.cons ht (Takes.cons hn (Takes.one hclose _))⟩

theorem loopInitial_reads {ts rest : List Token} {s : Stmt}
    (h : loopInitial ts = .ok (s, rest)) :
    (s = .absent ∨ s.WellFormed ∧ s.isLoopInitial) ∧
      Takes ts rest (if s.isAbsent then [.sign ";"] else s.unparse) := by
  unfold loopInitial at h
  rw [seesSign_bind] at h
  split at h
  · rename_i hsees
    obtain ⟨t, mid, rfl, ht⟩ := exists_of_sees_sign hsees
    cases h
    exact ⟨Or.inl rfl, Takes.one ht mid⟩
  · rw [seesType_bind] at h
    split at h
    · rename_i hsees
      obtain ⟨type, name, initial, rfl, hwf, htakes⟩ := declaration_reads hsees h
      exact ⟨Or.inr ⟨hwf, rfl⟩, htakes⟩
    · obtain ⟨e, rfl, hwf, htakes⟩ := expressionStatement_reads h
      exact ⟨Or.inr ⟨hwf, rfl⟩, htakes⟩

/-- Answers of a parser for statements are well formed and not declarations, their pieces are what
was taken, and no `edi` is ahead that would belong to them. -/
def ReadsStmt (p : Parser Stmt) : Prop :=
  ∀ ts s rest, p ts = .ok (s, rest) →
    s.WellFormed ∧ s.isDeclare = false ∧ Takes ts rest s.unparse ∧
      (s.endsOpen = true → (rest.head?.any fun t => t.is .keyword Keyword.edi.spelling) = false)

theorem conditional_reads {statement : Parser Stmt} (hstatement : ReadsStmt statement)
    {t : Token} {ts rest : List Token} {s : Stmt} (ht : t.bare = .word .ug)
    (h : conditional statement (t :: ts) = .ok (s, rest)) :
    s.WellFormed ∧ s.isDeclare = false ∧ Takes (t :: ts) rest s.unparse ∧
      (s.endsOpen = true →
        (rest.head?.any fun t => t.is .keyword Keyword.edi.spelling) = false) := by
  unfold conditional at h
  rw [skip_bind] at h
  obtain ⟨c, mid, hcondition, hbranches⟩ := bind_eq_ok h
  obtain ⟨hwfc, htakesc⟩ := condition_reads hcondition
  obtain ⟨consequent, mid', hconsequent, halternative⟩ := bind_eq_ok hbranches
  obtain ⟨hwf, hdeclare, htakes, hopen⟩ := hstatement _ _ _ hconsequent
  have htaken := Takes.cons ht (htakesc.trans htakes)
  rw [seesWord_bind] at halternative
  split at halternative
  · rename_i hsees
    obtain ⟨edi, after, rfl, hedi⟩ := exists_of_sees_word hsees
    rw [skip_bind] at halternative
    obtain ⟨alternative, rest', hread, hanswer⟩ := bind_eq_ok halternative
    cases hanswer
    obtain ⟨hwf', hdeclare', htakes', hopen'⟩ := hstatement _ _ _ hread
    have hclosed : consequent.endsOpen = false := by
      cases hends : consequent.endsOpen with
      | false => rfl
      | true => exact absurd ((hopen hends).symm.trans hsees) (by decide)
    refine ⟨⟨hwfc, hwf, hdeclare, Or.inr ⟨hwf', hdeclare', hclosed⟩⟩, rfl, ?_, ?_⟩
    · simp only [Stmt.unparse, hwf'.isAbsent, Bool.false_eq_true, if_false]
      simpa using htaken.trans (Takes.cons hedi htakes')
    · intro hends
      rw [Stmt.endsOpen_ifElse hwf'.isAbsent] at hends
      exact hopen' hends
  · rename_i hsees
    cases halternative
    refine ⟨⟨hwfc, hwf, hdeclare, Or.inl rfl⟩, rfl, ?_, ?_⟩
    · simpa [Stmt.unparse, Stmt.isAbsent] using htaken
    · intro _
      simpa using hsees

theorem whileLoop_reads {statement : Parser Stmt} (hstatement : ReadsStmt statement)
    {t : Token} {ts rest : List Token} {s : Stmt} (ht : t.bare = .word .samtang)
    (h : whileLoop statement (t :: ts) = .ok (s, rest)) :
    s.WellFormed ∧ s.isDeclare = false ∧ Takes (t :: ts) rest s.unparse ∧
      (s.endsOpen = true →
        (rest.head?.any fun t => t.is .keyword Keyword.edi.spelling) = false) := by
  unfold whileLoop at h
  rw [skip_bind] at h
  obtain ⟨c, mid, hcondition, hbody⟩ := bind_eq_ok h
  obtain ⟨hwfc, htakesc⟩ := condition_reads hcondition
  obtain ⟨body, rest', hread, hanswer⟩ := bind_eq_ok hbody
  cases hanswer
  obtain ⟨hwf, hdeclare, htakes, hopen⟩ := hstatement _ _ _ hread
  refine ⟨⟨hwfc, hwf, hdeclare⟩, rfl, ?_, hopen⟩
  simpa [Stmt.unparse] using Takes.cons ht (htakesc.trans htakes)

theorem forLoop_reads {statement : Parser Stmt} (hstatement : ReadsStmt statement)
    {t : Token} {ts rest : List Token} {s : Stmt} (ht : t.bare = .word .alang)
    (h : forLoop statement (t :: ts) = .ok (s, rest)) :
    s.WellFormed ∧ s.isDeclare = false ∧ Takes (t :: ts) rest s.unparse ∧
      (s.endsOpen = true →
        (rest.head?.any fun t => t.is .keyword Keyword.edi.spelling) = false) := by
  unfold forLoop at h
  rw [skip_bind] at h
  obtain ⟨u, afterOpening, hopened, hclauses⟩ := bind_eq_ok h
  obtain ⟨opening, hts, hopening⟩ := sign_eq_ok hopened
  rw [List.tail_cons] at hts
  subst hts
  obtain ⟨initial, afterInitial, hinitial, hfromCondition⟩ := bind_eq_ok hclauses
  obtain ⟨hwfi, htakesi⟩ := loopInitial_reads hinitial
  obtain ⟨c, afterCondition, hcondition, hfromSign⟩ := bind_eq_ok hfromCondition
  obtain ⟨hwfc, htakesc⟩ := optionalBefore_reads hcondition
  obtain ⟨u', afterSign, hsigned, hfromIncrement⟩ := bind_eq_ok hfromSign
  obtain ⟨semicolon, rfl, hsemicolon⟩ := sign_eq_ok hsigned
  obtain ⟨increment, afterIncrement, hincrement, hfromClose⟩ := bind_eq_ok hfromIncrement
  obtain ⟨hwfn, htakesn⟩ := optionalBefore_reads hincrement
  obtain ⟨u'', afterClose, hclosed, hfromBody⟩ := bind_eq_ok hfromClose
  obtain ⟨close, rfl, hclose⟩ := sign_eq_ok hclosed
  obtain ⟨body, rest', hread, hanswer⟩ := bind_eq_ok hfromBody
  cases hanswer
  obtain ⟨hwf, hdeclare, htakes, hopen⟩ := hstatement _ _ _ hread
  refine ⟨⟨hwfi, hwfc, hwfn, hwf, hdeclare⟩, rfl, ?_, hopen⟩
  have hclauses := (htakesi.trans htakesc).trans
    (Takes.cons hsemicolon (htakesn.trans (Takes.cons hclose htakes)))
  exact Takes.cons ht (Takes.cons hopening hclauses)

theorem printStatement_reads {t : Token} {ts rest : List Token} {s : Stmt}
    (ht : t.bare = .word .imprentaGawas) (h : printStatement (t :: ts) = .ok (s, rest)) :
    ∃ e, s = .print e ∧ e.WellFormed ∧ Takes (t :: ts) rest s.unparse := by
  unfold printStatement at h
  rw [skip_bind] at h
  obtain ⟨e, mid, he, hclosing⟩ := bind_eq_ok h
  obtain ⟨u, mid', hsigned, hanswer⟩ := bind_eq_ok hclosing
  obtain ⟨close, rfl, hclose⟩ := sign_eq_ok hsigned
  cases hanswer
  obtain ⟨hwf, -, htakes⟩ := expression_reads _ _ _ he
  exact ⟨e, rfl, hwf, Takes.cons ht (htakes.snoc hclose)⟩

theorem declarationOr_reads {statement : Parser Stmt} (hstatement : ReadsStmt statement)
    {ts rest : List Token} {s : Stmt} (h : declarationOr statement ts = .ok (s, rest)) :
    s.WellFormed ∧ Takes ts rest s.unparse := by
  unfold declarationOr at h
  rw [seesType_bind] at h
  split at h
  · rename_i hsees
    obtain ⟨_, _, _, -, hwf, htakes⟩ := declaration_reads hsees h
    exact ⟨hwf, htakes⟩
  · obtain ⟨hwf, -, htakes, -⟩ := hstatement _ _ _ h
    exact ⟨hwf, htakes⟩

theorem repeatWhile_reads {statement : Parser Stmt} (hstatement : ReadsStmt statement)
    (more : List Token → Bool) (rounds : Nat) :
    ∀ (ts : List Token) (ss : List Stmt) (rest : List Token),
      repeatWhile more (declarationOr statement) rounds ts = .ok (ss, rest) →
      Stmt.AllWellFormed ss ∧ Takes ts rest (Stmt.unparseAll ss) := by
  induction rounds with
  | zero =>
    intro ts ss rest h
    cases h
    exact ⟨trivial, Takes.refl ts⟩
  | succ rounds ih =>
    intro ts ss rest h
    unfold repeatWhile at h
    obtain ⟨_, _, hget, h⟩ := bind_eq_ok h
    cases hget
    split at h
    · obtain ⟨first, mid, hfirst, hothers⟩ := bind_eq_ok h
      obtain ⟨others, rest', hread, hanswer⟩ := bind_eq_ok hothers
      cases hanswer
      obtain ⟨hwf, htakes⟩ := declarationOr_reads hstatement hfirst
      obtain ⟨hwf', htakes'⟩ := ih _ _ _ hread
      exact ⟨⟨hwf, hwf'⟩, htakes.trans htakes'⟩
    · cases h
      exact ⟨trivial, Takes.refl ts⟩

theorem block_reads {statement : Parser Stmt} (hstatement : ReadsStmt statement)
    {ts rest : List Token} {s : Stmt} (h : block statement ts = .ok (s, rest)) :
    ∃ body, s = .block body ∧ s.WellFormed ∧ Takes ts rest s.unparse := by
  unfold block at h
  obtain ⟨u, mid, hopened, hinside⟩ := bind_eq_ok h
  obtain ⟨opening, rfl, hopening⟩ := sign_eq_ok hopened
  obtain ⟨_, _, hget, hbody⟩ := bind_eq_ok hinside
  cases hget
  obtain ⟨body, mid', hread, hclosing⟩ := bind_eq_ok hbody
  obtain ⟨u', rest', hsigned, hanswer⟩ := bind_eq_ok hclosing
  obtain ⟨close, rfl, hclose⟩ := sign_eq_ok hsigned
  cases hanswer
  obtain ⟨hwf, htakes⟩ := repeatWhile_reads hstatement _ _ _ _ _ hread
  exact ⟨body, rfl, hwf, Takes.cons hopening (htakes.snoc hclose)⟩

theorem stmt_reads (depth : Nat) : ReadsStmt (stmt depth) := by
  induction depth with
  | zero =>
    intro ts s rest h
    exact absurd h (fail_ne_ok _ _ _)
  | succ depth ih =>
    intro ts s rest h
    unfold stmt at h
    rw [seesWord_bind] at h
    split at h
    · rename_i hsees
      obtain ⟨t, ts, rfl, ht⟩ := exists_of_sees_word hsees
      exact conditional_reads ih ht h
    rw [seesWord_bind] at h
    split at h
    · rename_i hsees
      obtain ⟨t, ts, rfl, ht⟩ := exists_of_sees_word hsees
      exact whileLoop_reads ih ht h
    rw [seesWord_bind] at h
    split at h
    · rename_i hsees
      obtain ⟨t, ts, rfl, ht⟩ := exists_of_sees_word hsees
      exact forLoop_reads ih ht h
    rw [seesWord_bind] at h
    split at h
    · rename_i hsees
      obtain ⟨t, ts, rfl, ht⟩ := exists_of_sees_word hsees
      obtain ⟨e, rfl, hwf, htakes⟩ := printStatement_reads ht h
      exact ⟨hwf, rfl, htakes, nofun⟩
    rw [seesSign_bind] at h
    split at h
    · obtain ⟨body, rfl, hwf, htakes⟩ := block_reads ih h
      exact ⟨hwf, rfl, htakes, nofun⟩
    · obtain ⟨e, rfl, hwf, htakes⟩ := expressionStatement_reads h
      exact ⟨hwf, rfl, htakes, nofun⟩

theorem statement_reads : ReadsStmt statement := fun ts => stmt_reads (ts.length + 1) ts

/-- A program goes on to the end of the tokens: every statement takes one, so there are rounds
enough. -/
theorem repeatWhile_rest {statement : Parser Stmt} (hstatement : ReadsStmt statement)
    (rounds : Nat) :
    ∀ (ts : List Token) (ss : List Stmt) (rest : List Token),
      repeatWhile (fun ahead => !ahead.isEmpty) (declarationOr statement) rounds ts =
        .ok (ss, rest) →
      ts.length ≤ rounds → rest = [] := by
  induction rounds with
  | zero =>
    intro ts ss rest h hlength
    cases h
    exact List.eq_nil_of_length_eq_zero (by omega)
  | succ rounds ih =>
    intro ts ss rest h hlength
    unfold repeatWhile at h
    obtain ⟨_, _, hget, h⟩ := bind_eq_ok h
    cases hget
    split at h
    · obtain ⟨first, mid, hfirst, hothers⟩ := bind_eq_ok h
      obtain ⟨others, rest', hread, hanswer⟩ := bind_eq_ok hothers
      cases hanswer
      obtain ⟨hwf, htakes⟩ := declarationOr_reads hstatement hfirst
      have := htakes.length
      have := hwf.length_pos
      exact ih _ _ _ hread (by omega)
    · rename_i hmore
      cases h
      simpa using hmore

end Parser

/-- What the parser accepts is a program of the grammar, spelled by the tokens. -/
theorem parse_takes {ts : List Token} {p : Program} (h : parse ts = .ok p) :
    WellFormed p ∧ Takes ts [] (unparse p) := by
  unfold parse at h
  cases hread : Parser.program ts with
  | error stop =>
    rw [hread] at h
    cases h
  | ok x =>
    obtain ⟨ss, rest⟩ := x
    rw [hread] at h
    cases h
    obtain ⟨hwf, htakes⟩ := Parser.repeatWhile_reads Parser.statement_reads _ _ _ _ _ hread
    obtain rfl := Parser.repeatWhile_rest Parser.statement_reads _ _ _ _ hread (Nat.le_refl _)
    exact ⟨hwf, htakes⟩

theorem parse_wellFormed {ts : List Token} {p : Program} (h : parse ts = .ok p) :
    WellFormed p :=
  (parse_takes h).1

end Binisaya
