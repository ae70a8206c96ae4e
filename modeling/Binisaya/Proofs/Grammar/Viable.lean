import Binisaya.Proofs.Grammar.Completeness
import Binisaya.Proofs.Grammar.Lookahead

/-!
# Where parsing stops

A parser that stops has so far taken the beginning of something that the grammar has.  `Guides good
ts r` says this of the result `r` of a parser on `ts`, where `good` are the pieces that the parser
could have taken.  As a parser looks at one token only, nothing that begins with the tokens up to and
including the one at which it stopped can be read.
-/

namespace Binisaya

namespace Parser

variable {α β : Type}

/-- Where a parser stops, what it took can be continued to pieces that it accepts, and it says what
is missing. -/
structure Guides (good : List Lexeme → Prop) (ts : List Token)
    (result : Except Stop (α × List Token)) : Prop where
  viable : ∃ more, good more
  stops : (∀ t ∈ ts, t.HasQuotes) → ∀ s, result = .error s →
    ∃ used what more, ts = used ++ s.rest ∧ s.cause = .expected what ∧
      good (used.map Token.bare ++ more)

namespace Guides

variable {good : List Lexeme → Prop} {ts : List Token}

theorem ok {x : α × List Token} (h : ∃ more, good more) : Guides good ts (.ok x) :=
  ⟨h, fun _ _ => nofun⟩

theorem fail (what : Expectation) (h : ∃ more, good more) :
    Guides good ts (fail what ts : Except Stop (α × List Token)) := by
  refine ⟨h, ?_⟩
  rintro - s hs
  cases hs
  obtain ⟨more, hmore⟩ := h
  exact ⟨[], what, more, rfl, rfl, hmore⟩

theorem mono {good' : List Lexeme → Prop} {r : Except Stop (α × List Token)}
    (h : Guides good ts r) (himp : ∀ l, good l → good' l) : Guides good' ts r := by
  refine ⟨h.viable.imp fun l hl => himp l hl, ?_⟩
  intro hquotes s hs
  obtain ⟨used, what, more, hts, hcause, hgood⟩ := h.stops hquotes s hs
  exact ⟨used, what, more, hts, hcause, himp _ hgood⟩

/-- A token that has been taken is one piece more. -/
theorem take {t : Token} {piece : Lexeme} {r : Except Stop (α × List Token)} (ht : t.bare = piece)
    (h : Guides (fun l => good (piece :: l)) ts r) : Guides good (t :: ts) r := by
  obtain ⟨more, hmore⟩ := h.viable
  refine ⟨⟨_, hmore⟩, ?_⟩
  intro hquotes s hs
  obtain ⟨used, what, more', rfl, hcause, hgood⟩ :=
    h.stops (fun u hu => hquotes u (List.mem_cons_of_mem t hu)) s hs
  exact ⟨t :: used, what, more', rfl, hcause, by simpa [ht] using hgood⟩

/-- Where the first of two parsers stops, what it could have taken must allow the second to go on;
where the second stops, the pieces of the first come before its own. -/
theorem bind {p : Parser α} {f : α → Parser β} {first : List Lexeme → Prop}
    (hp : Guides first ts (p ts)) (hfirst : ∀ l, first l → ∃ more, good (l ++ more))
    (hf : ∀ a mid, p ts = .ok (a, mid) →
      ∃ pieces, Takes ts mid pieces ∧ Guides (fun l => good (pieces ++ l)) mid (f a mid)) :
    Guides good ts ((p >>= f) ts) := by
  constructor
  · obtain ⟨l, hl⟩ := hp.viable
    obtain ⟨more, hmore⟩ := hfirst l hl
    exact ⟨_, hmore⟩
  · intro hquotes s hs
    rw [bind_run] at hs
    cases hpts : p ts with
    | error s' =>
      rw [hpts] at hs
      cases hs
      obtain ⟨used, what, more, hts, hcause, hused⟩ := hp.stops hquotes s hpts
      obtain ⟨more', hmore⟩ := hfirst _ hused
      exact ⟨used, what, more ++ more', hts, hcause, by simpa using hmore⟩
    | ok x =>
      obtain ⟨a, mid⟩ := x
      rw [hpts] at hs
      obtain ⟨pieces, ⟨taken, rfl, hspelled⟩, hrest⟩ := hf a mid hpts
      obtain ⟨used, what, more, rfl, hcause, hgood⟩ :=
        hrest.stops (fun t ht => hquotes t (List.mem_append_right taken ht)) s hs
      refine ⟨taken ++ used, what, more, by simp, hcause, ?_⟩
      have htaken := Token.map_bare_of_spelledBy hspelled
        fun t ht => hquotes t (List.mem_append_left _ ht)
      simpa [htaken] using hgood

theorem bind_sign {text : String} {what : Expectation} {f : Unit → Parser α}
    (h : ∀ mid, Guides (fun l => good (.sign text :: l)) mid (f () mid)) :
    Guides good ts ((sign text what >>= f) ts) := by
  have hsign : Guides (fun l => l = [.sign text]) ts (sign text what ts) := by
    unfold sign
    rw [seesSign_bind]
    split
    · exact ok ⟨_, rfl⟩
    · exact fail what ⟨_, rfl⟩
  refine hsign.bind ?_ ?_
  · rintro l rfl
    exact (h []).viable
  · intro u mid hmid
    obtain ⟨t, rfl, ht⟩ := sign_eq_ok hmid
    exact ⟨_, .one ht mid, h mid⟩

end Guides

/-- The pieces of an expression of at least the given rank. -/
def Spells (least : Nat) (l : List Lexeme) : Prop :=
  ∃ e : Expr, e.WellFormed ∧ least ≤ e.rank ∧ e.unparse = l

/-- A parser of expressions of at least the given rank stops where such an expression could go on. -/
def GuidesExpr (p : Parser Expr) (least : Nat) : Prop := ∀ ts, Guides (Spells least) ts (p ts)

theorem Spells.name {least : Nat} (h : least ≤ 8) (n : String) :
    Spells least [(.identifier, n)] :=
  ⟨.name n, trivial, h, rfl⟩

theorem Spells.mono {least least' : Nat} (h : least' ≤ least) (l : List Lexeme)
    (hl : Spells least l) : Spells least' l := by
  obtain ⟨e, hwf, hrank, rfl⟩ := hl
  exact ⟨e, hwf, by omega, rfl⟩

theorem Guides.bind_expr {p : Parser Expr} {least : Nat} (hp : GuidesExpr p least)
    (hreads : ReadsExpr p least) {good : List Lexeme → Prop} {ts : List Token}
    {f : Expr → Parser α}
    (h : ∀ e mid, e.WellFormed → least ≤ e.rank →
      Guides (fun l => good (e.unparse ++ l)) mid (f e mid)) :
    Guides good ts ((p >>= f) ts) := by
  refine (hp ts).bind ?_ ?_
  · rintro l ⟨e, hwf, hrank, rfl⟩
    exact (h e [] hwf hrank).viable
  · intro e mid hmid
    obtain ⟨hwf, hrank, htakes⟩ := hreads ts e mid hmid
    exact ⟨_, htakes, h e mid hwf hrank⟩

/-- A string of two bytes or more has room for its quotes. -/
theorem unquote_of_two_bytes {text : String} (h : 2 ≤ text.utf8ByteSize) :
    ∃ inside, unquote text = .ok inside := by
  have htext : text = String.ofList text.toList := (String.ofList_toList).symm
  unfold unquote
  generalize text.toList = cs at *
  cases cs with
  | nil =>
    rw [htext] at h
    exact absurd h (by decide)
  | cons first others =>
    cases hlast : others.getLast? with
    | none =>
      obtain rfl : others = [] := List.getLast?_eq_none_iff.mp hlast
      have hsize : first.utf8Size ≠ 1 := by
        intro hone
        rw [htext] at h
        simp [hone] at h
      simp [hsize]
    | some last =>
      simp only [hlast]
      split
      · exact ⟨_, rfl⟩
      · exact ⟨_, rfl⟩

theorem literal_guides : GuidesExpr literal 8 := by
  intro ts
  have hname := Spells.name (Nat.le_refl 8) "x"
  unfold literal
  rw [peek_bind]
  cases ts with
  | nil => exact .fail _ ⟨_, hname⟩
  | cons t ts =>
    simp only [List.head?_cons]
    cases hkind : t.kind with
    | int =>
      simp only
      cases readInt 32 t.text with
      | ok n => exact .ok ⟨_, hname⟩
      | error reason => exact .fail _ ⟨_, hname⟩
    | double | boolean => exact .ok ⟨_, hname⟩
    | string =>
      simp only
      cases hunquote : unquote t.text with
      | ok text => exact .ok ⟨_, hname⟩
      | error cause =>
        -- a string with its quotes is long enough to lose them
        refine ⟨⟨_, hname⟩, ?_⟩
        intro hquotes
        obtain ⟨inside, hinside⟩ :=
          unquote_of_two_bytes (hquotes t List.mem_cons_self hkind).1
        rw [hunquote] at hinside
        cases hinside
    | unknown | keyword | punctuation | identifier | unnamed => exact .fail _ ⟨_, hname⟩

variable {inner : Parser Expr}

theorem primary_guides (hinner : GuidesExpr inner 0) (hreads : ReadsExpr inner 0) :
    GuidesExpr (primary inner) 8 := by
  intro ts
  unfold primary
  rw [peek_bind]
  cases ts with
  | nil => exact literal_guides []
  | cons t ts =>
    simp only [List.head?_cons]
    split
    · rename_i hsign
      rw [skip_bind]
      refine .take (Token.isSign_iff.mp hsign) (.bind_expr hinner hreads ?_)
      intro e mid hwf _
      refine .bind_sign fun mid' => .ok ⟨[], ?_⟩
      exact ⟨.group e, hwf, Nat.le_refl _, by simp [Expr.unparse]⟩
    · split
      · exact .ok ⟨_, Spells.name (Nat.le_refl 8) "x"⟩
      · exact literal_guides (t :: ts)

theorem unary_guides (hinner : GuidesExpr inner 0) (hreads : ReadsExpr inner 0) :
    GuidesExpr (unary inner) 7 := by
  intro ts
  induction ts with
  | nil => exact (primary_guides hinner hreads []).mono (Spells.mono (by omega))
  | cons t ts ih =>
    rw [unary_run, peek_bind]
    simp only [List.head?_cons, Option.bind_some]
    cases hop : unaryOp? t with
    | none => exact (primary_guides hinner hreads (t :: ts)).mono (Spells.mono (by omega))
    | some op =>
      obtain ⟨hop, ht⟩ := unaryOp?_eq_some hop
      dsimp only
      rw [skip_bind]
      refine .take ht (.bind ih ?_ ?_)
      · rintro l ⟨e, hwf, hrank, rfl⟩
        exact ⟨[], .unary op e, ⟨hop, hwf, hrank⟩, Nat.le_refl _, by simp [Expr.unparse]⟩
      · intro e mid hmid
        obtain ⟨hwf, hrank, htakes⟩ := unary_reads hreads _ _ _ hmid
        exact ⟨_, htakes, .ok ⟨[], .unary op e, ⟨hop, hwf, hrank⟩, Nat.le_refl _,
          by simp [Expr.unparse]⟩⟩

theorem chainFrom_guides {operand : Parser Expr} {ops : List BinaryOp} {level : Nat}
    (hlevel : 0 < level) (hops : ∀ op ∈ ops, op.rank = level)
    (hoperand : GuidesExpr operand (level + 1)) (hreads : ReadsExpr operand (level + 1))
    (rounds : Nat) :
    ∀ (left : Expr) (ts : List Token), left.WellFormed → level ≤ left.rank →
      Guides (fun l => Spells level (left.unparse ++ l)) ts
        (chainFrom operand ops rounds left ts) := by
  induction rounds with
  | zero =>
    intro left ts hwf hrank
    exact .ok ⟨[], left, hwf, hrank, by simp⟩
  | succ rounds ih =>
    intro left ts hwf hrank
    have hdone : ∃ more, Spells level (left.unparse ++ more) := ⟨[], left, hwf, hrank, by simp⟩
    unfold chainFrom
    rw [peek_bind]
    cases ts with
    | nil => exact .ok hdone
    | cons t ts =>
      simp only [List.head?_cons, Option.bind_some]
      cases hop : binaryOp? ops t with
      | none => exact .ok hdone
      | some op =>
        obtain ⟨hmem, ht⟩ := binaryOp?_eq_some hop
        have hoplevel := hops op hmem
        dsimp only
        rw [skip_bind]
        refine .take ht (.bind_expr hoperand hreads ?_)
        intro right mid hwf' hrank'
        have hnext := ih (.binary op left right) mid ⟨by omega, hwf, hwf', by omega, by omega⟩
          (by simp [Expr.rank, hoplevel])
        simpa [Expr.unparse] using hnext

theorem chain_guides {operand : Parser Expr} (ops : List BinaryOp) (level : Nat)
    (hlevel : 0 < level) (hops : ∀ op ∈ ops, op.rank = level)
    (hoperand : GuidesExpr operand (level + 1)) (hreads : ReadsExpr operand (level + 1)) :
    GuidesExpr (chain operand ops) level := by
  intro ts
  unfold chain
  rw [bind_of_ok (get_run ts)]
  refine .bind_expr hoperand hreads ?_
  intro first mid hwf hrank
  exact chainFrom_guides hlevel hops hoperand hreads _ first mid hwf (by omega)

theorem operation_guides (hinner : GuidesExpr inner 0) (hreads : ReadsExpr inner 0) :
    GuidesExpr (operation inner) 1 := by
  have hlevel : ∀ (ops : List BinaryOp) (level : Nat) (operand : Parser Expr), 0 < level →
      (∀ op ∈ ops, op.rank = level) →
      GuidesExpr operand (level + 1) ∧ ReadsExpr operand (level + 1) →
      GuidesExpr (chain operand ops) level ∧ ReadsExpr (chain operand ops) level :=
    fun ops level operand hpos hops h =>
      ⟨chain_guides ops level hpos hops h.1 h.2, chain_reads ops level hpos hops h.2⟩
  have hunary := And.intro (unary_guides hinner hreads) (unary_reads hreads)
  have hproduct := hlevel [.multiply, .divide] 6 _ (by decide) (by decide) hunary
  have hsum := hlevel [.add, .subtract] 5 _ (by decide) (by decide) hproduct
  have horder := hlevel [.less, .lessEqual, .greater, .greaterEqual] 4 _ (by decide) (by decide)
    hsum
  have hequality := hlevel [.equal, .notEqual] 3 _ (by decide) (by decide) horder
  have hand := hlevel [.and] 2 _ (by decide) (by decide) hequality
  exact (hlevel [.or] 1 _ (by decide) (by decide) hand).1

/-- Only a name can stand left of an assignment, so at an equals sign behind anything else the
expression was complete. -/
theorem assignment_guides (hinner : GuidesExpr inner 0) (hreads : ReadsExpr inner 0) :
    GuidesExpr (assignment inner) 0 := by
  intro ts
  unfold assignment
  refine .bind_expr (operation_guides hinner hreads) (operation_reads hreads) ?_
  intro left mid hwf _
  have hdone : ∃ more, Spells 0 (left.unparse ++ more) :=
    ⟨[], left, hwf, Nat.zero_le _, by simp⟩
  rw [seesSign_bind]
  split
  · rename_i hsees
    obtain ⟨t, mid, rfl, ht⟩ := exists_of_sees_sign hsees
    cases left with
    | name target =>
      dsimp only
      rw [skip_bind]
      refine .take ht (.bind_expr hinner hreads ?_)
      intro value mid' hwf' _
      exact .ok ⟨[], .assign target value, hwf', Nat.zero_le _, by simp [Expr.unparse]⟩
    | _ => exact .fail _ hdone
  · exact .ok hdone

theorem expr_guides (depth : Nat) : GuidesExpr (expr depth) 0 := by
  induction depth with
  | zero => exact fun ts => .fail _ ⟨_, Spells.name (by omega) "x"⟩
  | succ depth ih => exact assignment_guides ih (expr_reads depth)

theorem expression_guides : GuidesExpr expression 0 := fun ts => expr_guides (ts.length + 1) ts

theorem Guides.bind_expression {good : List Lexeme → Prop} {ts : List Token} {f : Expr → Parser α}
    (h : ∀ e mid, e.WellFormed → Guides (fun l => good (e.unparse ++ l)) mid (f e mid)) :
    Guides good ts ((expression >>= f) ts) :=
  .bind_expr expression_guides expression_reads fun e mid hwf _ => h e mid hwf

/-- The pieces of the condition after a control word. -/
def SpellsCondition (l : List Lexeme) : Prop :=
  ∃ c : Expr, c.WellFormed ∧ .sign "(" :: (c.unparse ++ [.sign ")"]) = l

theorem condition_guides (word : Keyword) (ts : List Token) :
    Guides SpellsCondition ts (condition word ts) := by
  unfold condition
  refine .bind_sign fun mid => ?_
  rw [peek_bind]
  split
  · refine .bind_expression fun c mid' hwf => .bind_sign fun mid'' => .ok ⟨[], c, hwf, ?_⟩
    simp
  · exact .fail _ ⟨_, .name "x", trivial, rfl⟩

theorem Guides.bind_condition {word : Keyword} {good : List Lexeme → Prop} {ts : List Token}
    {f : Expr → Parser α}
    (h : ∀ c mid, c.WellFormed →
      Guides (fun l => good (.sign "(" :: (c.unparse ++ .sign ")" :: l))) mid (f c mid)) :
    Guides good ts ((condition word >>= f) ts) := by
  refine (condition_guides word ts).bind ?_ ?_
  · rintro l ⟨c, hwf, rfl⟩
    simpa using (h c [] hwf).viable
  · intro c mid hmid
    obtain ⟨hwf, htakes⟩ := condition_reads hmid
    exact ⟨_, htakes, by simpa using h c mid hwf⟩

theorem Guides.bind_optional {text : String} {good : List Lexeme → Prop} {ts : List Token}
    {f : Expr → Parser α}
    (h : ∀ e mid, e.OptionalWellFormed → Guides (fun l => good (e.unparse ++ l)) mid (f e mid)) :
    Guides good ts ((optionalBefore text >>= f) ts) := by
  have hoptional : Guides (fun l => ∃ e : Expr, e.OptionalWellFormed ∧ e.unparse = l) ts
      (optionalBefore text ts) := by
    unfold optionalBefore
    rw [seesSign_bind]
    split
    · exact .ok ⟨_, .absent, Or.inl rfl, rfl⟩
    · refine (expression_guides ts).mono ?_
      rintro l ⟨e, hwf, -, rfl⟩
      exact ⟨e, Or.inr hwf, rfl⟩
  refine hoptional.bind ?_ ?_
  · rintro l ⟨e, hwf, rfl⟩
    exact (h e [] hwf).viable
  · intro e mid hmid
    obtain ⟨hwf, htakes⟩ := optionalBefore_reads hmid
    exact ⟨_, htakes, h e mid hwf⟩

/-- The pieces of a statement with some property. -/
def SpellsStmt (has : Stmt → Prop) (l : List Lexeme) : Prop :=
  ∃ s : Stmt, s.WellFormed ∧ has s ∧ s.unparse = l

theorem Guides.bind_identifier {what : Expectation} {good : List Lexeme → Prop} {ts : List Token}
    {f : String → Parser α}
    (h : ∀ n mid, Guides (fun l => good ((.identifier, n) :: l)) mid (f n mid)) :
    Guides good ts ((identifier what >>= f) ts) := by
  have hname : Guides (fun l => ∃ n, l = [(.identifier, n)]) ts (identifier what ts) := by
    unfold identifier
    rw [peek_bind]
    cases ts with
    | nil => exact .fail _ ⟨_, "x", rfl⟩
    | cons t ts =>
      simp only [List.head?_cons]
      split
      · exact .ok ⟨_, "x", rfl⟩
      · exact .fail _ ⟨_, "x", rfl⟩
  refine hname.bind ?_ ?_
  · rintro l ⟨n, rfl⟩
    exact (h n []).viable
  · intro n mid hmid
    obtain ⟨t, rfl, ht⟩ := identifier_eq_ok hmid
    exact ⟨_, .one ht mid, h n mid⟩

theorem declaration_guides {ts : List Token}
    (hsees : (ts.head?.any fun t => t.kind = .keyword && isTypeWord t.text) = true) :
    Guides (SpellsStmt fun s => s.isLoopInitial = true) ts (declaration ts) := by
  obtain ⟨t, ts, rfl, ht, htype⟩ := exists_of_sees_type hsees
  unfold declaration
  rw [peek_bind]
  simp only [List.head?_cons, Option.map_some, Option.getD_some]
  rw [skip_bind]
  refine .take ht (.bind_identifier fun n mid => ?_)
  rw [seesSign_bind]
  split
  · obtain ⟨equals, mid, rfl, hequals⟩ := exists_of_sees_sign ‹_›
    rw [skip_bind]
    refine .take hequals (.bind_expression fun e mid' hwf => .bind_sign fun mid'' => .ok ⟨[], ?_⟩)
    refine ⟨.declare t.text n e, ⟨htype, Or.inr hwf⟩, rfl, ?_⟩
    simp [Stmt.unparse, Stmt.initialLexemes, hwf.isAbsent]
  · exact .bind_sign fun mid' => .ok ⟨[], .declare t.text n .absent, ⟨htype, Or.inl rfl⟩, rfl, rfl⟩

theorem expressionStatement_guides (ts : List Token) :
    Guides (SpellsStmt fun s => ∃ e, s = .expression e) ts (expressionStatement ts) := by
  refine .bind_expression fun e mid hwf => .bind_sign fun mid' => .ok ⟨[], ?_⟩
  exact ⟨.expression e, hwf, ⟨e, rfl⟩, by simp [Stmt.unparse]⟩

theorem Guides.bind_loopInitial {good : List Lexeme → Prop} {ts : List Token} {f : Stmt → Parser α}
    (h : ∀ s mid, s = .absent ∨ s.WellFormed ∧ s.isLoopInitial →
      Guides (fun l => good ((if s.isAbsent then [.sign ";"] else s.unparse) ++ l)) mid (f s mid)) :
    Guides good ts ((loopInitial >>= f) ts) := by
  have hinitial : Guides (fun l => ∃ s : Stmt, (s = .absent ∨ s.WellFormed ∧ s.isLoopInitial) ∧
      (if s.isAbsent then [.sign ";"] else s.unparse) = l) ts (loopInitial ts) := by
    unfold loopInitial
    rw [seesSign_bind]
    split
    · exact .ok ⟨_, .absent, Or.inl rfl, rfl⟩
    · rw [seesType_bind]
      split
      · refine (declaration_guides ‹_›).mono ?_
        rintro l ⟨s, hwf, hs, rfl⟩
        exact ⟨s, Or.inr ⟨hwf, hs⟩, by simp [hwf.isAbsent]⟩
      · refine (expressionStatement_guides ts).mono ?_
        rintro l ⟨s, hwf, ⟨e, rfl⟩, rfl⟩
        exact ⟨_, Or.inr ⟨hwf, rfl⟩, rfl⟩
  refine hinitial.bind ?_ ?_
  · rintro l ⟨s, hs, rfl⟩
    exact (h s [] hs).viable
  · intro s mid hmid
    obtain ⟨hs, htakes⟩ := loopInitial_reads hmid
    exact ⟨_, htakes, h s mid hs⟩

/-- A parser of statements stops where a statement that is no declaration could go on. -/
def GuidesStmt (p : Parser Stmt) : Prop :=
  ∀ ts, Guides (SpellsStmt fun s => s.isDeclare = false) ts (p ts)

theorem Guides.bind_stmt {p : Parser Stmt} (hp : GuidesStmt p) (hreads : ReadsStmt p)
    {good : List Lexeme → Prop} {ts : List Token} {f : Stmt → Parser α}
    (h : ∀ s mid, s.WellFormed → s.isDeclare = false →
      (s.endsOpen = true → (mid.head?.any fun t => t.is .keyword Keyword.edi.spelling) = false) →
      Guides (fun l => good (s.unparse ++ l)) mid (f s mid)) :
    Guides good ts ((p >>= f) ts) := by
  refine (hp ts).bind ?_ ?_
  · rintro l ⟨s, hwf, hs, rfl⟩
    exact (h s [] hwf hs fun _ => rfl).viable
  · intro s mid hmid
    obtain ⟨hwf, hs, htakes, hopen⟩ := hreads ts s mid hmid
    exact ⟨_, htakes, h s mid hwf hs hopen⟩

section

variable {statement : Parser Stmt} (hstatement : GuidesStmt statement)
  (hreads : ReadsStmt statement) {t : Token} {ts : List Token}
include hstatement hreads

theorem conditional_guides (ht : t.bare = .word .ug) :
    Guides (SpellsStmt fun s => s.isDeclare = false) (t :: ts)
      (conditional statement (t :: ts)) := by
  unfold conditional
  rw [skip_bind]
  refine .take ht (.bind_condition fun c mid hc => .bind_stmt hstatement hreads ?_)
  intro consequent mid' hwf hdeclare hopen
  rw [seesWord_bind]
  split
  · rename_i hsees
    have hclosed : consequent.endsOpen = false := by
      cases hends : consequent.endsOpen with
      | false => rfl
      | true => exact absurd ((hopen hends).symm.trans hsees) (by decide)
    obtain ⟨edi, after, rfl, hedi⟩ := exists_of_sees_word hsees
    rw [skip_bind]
    refine .take hedi (.bind_stmt hstatement hreads ?_)
    intro alternative mid'' hwf' hdeclare' _
    refine .ok ⟨[], .ifElse c consequent alternative, ?_, rfl, ?_⟩
    · exact ⟨hc, hwf, hdeclare, Or.inr ⟨hwf', hdeclare', hclosed⟩⟩
    · simp [Stmt.unparse, hwf'.isAbsent]
  · refine .ok ⟨[], .ifElse c consequent .absent, ⟨hc, hwf, hdeclare, Or.inl rfl⟩, rfl, ?_⟩
    simp [Stmt.unparse, Stmt.isAbsent]

theorem whileLoop_guides (ht : t.bare = .word .samtang) :
    Guides (SpellsStmt fun s => s.isDeclare = false) (t :: ts) (whileLoop statement (t :: ts)) := by
  unfold whileLoop
  rw [skip_bind]
  refine .take ht (.bind_condition fun c mid hc => .bind_stmt hstatement hreads ?_)
  intro body mid' hwf hdeclare _
  exact .ok ⟨[], .whileLoop c body, ⟨hc, hwf, hdeclare⟩, rfl, by simp [Stmt.unparse]⟩

theorem forLoop_guides (ht : t.bare = .word .alang) :
    Guides (SpellsStmt fun s => s.isDeclare = false) (t :: ts) (forLoop statement (t :: ts)) := by
  unfold forLoop
  rw [skip_bind]
  refine .take ht (.bind_sign fun _ => .bind_loopInitial fun initial _ hi => ?_)
  refine .bind_optional fun c _ hc => .bind_sign fun _ => ?_
  refine .bind_optional fun increment _ hn => .bind_sign fun _ => .bind_stmt hstatement hreads ?_
  intro body mid hwf hdeclare _
  refine .ok ⟨[], .forLoop initial c increment body, ⟨hi, hc, hn, hwf, hdeclare⟩, rfl, ?_⟩
  simp [Stmt.unparse]

omit hreads in
theorem declarationOr_guides (ts : List Token) :
    Guides (SpellsStmt fun _ => True) ts (declarationOr statement ts) := by
  unfold declarationOr
  rw [seesType_bind]
  split
  · refine (declaration_guides ‹_›).mono ?_
    rintro l ⟨s, hwf, -, rfl⟩
    exact ⟨s, hwf, trivial, rfl⟩
  · refine (hstatement ts).mono ?_
    rintro l ⟨s, hwf, -, rfl⟩
    exact ⟨s, hwf, trivial, rfl⟩

/-- The pieces of a sequence of statements. -/
theorem repeatWhile_guides (more : List Token → Bool) (rounds : Nat) :
    ∀ ts, Guides (fun l => ∃ ss, Stmt.AllWellFormed ss ∧ Stmt.unparseAll ss = l) ts
      (repeatWhile more (declarationOr statement) rounds ts) := by
  have hdone : ∃ l, ∃ ss, Stmt.AllWellFormed ss ∧ Stmt.unparseAll ss = l := ⟨_, [], trivial, rfl⟩
  induction rounds with
  | zero => exact fun ts => .ok hdone
  | succ rounds ih =>
    intro ts
    unfold repeatWhile
    rw [bind_of_ok (get_run ts)]
    split
    · refine (declarationOr_guides hstatement ts).bind ?_ ?_
      · rintro l ⟨s, hwf, -, rfl⟩
        exact ⟨[], [s], ⟨hwf, trivial⟩, by simp [Stmt.unparseAll]⟩
      · intro s mid hmid
        obtain ⟨hwf, htakes⟩ := declarationOr_reads hreads hmid
        refine ⟨_, htakes, (ih mid).bind ?_ ?_⟩
        · rintro l ⟨ss, hwfs, rfl⟩
          exact ⟨[], s :: ss, ⟨hwf, hwfs⟩, by simp [Stmt.unparseAll]⟩
        · intro ss mid' hmid'
          obtain ⟨hwfs, htakes'⟩ := repeatWhile_reads hreads _ _ _ _ _ hmid'
          exact ⟨_, htakes', .ok ⟨[], s :: ss, ⟨hwf, hwfs⟩, by simp [Stmt.unparseAll]⟩⟩
    · exact .ok hdone

theorem block_guides (ts : List Token) :
    Guides (SpellsStmt fun s => s.isDeclare = false) ts (block statement ts) := by
  unfold block
  refine .bind_sign fun mid => ?_
  rw [bind_of_ok (get_run mid)]
  have hclosed : ∀ ss mid', Stmt.AllWellFormed ss →
      Guides (fun l => SpellsStmt (fun s => s.isDeclare = false)
        (.sign "\x7b" :: (Stmt.unparseAll ss ++ l))) mid'
        ((sign "\x7d" .blockEnd >>= fun _ => pure (Stmt.block ss)) mid') := by
    intro ss mid' hwfs
    refine .bind_sign fun mid'' => .ok ⟨[], .block ss, hwfs, rfl, ?_⟩
    simp [Stmt.unparse]
  refine (repeatWhile_guides hstatement hreads _ _ mid).bind ?_ ?_
  · rintro l ⟨ss, hwfs, rfl⟩
    exact (hclosed ss [] hwfs).viable
  · intro ss mid' hmid
    obtain ⟨hwfs, htakes⟩ := repeatWhile_reads hreads _ _ _ _ _ hmid
    exact ⟨_, htakes, hclosed ss mid' hwfs⟩

end

theorem printStatement_guides {t : Token} {ts : List Token} (ht : t.bare = .word .imprentaGawas) :
    Guides (SpellsStmt fun s => s.isDeclare = false) (t :: ts) (printStatement (t :: ts)) := by
  unfold printStatement
  rw [skip_bind]
  refine .take ht (.bind_expression fun e mid hwf => .bind_sign fun mid' => .ok ⟨[], ?_⟩)
  exact ⟨.print e, hwf, rfl, by simp [Stmt.unparse]⟩

theorem stmt_guides (depth : Nat) : GuidesStmt (stmt depth) := by
  induction depth with
  | zero => exact fun ts => .fail _ ⟨_, .expression (.name "x"), trivial, rfl, rfl⟩
  | succ depth ih =>
    intro ts
    have hreads := stmt_reads depth
    unfold stmt
    rw [seesWord_bind]
    split
    · obtain ⟨t, ts, rfl, ht⟩ := exists_of_sees_word ‹_›
      exact conditional_guides ih hreads ht
    rw [seesWord_bind]
    split
    · obtain ⟨t, ts, rfl, ht⟩ := exists_of_sees_word ‹_›
      exact whileLoop_guides ih hreads ht
    rw [seesWord_bind]
    split
    · obtain ⟨t, ts, rfl, ht⟩ := exists_of_sees_word ‹_›
      exact forLoop_guides ih hreads ht
    rw [seesWord_bind]
    split
    · obtain ⟨t, ts, rfl, ht⟩ := exists_of_sees_word ‹_›
      exact printStatement_guides ht
    rw [seesSign_bind]
    split
    · exact block_guides ih hreads ts
    · refine (expressionStatement_guides ts).mono ?_
      rintro l ⟨s, hwf, ⟨e, rfl⟩, rfl⟩
      exact ⟨_, hwf, rfl, rfl⟩

theorem program_guides (ts : List Token) :
    Guides (fun l => ∃ p, WellFormed p ∧ unparse p = l) ts (program ts) :=
  repeatWhile_guides (fun ts => stmt_guides (ts.length + 1) ts) statement_reads _ _ ts

end Parser

/-- A string with quotes around what it is read as. -/
def Token.requote (t : Token) : Token :=
  match Parser.unquote t.text with
  | .ok inside => if t.kind = .string then { t with text := "\"" ++ inside ++ "\"" } else t
  | .error _ => t

theorem Token.alike_requote (t : Token) : t.Alike t.requote := by
  unfold requote
  cases hunquote : Parser.unquote t.text with
  | error cause => exact .refl t
  | ok inside =>
    by_cases hkind : t.kind = .string
    · simp only [hkind, if_true]
      exact ⟨hkind.symm ▸ rfl, by simp [hkind, hunquote, Parser.unquote_quoted]⟩
    · simp only [hkind, if_false]
      exact .refl t

theorem Token.requote_hasQuotes {t : Token} (h : t.kind = .string → 2 ≤ t.text.utf8ByteSize) :
    t.requote.HasQuotes := by
  intro hkind
  replace hkind : t.kind = .string := (t.alike_requote).1.trans hkind
  obtain ⟨inside, hinside⟩ := Parser.unquote_of_two_bytes (h hkind)
  simp only [requote, hinside, hkind, if_true]
  refine ⟨?_, by simp, by simp [List.getLast?_cons]⟩
  rw [String.utf8ByteSize_append, String.utf8ByteSize_append]
  have : "\"".utf8ByteSize = 1 := by decide
  omega

theorem Like.requote (ts more : List Token) :
    Like [] [] (ts ++ more) (ts.map Token.requote ++ more) := by
  induction ts with
  | nil => simpa using @Like.append [] [] more
  | cons t ts ih => exact .cons t.alike_requote ih

theorem Like.symm {rest rest' ts ts' : List Token} (h : Like rest rest' ts ts') :
    Like rest' rest ts' ts := by
  induction h with
  | here => exact .here
  | cons head _ ih => exact .cons head.symm ih

/-- Sequences alike are read alike, for as long as nothing is taken behind where they are. -/
theorem program_tracks {rest rest' ts ts' : List Token}
    (hahead : Option.Rel Token.Alike rest.head? rest'.head?) (hlike : Like rest rest' ts ts') :
    Parser.Tracks rest rest' Parser.program Parser.program ts ts' :=
  Parser.program_follows hahead ts ts'
    (Or.inr ⟨hlike, Nat.lt_succ_self ts.length, Nat.lt_succ_self ts'.length⟩)

theorem parse_eq_error_iff {ts : List Token} {s : Stop} :
    parse ts = .error s ↔ Parser.program ts = .error s := by
  unfold parse
  cases Parser.program ts <;> simp [Except.map]

theorem parse_eq_ok_iff {ts : List Token} {p : Program} :
    parse ts = .ok p ↔ Parser.outcome (Parser.program ts) = .ok p := by
  unfold parse
  cases Parser.program ts <;> simp [Except.map, Parser.outcome]

/-- The parser does not tell tokens alike apart. -/
theorem parse_of_like {ts ts' : List Token} {p : Program} (hlike : Like [] [] ts ts')
    (h : parse ts = .ok p) : parse ts' = .ok p := by
  rcases program_tracks .none hlike with ⟨-, hpast | ⟨houtcome, -⟩⟩
  · exact absurd hpast (Nat.not_lt_zero _)
  · rwa [parse_eq_ok_iff, ← houtcome, ← parse_eq_ok_iff]

/-- Where strings have their quotes, what was taken before a stop can be continued. -/
theorem exists_parse_of_error {ts : List Token} {s : Stop} (hquotes : ∀ t ∈ ts, t.HasQuotes)
    (h : parse ts = .error s) :
    ∃ used what more p, ts = used ++ s.rest ∧ s.cause = .expected what ∧
      parse (used ++ more) = .ok p := by
  obtain ⟨used, what, more, hts, hcause, p, hwf, hp⟩ :=
    (Parser.program_guides ts).stops hquotes s (parse_eq_error_iff.mp h)
  refine ⟨used, what, more.map fun l => ⟨l.1, l.2, none⟩, p, hts, hcause, ?_⟩
  refine parse_of_spelled hwf ?_
  rw [hp, List.map_append, List.map_map]
  simp [Function.comp_def, Token.bare]

/-- Nothing that begins with the tokens up to and including the one at which parsing stopped is
accepted. -/
theorem parse_ne_ok_of_error {used after : List Token} {t : Token} {s : Stop}
    (h : parse (used ++ t :: after) = .error s) (hrest : s.rest = t :: after)
    (more : List Token) (p : Program) : parse (used ++ t :: more) ≠ .ok p := by
  have hahead : Option.Rel Token.Alike (t :: after).head? (t :: more).head? := .some (.refl t)
  have hstop := parse_eq_error_iff.mp h
  have htracks := program_tracks hahead (Like.append used)
  unfold Parser.Tracks at htracks
  rw [hstop] at htracks
  rcases htracks with ⟨-, hpast | ⟨houtcome, -⟩⟩
  · rw [Parser.leftover, hrest] at hpast
    exact absurd hpast (Nat.lt_irrefl _)
  · rw [ne_eq, parse_eq_ok_iff, ← houtcome]
    intro hok
    cases hok

/-- What was taken before a stop can be continued, also where strings have other quotes. -/
theorem exists_parse_of_error_at {taken : List Token} {s : Stop}
    (hstrings : ∀ t ∈ taken ++ s.rest, t.kind = .string → 2 ≤ t.text.utf8ByteSize)
    (h : parse (taken ++ s.rest) = .error s) :
    ∃ what more p, s.cause = .expected what ∧ parse (taken ++ more) = .ok p := by
  -- the same stop on the sequence in which all strings have their quotes
  have hlike : Like [] [] (taken ++ s.rest) ((taken ++ s.rest).map Token.requote) := by
    simpa using Like.requote (taken ++ s.rest) []
  have htracks := program_tracks .none hlike
  unfold Parser.Tracks at htracks
  rw [parse_eq_error_iff.mp h] at htracks
  rcases htracks with ⟨-, hpast | ⟨houtcome, hrest⟩⟩
  · exact absurd hpast (Nat.not_lt_zero _)
  cases hstop : Parser.program ((taken ++ s.rest).map Token.requote) with
  | ok x =>
    rw [hstop] at houtcome
    cases houtcome
  | error s' =>
    rw [hstop] at houtcome hrest
    have hcause : s.cause = s'.cause := by simpa [Parser.outcome] using houtcome
    have hlength : s.rest.length = s'.rest.length := by simpa [Parser.leftover] using hrest.length
    have hquotes : ∀ t ∈ (taken ++ s.rest).map Token.requote, t.HasQuotes := by
      intro t ht
      obtain ⟨u, hu, rfl⟩ := List.mem_map.mp ht
      exact Token.requote_hasQuotes (hstrings u hu)
    obtain ⟨used, what, more, p, hused, hwhat, hparse⟩ :=
      exists_parse_of_error hquotes (parse_eq_error_iff.mpr hstop)
    rw [List.map_append] at hused
    obtain rfl := List.append_inj_left' hused (by simpa using hlength)
    exact ⟨what, more, p, hcause.trans hwhat, parse_of_like (Like.requote taken more).symm hparse⟩

/-- Syntax errors point at the first impossible token.  Where strings have room for their quotes, the
parser stops with a syntax error at a place `k`: the error names the token there, or none at the end;
the tokens before it can be continued to a program; nothing that begins with them and that token can;
and at the end the whole sequence can be continued. -/
theorem parse_stops_at_first_impossible {ts : List Token} {s : Stop}
    (hstrings : ∀ t ∈ ts, t.kind = .string → 2 ≤ t.text.utf8ByteSize)
    (h : parse ts = .error s) :
    ∃ k ≤ ts.length, s.rest = ts.drop k ∧
      (∃ what : Expectation, s.syntaxError? = some ⟨what.text, ts[k]?⟩) ∧
      (∃ more p, parse (ts.take k ++ more) = .ok p) ∧
      (k < ts.length → ∀ more p, parse (ts.take (k + 1) ++ more) ≠ .ok p) ∧
      (s.found = none → ∃ more p, parse (ts ++ more) = .ok p) := by
  have hlike : Like [] [] ts ts := by simpa using @Like.append [] [] ts
  have hsuffix := (program_tracks .none hlike).1
  rw [parse_eq_error_iff.mp h] at hsuffix
  obtain ⟨taken, rfl⟩ : s.rest <:+ ts := hsuffix
  obtain ⟨what, more, p, hwhat, hparse⟩ := exists_parse_of_error_at hstrings h
  have hfound : (taken ++ s.rest)[taken.length]? = s.found := by
    rw [Stop.found, List.head?_eq_getElem?, List.getElem?_append_right (Nat.le_refl _),
      Nat.sub_self]
  refine ⟨taken.length, by simp, by simp, ⟨what, ?_⟩, ⟨more, p, by simpa using hparse⟩, ?_, ?_⟩
  · simp only [Stop.syntaxError?, hwhat, hfound]
  · intro hlt more' p'
    cases hrest : s.rest with
    | nil => simp [hrest] at hlt
    | cons t after =>
      rw [hrest] at h
      have htake : (taken ++ t :: after).take (taken.length + 1) = taken ++ [t] := by
        simp [List.take_append]
      rw [htake, List.append_assoc]
      exact parse_ne_ok_of_error h hrest more' p'
  · intro hnone
    have hnil : s.rest = [] := List.head?_eq_none_iff.mp hnone
    exact ⟨more, p, by simpa [hnil] using hparse⟩

/-- In `ug (a) { x = "s" ) }` the second closing parenthesis is the first impossible token. -/
theorem parse_stops_inside_block :
    let lexemes : List Lexeme :=
      [.word .ug, .sign "(", (.identifier, "a"), .sign ")", .sign "\x7b", (.identifier, "x"),
        .sign "=", (.string, "\"s\""), .sign ")", .sign "\x7d"]
    let ts : List Token := lexemes.map fun l => ⟨l.1, l.2, none⟩
    parse ts = .error ⟨.expected .expressionEnd, ts.drop 8⟩ ∧
      (∃ more p, parse (ts.take 8 ++ more) = .ok p) ∧
      ∀ more p, parse (ts.take 9 ++ more) ≠ .ok p := by
  intro lexemes ts
  have hstop : parse ts = .error ⟨.expected .expressionEnd, ts.drop 8⟩ := by rfl
  obtain ⟨k, hk, hrest, -, hviable, himpossible, -⟩ :=
    parse_stops_at_first_impossible (by decide) hstop
  obtain rfl : k = 8 := by
    have hlength := congrArg List.length hrest
    simp only [List.length_drop] at hlength
    have : ts.length = 10 := rfl
    omega
  exact ⟨hstop, hviable, himpossible (by decide)⟩

end Binisaya
