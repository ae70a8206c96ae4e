import Binisaya.Proofs.Grammar.Cursor
import Binisaya.Proofs.Grammar.Viable

/-!
# A cursor does what the parser does

A cursor over all tokens does at a position what the parser does on the tokens from there on.  As
every nesting and every round of a loop takes a token, a bound above the number of tokens ahead is
never reached, neither by the cursor nor by the parser.  `Agrees` says this of one position; `Mirrors`
of all positions with fewer than a given number of tokens ahead, which is what the induction over the
nesting needs.
-/

namespace Binisaya

namespace Cursor

variable {α β : Type} {tokens : List Token} {k n : Nat}

/-- A cause for which there can be reason among the tokens: only a string without room for its
quotes makes reading stop for another cause than an expectation. -/
def Justified (tokens : List Token) : StopCause → Prop
  | .expected _ => True
  | .shortString _ => ∃ t ∈ tokens, t.kind = .string ∧ t.text.utf8ByteSize < 2

/-- A cursor that begins at `k` ends.  It comes to what a parser comes to on the tokens from `k` on,
and reaches the position from which on are the tokens that the parser leaves. -/
inductive Agrees (tokens : List Token) (k : Nat) (c : Cursor α) (p : Parser α) : Prop where
  | answers (a : α) (stop : Nat) (cursor : c tokens k = some (.ok a, stop))
    (parser : p (tokens.drop k) = .ok (a, tokens.drop stop))
    (forward : k ≤ stop) (inside : stop ≤ tokens.length)
  | stops (cause : StopCause) (stop : Nat)
    (cursor : c tokens k = some (.error ⟨cause, tokens[stop]?⟩, stop))
    (parser : p (tokens.drop k) = .error ⟨cause, tokens.drop stop⟩)
    (forward : k ≤ stop) (inside : stop ≤ tokens.length) (justified : Justified tokens cause)

theorem bind_of_ok {c : Cursor α} {a : α} {stop : Nat} (h : c tokens k = some (.ok a, stop))
    (f : α → Cursor β) : (c >>= f) tokens k = f a tokens stop := by
  change (c tokens k).bind _ = _
  rw [h]
  rfl

theorem bind_of_error {c : Cursor α} {fault : Fault} {stop : Nat}
    (h : c tokens k = some (.error fault, stop)) (f : α → Cursor β) :
    (c >>= f) tokens k = some (.error fault, stop) := by
  change (c tokens k).bind _ = _
  rw [h]
  rfl

theorem peek_bind (f : Option Token → Cursor α) :
    (peek >>= f) tokens k = f tokens[k]? tokens k := rfl

theorem sees_bind (test : Token → Bool) (f : Bool → Cursor α) :
    (sees test >>= f) tokens k = f (tokens[k]?.any test) tokens k := rfl

/-- What is ahead tells the position. -/
theorem eq_of_drop_eq {j : Nat} (hj : j ≤ tokens.length) (hk : k ≤ tokens.length)
    (h : tokens.drop j = tokens.drop k) : j = k := by
  have hlength := congrArg List.length h
  simp only [List.length_drop] at hlength
  omega

namespace Agrees

/-- What is done from a position further on is done behind what came before. -/
theorem later {c c' : Cursor α} {p p' : Parser α} {mid : Nat} (h : Agrees tokens mid c' p')
    (hc : c tokens k = c' tokens mid) (hp : p (tokens.drop k) = p' (tokens.drop mid))
    (hmid : k ≤ mid) : Agrees tokens k c p := by
  cases h with
  | answers a stop cursor parser forward inside =>
    exact .answers a stop (hc.trans cursor) (hp.trans parser) (hmid.trans forward) inside
  | stops cause stop cursor parser forward inside justified =>
    exact .stops cause stop (hc.trans cursor) (hp.trans parser) (hmid.trans forward) inside justified

theorem congr {c c' : Cursor α} {p p' : Parser α} (h : Agrees tokens k c' p')
    (hc : c tokens k = c' tokens k) (hp : p (tokens.drop k) = p' (tokens.drop k)) :
    Agrees tokens k c p :=
  h.later hc hp (Nat.le_refl k)

theorem pure (a : α) (hk : k ≤ tokens.length) : Agrees tokens k (pure a) (pure a) :=
  .answers a k rfl rfl (Nat.le_refl k) hk

theorem stop {cause : StopCause} (hcause : Justified tokens cause) (hk : k ≤ tokens.length) :
    Agrees tokens k (stop cause : Cursor α) (Parser.stop cause) :=
  .stops cause k rfl rfl (Nat.le_refl k) hk hcause

theorem bind {c : Cursor α} {p : Parser α} {f : α → Cursor β} {g : α → Parser β}
    (h : Agrees tokens k c p)
    (hf : ∀ a mid, p (tokens.drop k) = .ok (a, tokens.drop mid) → k ≤ mid → mid ≤ tokens.length →
      Agrees tokens mid (f a) (g a)) :
    Agrees tokens k (c >>= f) (p >>= g) := by
  cases h with
  | answers a mid cursor parser forward inside =>
    exact (hf a mid parser forward inside).later (bind_of_ok cursor f)
      (Parser.bind_of_ok parser g) forward
  | stops cause stop cursor parser forward inside justified =>
    refine .stops cause stop (bind_of_error cursor f) ?_ forward inside justified
    rw [Parser.bind_run, parser]
    rfl

theorem peek {f : Option Token → Cursor α} {g : Option Token → Parser α}
    (h : Agrees tokens k (f tokens[k]?) (g tokens[k]?)) :
    Agrees tokens k (peek >>= f) (Parser.peek >>= g) :=
  h.congr rfl (by rw [Parser.peek_bind, List.head?_drop])

theorem skip {f : Unit → Cursor α} {g : Unit → Parser α} (hk : k < tokens.length)
    (h : Agrees tokens (k + 1) (f ()) (g ())) :
    Agrees tokens k (skip >>= f) (Parser.skip >>= g) := by
  have hskip : Cursor.skip tokens k = some (.ok (), k + 1) := by
    simp only [Cursor.skip, hk, if_true]
  exact h.later (bind_of_ok hskip f) (by rw [Parser.skip_bind, List.tail_drop]) (Nat.le_succ k)

/-- The parser decides where the cursor gets to. -/
theorem of_ok {c : Cursor α} {p : Parser α} {a : α} {stop : Nat} (h : Agrees tokens k c p)
    (hp : p (tokens.drop k) = .ok (a, tokens.drop stop)) (hstop : stop ≤ tokens.length) :
    c tokens k = some (.ok a, stop) := by
  cases h with
  | answers a' reached cursor parser _ inside =>
    rw [parser] at hp
    injection hp with hsame
    injection hsame with ha hdrop
    rw [cursor, ha, eq_of_drop_eq inside hstop hdrop]
  | stops _ _ _ parser =>
    rw [parser] at hp
    cases hp

theorem of_error {c : Cursor α} {p : Parser α} {cause : StopCause} {stop : Nat}
    (h : Agrees tokens k c p) (hp : p (tokens.drop k) = .error ⟨cause, tokens.drop stop⟩)
    (hstop : stop ≤ tokens.length) :
    c tokens k = some (.error ⟨cause, tokens[stop]?⟩, stop) := by
  cases h with
  | answers _ _ _ parser =>
    rw [parser] at hp
    cases hp
  | stops cause' reached cursor parser _ inside =>
    rw [parser] at hp
    injection hp with hsame
    injection hsame with hcause hdrop
    rw [cursor, hcause, eq_of_drop_eq inside hstop hdrop]

end Agrees

section

variable (tokens n)

/-- A cursor and a parser agree wherever fewer than `n` tokens are ahead. -/
def Mirrors (c : Cursor α) (p : Parser α) : Prop :=
  ∀ k ≤ tokens.length, tokens.length < k + n → Agrees tokens k c p

/-- The same where a token is ahead. -/
def MirrorsAhead (c : Cursor α) (p : Parser α) : Prop :=
  ∀ k < tokens.length, tokens.length < k + n → Agrees tokens k c p

end

namespace Mirrors

variable {c : Cursor α} {p : Parser α}

theorem mono {m : Nat} (h : Mirrors tokens n c p) (hm : m ≤ n) : Mirrors tokens m c p :=
  fun k hk hahead => h k hk (by omega)

theorem ahead (h : Mirrors tokens n c p) : MirrorsAhead tokens n c p :=
  fun k hk hahead => h k (Nat.le_of_lt hk) hahead

theorem pure (a : α) : Mirrors tokens n (pure a) (pure a) := fun _ hk _ => .pure a hk

theorem fail (what : Expectation) :
    Mirrors tokens n (fail what : Cursor α) (Parser.fail what) :=
  fun _ hk _ => .stop trivial hk

theorem bind {f : α → Cursor β} {g : α → Parser β} (h : Mirrors tokens n c p)
    (hf : ∀ a, Mirrors tokens n (f a) (g a)) : Mirrors tokens n (c >>= f) (p >>= g) := by
  intro k hk hahead
  refine (h k hk hahead).bind ?_
  intro a mid _ hforward hinside
  exact hf a mid hinside (by omega)

theorem peek {f : Option Token → Cursor α} {g : Option Token → Parser α}
    (hnone : Mirrors tokens n (f none) (g none))
    (hsome : ∀ t ∈ tokens, MirrorsAhead tokens n (f (some t)) (g (some t))) :
    Mirrors tokens n (peek >>= f) (Parser.peek >>= g) := by
  intro k hk hahead
  apply Agrees.peek
  cases ht : tokens[k]? with
  | none => exact hnone k hk hahead
  | some t =>
    obtain ⟨hlt, -⟩ := List.getElem?_eq_some_iff.mp ht
    exact hsome t (List.mem_of_getElem? ht) k hlt hahead

end Mirrors

theorem MirrorsAhead.skip {f : Unit → Cursor α} {g : Unit → Parser α}
    (h : Mirrors tokens (n - 1) (f ()) (g ())) :
    MirrorsAhead tokens n (skip >>= f) (Parser.skip >>= g) :=
  fun k hk hahead => .skip hk (h (k + 1) hk (by omega))

/-- A depth of one more than the tokens ahead is as good as the bound. -/
theorem Mirrors.of_depth {c : Nat → Cursor α} {p : Nat → Parser α} {bound : Nat}
    (hbound : n ≤ bound)
    (h : ∀ {m depth depth' : Nat}, m ≤ bound → m ≤ depth → m ≤ depth' →
      Mirrors tokens m (c depth) (p depth')) :
    Mirrors tokens n (c bound) fun ts => p (ts.length + 1) ts := by
  intro k hk hahead
  have hlength : (tokens.drop k).length = tokens.length - k := List.length_drop
  have hdepth : (tokens.drop k).length + 1 ≤ bound := by omega
  exact (h hdepth hdepth (Nat.le_refl _) k hk (by omega)).congr rfl rfl

/-- A test of the next token. -/
theorem Agrees.test (test : Token → Bool) {yes no : Cursor α} {yes' no' : Parser α}
    (hyes : k < tokens.length → Agrees tokens k yes yes') (hno : Agrees tokens k no no') :
    Agrees tokens k (sees test >>= fun b => if b then yes else no)
      (Parser.peek >>= fun o => if o.any test then yes' else no') := by
  refine (Agrees.peek (f := fun o => if o.any test then yes else no) ?_).congr rfl rfl
  split
  · rename_i hany
    refine hyes (Nat.lt_of_not_le fun hend => ?_)
    rw [List.getElem?_eq_none hend] at hany
    cases hany
  · exact hno

theorem Mirrors.test (test : Token → Bool) {yes no : Cursor α} {yes' no' : Parser α}
    (hyes : MirrorsAhead tokens n yes yes') (hno : Mirrors tokens n no no') :
    Mirrors tokens n (sees test >>= fun b => if b then yes else no)
      (Parser.peek >>= fun o => if o.any test then yes' else no') :=
  fun k hk hahead => .test test (fun hlt => hyes k hlt hahead) (hno k hk hahead)

/-- Where the next token has a value there is a next token. -/
theorem lt_length_of_bind {γ : Type} {f : Token → Option γ} {x : γ}
    (h : tokens[k]?.bind f = some x) : k < tokens.length := by
  refine Nat.lt_of_not_le fun hend => ?_
  rw [List.getElem?_eq_none hend] at h
  cases h

theorem sign_mirrors (text : String) (what : Expectation) :
    Mirrors tokens n (sign text what) (Parser.sign text what) :=
  .test (fun t => t.isSign text) (MirrorsAhead.skip (.pure ())) (.fail what)

/-- A parser that takes a token with its answer moves the position. -/
theorem lt_of_shorter {p : Parser α} {a : α} {mid : Nat}
    (hshorter : ∀ ts a rest, p ts = .ok (a, rest) → rest.length < ts.length)
    (h : p (tokens.drop k) = .ok (a, tokens.drop mid)) : k < mid := by
  have := hshorter _ _ _ h
  simp only [List.length_drop] at this
  omega

/-- A sign takes a token, so fewer are ahead behind it. -/
theorem sign_bind_mirrors {text : String} {what : Expectation} {f : Unit → Cursor α}
    {g : Unit → Parser α} (h : Mirrors tokens (n - 1) (f ()) (g ())) :
    Mirrors tokens n (sign text what >>= f) (Parser.sign text what >>= g) := by
  intro k hk hahead
  refine (sign_mirrors text what k hk hahead).bind ?_
  intro u mid hsign _ hinside
  have hlt : k < mid := by
    refine lt_of_shorter ?_ hsign
    intro ts u rest hts
    obtain ⟨t, rfl, -⟩ := Parser.sign_eq_ok hts
    exact Nat.lt_succ_self _
  exact h mid hinside (by omega)

theorem identifier_mirrors (what : Expectation) :
    Mirrors tokens n (identifier what) (Parser.identifier what) := by
  refine .peek (.fail what) ?_
  intro t _
  by_cases hkind : t.kind = .identifier
  · simp only [hkind, if_true]
    exact .skip (.pure t.text)
  · simp only [hkind, if_false]
    exact (Mirrors.fail what).ahead

theorem literal_mirrors : Mirrors tokens n literal Parser.literal := by
  refine .peek (.fail _) ?_
  intro t ht
  cases hkind : t.kind with
  | int =>
    simp only [hkind]
    cases readInt 32 t.text with
    | ok _ => exact .skip (.pure _)
    | error _ => exact (Mirrors.fail _).ahead
  | double | boolean =>
    simp only [hkind]
    exact .skip (.pure _)
  | string =>
    simp only [hkind]
    cases hunquote : Parser.unquote t.text with
    | ok _ => exact .skip (.pure _)
    | error cause =>
      have hshort : t.text.utf8ByteSize < 2 := by
        refine Nat.lt_of_not_le fun hsize => ?_
        obtain ⟨inside, hinside⟩ := Parser.unquote_of_two_bytes hsize
        rw [hunquote] at hinside
        cases hinside
      have hcause : Justified tokens cause := by
        cases cause with
        | expected what => exact trivial
        | shortString bytes => exact ⟨t, ht, hkind, hshort⟩
      exact fun k hk _ => .stop hcause (Nat.le_of_lt hk)
  | unknown | keyword | punctuation | identifier | unnamed =>
    simp only [hkind]
    exact (Mirrors.fail _).ahead

section

variable {inner : Cursor Expr} {inner' : Parser Expr}

theorem primary_mirrors (hinner : Mirrors tokens (n - 1) inner inner') :
    Mirrors tokens n (primary inner) (Parser.primary inner') := by
  refine .peek literal_mirrors ?_
  intro t _
  by_cases hsign : t.isSign "(" = true
  · simp only [hsign, if_true]
    refine .skip (hinner.bind fun e => ?_)
    exact (sign_mirrors ")" _).bind fun _ => .pure _
  · simp only [hsign]
    by_cases hkind : t.kind = .identifier
    · simp only [hkind, if_true]
      exact .skip (.pure _)
    · simp only [hkind, if_false]
      exact literal_mirrors.ahead

/-- Each operator in front of an operand is a token, so there are rounds enough. -/
theorem unary_mirrors (hinner : Mirrors tokens (n - 1) inner inner') (rounds : Nat) :
    ∀ k ≤ tokens.length, tokens.length < k + n → tokens.length < k + rounds →
      Agrees tokens k (unary inner rounds) (Parser.unary inner') := by
  induction rounds with
  | zero =>
    intro k hk _ hrounds
    omega
  | succ rounds ih =>
    intro k hk hahead hrounds
    refine Agrees.congr (Agrees.peek ?_) rfl (Parser.unary_run _)
    cases hop : tokens[k]?.bind Parser.unaryOp? with
    | none => exact primary_mirrors hinner k hk hahead
    | some op =>
      have hlt := lt_length_of_bind hop
      refine .skip hlt ((ih (k + 1) hlt (by omega) (by omega)).bind ?_)
      exact fun e mid _ _ hinside => .pure _ hinside

variable {operand : Cursor Expr} {operand' : Parser Expr}

/-- So is each operator between operands.  At the end of the tokens the parser may be out of
rounds, and has its answer. -/
theorem chainFrom_mirrors {ops : List BinaryOp} (hoperand : Mirrors tokens n operand operand')
    (rounds : Nat) :
    ∀ (rounds' : Nat) (left : Expr) (k : Nat), k ≤ tokens.length → tokens.length < k + n →
      tokens.length < k + rounds → tokens.length ≤ k + rounds' →
      Agrees tokens k (chainFrom operand ops rounds left)
        (Parser.chainFrom operand' ops rounds' left) := by
  induction rounds with
  | zero =>
    intro rounds' left k hk _ hrounds
    omega
  | succ rounds ih =>
    intro rounds' left k hk hahead hrounds hrounds'
    cases rounds' with
    | zero =>
      refine (Agrees.pure left hk).congr ?_ rfl
      rw [chainFrom, peek_bind, List.getElem?_eq_none (by omega)]
      rfl
    | succ rounds' =>
      refine .peek ?_
      cases hop : tokens[k]?.bind (Parser.binaryOp? ops) with
      | none => exact .pure left hk
      | some op =>
        have hlt := lt_length_of_bind hop
        refine .skip hlt ((hoperand (k + 1) hlt (by omega)).bind ?_)
        intro right mid _ hforward hinside
        exact ih rounds' (.binary op left right) mid hinside (by omega) (by omega) (by omega)

variable {bound : Nat}

theorem chain_mirrors (hbound : n ≤ bound) (hoperand : Mirrors tokens n operand operand')
    (ops : List BinaryOp) :
    Mirrors tokens n (chain bound operand ops) (Parser.chain operand' ops) := by
  intro k hk hahead
  refine Agrees.congr ((hoperand k hk hahead).bind ?_) rfl
    (Parser.bind_of_ok (Parser.get_run (tokens.drop k)) _)
  intro first mid _ hforward hinside
  refine chainFrom_mirrors hoperand bound _ first mid hinside (by omega) (by omega) ?_
  rw [List.length_drop]
  omega

theorem operation_mirrors (hbound : n ≤ bound) (hinner : Mirrors tokens (n - 1) inner inner') :
    Mirrors tokens n (operation bound inner) (Parser.operation inner') := by
  have hfold : ∀ (levels : List (List BinaryOp)) (operand : Cursor Expr) (operand' : Parser Expr),
      Mirrors tokens n operand operand' →
      Mirrors tokens n (levels.foldl (chain bound) operand)
        (levels.foldl Parser.chain operand') := by
    intro levels
    induction levels with
    | nil => exact fun _ _ hoperand => hoperand
    | cons ops levels ih =>
      intro operand operand' hoperand
      exact ih _ _ (chain_mirrors hbound hoperand ops)
  refine hfold Parser.levels _ _ ?_
  exact fun k hk hahead => unary_mirrors hinner bound k hk hahead (by omega)

theorem assignment_mirrors (hbound : n ≤ bound) (hinner : Mirrors tokens (n - 1) inner inner') :
    Mirrors tokens n (assignment bound inner) (Parser.assignment inner') := by
  refine (operation_mirrors hbound hinner).bind fun left => ?_
  refine .test (fun t => t.isSign "=") ?_ (.pure left)
  cases left with
  | name target => exact .skip (hinner.bind fun value => .pure _)
  | _ => exact (Mirrors.fail _).ahead

end

section

variable {bound : Nat} (hbound : n ≤ bound)
include hbound

/-- Depths need not be the same, if both are above the number of tokens ahead. -/
theorem expr_mirrors {depth depth' : Nat} (hdepth : n ≤ depth) (hdepth' : n ≤ depth') :
    Mirrors tokens n (expr bound depth) (Parser.expr depth') := by
  induction n generalizing depth depth' with
  | zero =>
    intro k hk hahead
    omega
  | succ n ih =>
    obtain ⟨d, rfl⟩ := Nat.exists_eq_add_of_lt hdepth
    obtain ⟨d', rfl⟩ := Nat.exists_eq_add_of_lt hdepth'
    exact assignment_mirrors hbound (ih (by omega) (by omega) (by omega))

theorem expression_mirrors : Mirrors tokens n (expression bound) Parser.expression :=
  .of_depth (c := expr bound) hbound fun hbound hdepth hdepth' =>
    expr_mirrors hbound hdepth hdepth'

theorem declaration_mirrors :
    MirrorsAhead tokens n (declaration bound) Parser.declaration := by
  intro k hk hahead
  refine .peek (MirrorsAhead.skip ?_ k hk hahead)
  refine (identifier_mirrors _).bind fun name => ?_
  refine .test (fun t => t.isSign "=") (.skip ?_) ?_
  · refine (expression_mirrors (by omega)).bind fun initial => ?_
    exact (sign_mirrors ";" _).bind fun _ => .pure _
  · exact (sign_mirrors ";" _).bind fun _ => .pure _

theorem expressionStatement_mirrors :
    Mirrors tokens n (expressionStatement bound) Parser.expressionStatement :=
  (expression_mirrors hbound).bind fun _ => (sign_mirrors ";" _).bind fun _ => .pure _

theorem condition_mirrors (word : Keyword) :
    Mirrors tokens n (condition bound word) (Parser.condition word) := by
  refine (sign_mirrors "(" _).bind fun _ => ?_
  refine .test Parser.startsExpression (Mirrors.ahead ?_) (.fail _)
  exact (expression_mirrors hbound).bind fun _ => (sign_mirrors ")" _).bind fun _ => .pure _

theorem optionalBefore_mirrors (text : String) :
    Mirrors tokens n (optionalBefore bound text) (Parser.optionalBefore text) :=
  .test (fun t => t.isSign text) (Mirrors.pure _).ahead (expression_mirrors hbound)

theorem loopInitial_mirrors : Mirrors tokens n (loopInitial bound) Parser.loopInitial := by
  refine .test (fun t => t.isSign ";") (.skip (.pure _)) ?_
  exact .test (fun t => t.kind = .keyword && isTypeWord t.text) (declaration_mirrors hbound)
    (expressionStatement_mirrors hbound)

theorem printStatement_mirrors :
    MirrorsAhead tokens n (printStatement bound) Parser.printStatement := by
  refine .skip ((expression_mirrors (by omega)).bind fun _ => ?_)
  exact (sign_mirrors ";" _).bind fun _ => .pure _

variable {inner : Cursor Stmt} {inner' : Parser Stmt}

theorem declarationOr_mirrors (hinner : Mirrors tokens n inner inner') :
    Mirrors tokens n (declarationOr bound inner) (Parser.declarationOr inner') :=
  .test (fun t => t.kind = .keyword && isTypeWord t.text) (declaration_mirrors hbound) hinner

omit hbound in
/-- Each declaration or statement takes a token, so there are rounds enough for all of them. -/
theorem items_mirrors {item : Cursor Stmt} {item' : Parser Stmt} (more : List Token → Bool)
    (test : Token → Bool) (hmore : ∀ ts, more ts = ts.head?.any test)
    (hitem : Mirrors tokens n item item')
    (hshorter : ∀ ts s rest, item' ts = .ok (s, rest) → rest.length < ts.length) (rounds : Nat) :
    ∀ (rounds' k : Nat), k ≤ tokens.length → tokens.length < k + n →
      tokens.length < k + rounds → tokens.length ≤ k + rounds' →
      Agrees tokens k (items test item rounds) (Parser.repeatWhile more item' rounds') := by
  induction rounds with
  | zero =>
    intro rounds' k hk _ hrounds
    omega
  | succ rounds ih =>
    intro rounds' k hk hahead hrounds hrounds'
    cases rounds' with
    | zero =>
      refine (Agrees.pure [] hk).congr ?_ rfl
      rw [items, sees_bind, List.getElem?_eq_none (by omega)]
      rfl
    | succ rounds' =>
      refine (Agrees.test test (fun _ => ?_) (.pure [] hk)).congr rfl
        (Parser.repeatWhile_run hmore _ rounds' _)
      refine (hitem k hk hahead).bind ?_
      intro first mid hfirst _ hinside
      have hlt := lt_of_shorter hshorter hfirst
      refine (ih rounds' mid hinside (by omega) (by omega) (by omega)).bind ?_
      exact fun others mid' _ _ hinside' => .pure _ hinside'

theorem block_mirrors (hreads : Parser.ReadsStmt inner')
    (hinner : Mirrors tokens (n - 1) inner inner') :
    Mirrors tokens n (block bound inner) (Parser.block inner') := by
  refine sign_bind_mirrors ?_
  intro k hk hahead
  have hitem := declarationOr_mirrors (Nat.le_trans (Nat.sub_le n 1) hbound) hinner
  have hbody := items_mirrors Parser.insideBlock _ (fun _ => rfl) hitem
    (Parser.declarationOr_shorter hreads) bound (tokens.drop k).length k hk hahead (by omega)
    (by rw [List.length_drop]; omega)
  refine Agrees.congr (hbody.bind ?_) rfl (Parser.bind_of_ok (Parser.get_run (tokens.drop k)) _)
  intro body mid _ hforward hinside
  exact ((sign_mirrors (n := n - 1) _ _).bind fun _ => .pure _) mid hinside (by omega)

theorem conditional_mirrors (hinner : Mirrors tokens (n - 1) inner inner') :
    MirrorsAhead tokens n (conditional bound inner) (Parser.conditional inner') := by
  refine .skip ((condition_mirrors (by omega) _).bind fun c => ?_)
  refine hinner.bind fun consequent => ?_
  refine .test (fun t => t.is .keyword Keyword.edi.spelling) (.skip ?_) (.pure _)
  exact (hinner.mono (Nat.sub_le _ _)).bind fun alternative => .pure _

theorem whileLoop_mirrors (hinner : Mirrors tokens (n - 1) inner inner') :
    MirrorsAhead tokens n (whileLoop bound inner) (Parser.whileLoop inner') :=
  .skip ((condition_mirrors (by omega) _).bind fun _ => hinner.bind fun _ => .pure _)

theorem forLoop_mirrors (hinner : Mirrors tokens (n - 1) inner inner') :
    MirrorsAhead tokens n (forLoop bound inner) (Parser.forLoop inner') := by
  refine .skip ((sign_mirrors "(" _).bind fun _ => ?_)
  refine (loopInitial_mirrors (by omega)).bind fun initial => ?_
  refine (optionalBefore_mirrors (by omega) ";").bind fun c => ?_
  refine (sign_mirrors ";" _).bind fun _ => ?_
  refine (optionalBefore_mirrors (by omega) ")").bind fun increment => ?_
  exact (sign_mirrors ")" _).bind fun _ => hinner.bind fun body => .pure _

theorem stmt_mirrors {depth depth' : Nat} (hdepth : n ≤ depth) (hdepth' : n ≤ depth') :
    Mirrors tokens n (stmt bound depth) (Parser.stmt depth') := by
  induction n generalizing depth depth' with
  | zero =>
    intro k hk hahead
    omega
  | succ n ih =>
    obtain ⟨d, rfl⟩ := Nat.exists_eq_add_of_lt hdepth
    obtain ⟨d', rfl⟩ := Nat.exists_eq_add_of_lt hdepth'
    have hinner : Mirrors tokens n (stmt bound (n + d)) (Parser.stmt (n + d')) :=
      ih (by omega) (by omega) (by omega)
    have hword : ∀ (w : Keyword) {yes no : Cursor Stmt} {yes' no' : Parser Stmt},
        MirrorsAhead tokens (n + 1) yes yes' → Mirrors tokens (n + 1) no no' →
        Mirrors tokens (n + 1) (seesWord w >>= fun b => if b then yes else no)
          (Parser.seesWord w >>= fun b => if b then yes' else no') :=
      fun w _ _ _ _ => .test fun t => t.is .keyword w.spelling
    have hblock := block_mirrors hbound (Parser.stmt_reads _) hinner
    refine hword .ug (conditional_mirrors hbound hinner) ?_
    refine hword .samtang (whileLoop_mirrors hbound hinner) ?_
    refine hword .alang (forLoop_mirrors hbound hinner) ?_
    refine hword .imprentaGawas (printStatement_mirrors hbound) ?_
    exact .test (fun t => t.isSign "\x7b") hblock.ahead (expressionStatement_mirrors hbound)

theorem statement_mirrors : Mirrors tokens n (statement bound) Parser.statement :=
  .of_depth (c := stmt bound) hbound fun hbound hdepth hdepth' =>
    stmt_mirrors hbound hdepth hdepth'

theorem item_mirrors :
    Mirrors tokens n (item bound) (Parser.declarationOr Parser.statement) :=
  declarationOr_mirrors hbound (statement_mirrors hbound)

theorem program_mirrors : Mirrors tokens n (program bound) Parser.program := by
  intro k hk hahead
  have hmore : ∀ ts : List Token, (!ts.isEmpty) = ts.head?.any fun _ => true := by
    intro ts
    cases ts <;> rfl
  exact (items_mirrors _ _ hmore (item_mirrors hbound)
    (Parser.declarationOr_shorter Parser.statement_reads) bound (tokens.drop k).length k hk hahead
    (by omega) (by rw [List.length_drop]; omega)).congr rfl rfl

end

end Cursor

end Binisaya
