import Binisaya.Proofs.Grammar.Soundness
import Mathlib.Data.List.Infix

/-!
# How far a parser looks

A parser decides by the next token alone, and of a token it sees neither the place nor how a string
is quoted.  So two sequences that are alike up to and including the heads of `rest` and `rest'` are
read alike for as long as the first of these is not taken.  `Follows` says this of two parsers; they
may have different bounds on the nesting, if each has enough for its own sequence.
-/

namespace Binisaya

/-- Tokens that no parser tells apart. -/
def Token.Alike (t t' : Token) : Prop :=
  t.kind = t'.kind ∧
    if t.kind = .string then Parser.unquote t.text = Parser.unquote t'.text else t.text = t'.text

namespace Token.Alike

variable {t t' : Token}

theorem refl (t : Token) : t.Alike t := ⟨rfl, by split <;> rfl⟩

theorem symm (h : t.Alike t') : t'.Alike t := by
  refine ⟨h.1.symm, ?_⟩
  have htext := h.2
  rw [h.1] at htext
  split <;> simp_all

theorem text_eq (h : t.Alike t') (hkind : t.kind ≠ .string) : t.text = t'.text := by
  simpa [hkind] using h.2

theorem unquote_eq (h : t.Alike t') (hkind : t.kind = .string) :
    Parser.unquote t.text = Parser.unquote t'.text := by
  simpa [hkind] using h.2

theorem is_eq (h : t.Alike t') {kind : TokenKind} (hkind : kind ≠ .string) (text : String) :
    t.is kind text = t'.is kind text := by
  unfold Token.is
  by_cases hk : t.kind = kind
  · rw [← h.1, h.text_eq (hk ▸ hkind)]
  · simp [← h.1, hk]

theorem isSign_eq (h : t.Alike t') (text : String) : t.isSign text = t'.isSign text :=
  h.is_eq (by decide) text

end Token.Alike

/-- Sequences that are alike up to `rest` in the one and `rest'` in the other. -/
inductive Like (rest rest' : List Token) : List Token → List Token → Prop where
  | here : Like rest rest' rest rest'
  | cons {t t' : Token} {ts ts' : List Token} (head : t.Alike t') (tail : Like rest rest' ts ts') :
    Like rest rest' (t :: ts) (t' :: ts')

namespace Like

variable {rest rest' ts ts' : List Token}

theorem length (h : Like rest rest' ts ts') :
    ts.length + rest'.length = ts'.length + rest.length := by
  induction h with
  | here => omega
  | cons _ _ ih =>
    simp only [List.length_cons]
    omega

theorem append (used : List Token) : Like rest rest' (used ++ rest) (used ++ rest') := by
  induction used with
  | nil => exact .here
  | cons t used ih => exact .cons (.refl t) ih

theorem head (h : Like rest rest' ts ts')
    (hahead : Option.Rel Token.Alike rest.head? rest'.head?) :
    Option.Rel Token.Alike ts.head? ts'.head? := by
  cases h with
  | here => exact hahead
  | cons head _ => exact .some head

theorem eq_nil_iff (h : Like rest rest' ts ts')
    (hahead : Option.Rel Token.Alike rest.head? rest'.head?) : ts = [] ↔ ts' = [] := by
  have hhead := h.head hahead
  cases ts <;> cases ts' <;> first | cases hhead; simp | cases hhead

/-- Behind the first token, sequences are alike again, unless that was the last one to be seen. -/
theorem tail (h : Like rest rest' ts ts')
    (hahead : Option.Rel Token.Alike rest.head? rest'.head?) :
    ts.tail.length < rest.length ∨ Like rest rest' ts.tail ts'.tail := by
  cases h with
  | here =>
    cases rest with
    | nil =>
      cases rest' with
      | nil => exact Or.inr .here
      | cons t rest' => cases hahead
    | cons t rest => exact Or.inl (by simp)
  | cons _ tail => exact Or.inr tail

end Like

/-- A test of the next token that sees no difference between tokens alike. -/
theorem any_eq_of_rel {o o' : Option Token} (h : Option.Rel Token.Alike o o') {test : Token → Bool}
    (htest : ∀ t t', t.Alike t' → test t = test t') : o.any test = o'.any test := by
  cases h with
  | some h => exact htest _ _ h
  | none => rfl

namespace Parser

variable {α β : Type}

/-- The tokens that a parser left, whether it answered or stopped. -/
def leftover : Except Stop (α × List Token) → List Token
  | .ok x => x.2
  | .error s => s.rest

/-- What a parser answered, or why it stopped. -/
def outcome : Except Stop (α × List Token) → Except StopCause α
  | .ok x => .ok x.1
  | .error s => .error s.cause

section

variable (rest rest' : List Token)

/-- Two sequences at which parsers with the bounds `n` and `n'` go the same way: alike and within
the bounds.  Behind `rest` nothing is asked any more. -/
def Near (n n' : Nat) (ts ts' : List Token) : Prop :=
  ts.length < rest.length ∨ Like rest rest' ts ts' ∧ ts.length < n ∧ ts'.length < n'

/-- A parser leaves an end of what is ahead, and another does the same, unless a token of `rest` was
taken. -/
def Tracks (p p' : Parser α) (ts ts' : List Token) : Prop :=
  leftover (p ts) <:+ ts ∧
    ((leftover (p ts)).length < rest.length ∨
      outcome (p ts) = outcome (p' ts') ∧ Like rest rest' (leftover (p ts)) (leftover (p' ts')))

/-- One parser does on every sequence what another does on one alike. -/
def Follows (n n' : Nat) (p p' : Parser α) : Prop :=
  ∀ ts ts', Near rest rest' n n' ts ts' → Tracks rest rest' p p' ts ts'

/-- One parser does what another does where a token is ahead. -/
def FollowsAhead (n n' : Nat) (p p' : Parser α) : Prop :=
  ∀ ts ts', Near rest rest' n n' ts ts' → ts ≠ [] → Tracks rest rest' p p' ts ts'

end

variable {rest rest' : List Token} {n n' : Nat} {ts ts' : List Token}

theorem Near.mono {m m' : Nat} (h : Near rest rest' n n' ts ts') (hn : n ≤ m) (hn' : n' ≤ m') :
    Near rest rest' m m' ts ts' := by
  rcases h with h | ⟨hlike, hlength, hlength'⟩
  · exact Or.inl h
  · exact Or.inr ⟨hlike, by omega, by omega⟩

/-- A token less is a bound less. -/
theorem Near.tail (h : Near rest rest' n n' ts ts') (hts : ts ≠ [])
    (hahead : Option.Rel Token.Alike rest.head? rest'.head?) :
    Near rest rest' (n - 1) (n' - 1) ts.tail ts'.tail := by
  have hpos := List.length_pos_iff.mpr hts
  rcases h with h | ⟨hlike, hlength, hlength'⟩
  · exact Or.inl (by rw [List.length_tail]; omega)
  · rcases hlike.tail hahead with h | htail
    · exact Or.inl h
    · refine Or.inr ⟨htail, by rw [List.length_tail]; omega, ?_⟩
      have hlengths := htail.length
      have := hlike.length
      rw [List.length_tail] at hlengths
      omega

/-- Behind `rest` it does not matter what the other parser does. -/
theorem Tracks.behind {p p' q : Parser α} {us : List Token} (h : Tracks rest rest' p q ts us)
    (hbehind : ts.length < rest.length) : Tracks rest rest' p p' ts ts' :=
  ⟨h.1, Or.inl (Nat.lt_of_le_of_lt h.1.length_le hbehind)⟩

theorem Tracks.bind {p p' : Parser α} {f f' : α → Parser β} (hp : Tracks rest rest' p p' ts ts')
    (hf : ∀ a mid mid', p ts = .ok (a, mid) → mid.length < rest.length ∨ Like rest rest' mid mid' →
      Tracks rest rest' (f a) (f' a) mid mid') :
    Tracks rest rest' (p >>= f) (p' >>= f') ts ts' := by
  unfold Tracks at hp ⊢
  rw [bind_run, bind_run]
  cases hpts : p ts with
  | error s =>
    rw [hpts] at hp
    rcases hp with ⟨hsuffix, hpast | ⟨houtcome, hlike⟩⟩
    · exact ⟨hsuffix, Or.inl hpast⟩
    · refine ⟨hsuffix, Or.inr ?_⟩
      cases hpts' : p' ts' with
      | error s' =>
        rw [hpts'] at houtcome hlike
        have hcause : s.cause = s'.cause := by simpa [outcome] using houtcome
        exact ⟨by simp [outcome, hcause, Except.bind], hlike⟩
      | ok x =>
        rw [hpts'] at houtcome
        cases houtcome
  | ok x =>
    obtain ⟨a, mid⟩ := x
    rw [hpts] at hp
    rcases hp with ⟨hsuffix, hpast | ⟨houtcome, hlike⟩⟩
    · have hrest := hf a mid [] hpts (Or.inl hpast)
      refine ⟨hrest.1.trans hsuffix, Or.inl ?_⟩
      exact Nat.lt_of_le_of_lt hrest.1.length_le hpast
    · cases hpts' : p' ts' with
      | error s' =>
        rw [hpts'] at houtcome
        cases houtcome
      | ok x' =>
        obtain ⟨a', mid'⟩ := x'
        rw [hpts'] at houtcome hlike
        cases houtcome
        have hrest := hf a mid mid' hpts (Or.inr hlike)
        exact ⟨hrest.1.trans hsuffix, hrest.2⟩

theorem Tracks.congr {p p' q q' : Parser α} (h : Tracks rest rest' q q' ts ts')
    (hp : p ts = q ts) (hp' : p' ts' = q' ts') : Tracks rest rest' p p' ts ts' := by
  unfold Tracks at h ⊢
  rwa [hp, hp']

theorem Tracks.pure (a : α) (h : ts.length < rest.length ∨ Like rest rest' ts ts') :
    Tracks rest rest' (pure a) (pure a) ts ts' :=
  ⟨List.suffix_rfl, h.imp_right fun hlike => ⟨rfl, hlike⟩⟩

theorem Tracks.skip {f f' : Unit → Parser α}
    (h : Tracks rest rest' (f ()) (f' ()) ts.tail ts'.tail) :
    Tracks rest rest' (skip >>= f) (skip >>= f') ts ts' :=
  ⟨h.1.trans (List.tail_suffix ts), h.2⟩

namespace Follows

variable {p p' : Parser α} {f f' : α → Parser β}

theorem mono {m m' : Nat} (h : Follows rest rest' m m' p p') (hn : n ≤ m) (hn' : n' ≤ m') :
    Follows rest rest' n n' p p' :=
  fun ts ts' hnear => h ts ts' (hnear.mono hn hn')

theorem ahead (h : Follows rest rest' n n' p p') : FollowsAhead rest rest' n n' p p' :=
  fun ts ts' hnear _ => h ts ts' hnear

/-- No sequence is within the bound zero. -/
theorem zero_right {q : Parser α} {m : Nat} (h : Follows rest rest' n m p q) :
    Follows rest rest' n 0 p p' := by
  intro ts ts' hnear
  rcases hnear with hbehind | ⟨-, -, hlength⟩
  · exact (h ts ts' (Or.inl hbehind)).behind hbehind
  · omega

theorem bind (hp : Follows rest rest' n n' p p')
    (hf : ∀ a, Follows rest rest' n n' (f a) (f' a)) :
    Follows rest rest' n n' (p >>= f) (p' >>= f') := by
  intro ts ts' hnear
  refine (hp ts ts' hnear).bind ?_
  intro a mid mid' hmid hnext
  apply hf a mid mid'
  have hsuffix : mid <:+ ts := by simpa [hmid, leftover] using (hp ts ts' hnear).1
  have := hsuffix.length_le
  rcases hnext with hpast | hlike
  · exact Or.inl hpast
  · rcases hnear with hbehind | ⟨hlikes, hlength, hlength'⟩
    · exact Or.inl (by omega)
    · have := hlike.length
      have := hlikes.length
      exact Or.inr ⟨hlike, by omega, by omega⟩

theorem pure (a : α) : Follows rest rest' n n' (pure a) (pure a) :=
  fun _ _ hnear => Tracks.pure a (hnear.imp_right And.left)

theorem stop (cause : StopCause) :
    Follows rest rest' n n' (stop cause : Parser α) (stop cause) :=
  fun _ _ hnear => ⟨List.suffix_rfl, hnear.imp_right fun h => ⟨rfl, h.1⟩⟩

theorem fail (what : Expectation) : Follows rest rest' n n' (fail what : Parser α) (fail what) :=
  stop _

end Follows

section

variable (hahead : Option.Rel Token.Alike rest.head? rest'.head?)
include hahead

/-- Parsers that look at the next token go the same way if they do so for all tokens alike. -/
theorem Tracks.peek {f f' : Option Token → Parser α} (hnear : Near rest rest' n n' ts ts')
    (h : ∀ o', Option.Rel Token.Alike ts.head? o' → Tracks rest rest' (f ts.head?) (f' o') ts ts') :
    Tracks rest rest' (peek >>= f) (peek >>= f') ts ts' := by
  rcases hnear with hbehind | ⟨hlike, -, -⟩
  · have hself : Option.Rel Token.Alike ts.head? ts.head? := by
      cases ts.head? with
      | none => exact .none
      | some t => exact .some (.refl t)
    exact Tracks.behind (p := Parser.peek >>= f) (h _ hself) hbehind
  · exact h _ (hlike.head hahead)

theorem Follows.peek {f f' : Option Token → Parser α}
    (hnone : Follows rest rest' n n' (f none) (f' none))
    (hsome : ∀ t t', t.Alike t' → FollowsAhead rest rest' n n' (f (some t)) (f' (some t'))) :
    Follows rest rest' n n' (peek >>= f) (peek >>= f') := by
  intro ts ts' hnear
  refine Tracks.peek hahead hnear ?_
  intro o' hrel
  cases ts with
  | nil =>
    cases hrel
    exact hnone [] ts' hnear
  | cons t ts =>
    cases hrel with
    | some h => exact hsome _ _ h _ ts' hnear (List.cons_ne_nil t ts)

theorem FollowsAhead.skip {f f' : Unit → Parser α}
    (hf : Follows rest rest' (n - 1) (n' - 1) (f ()) (f' ())) :
    FollowsAhead rest rest' n n' (skip >>= f) (skip >>= f') := by
  intro ts ts' hnear hts
  exact Tracks.skip (hf _ _ (hnear.tail hts hahead))

/-- The same for a test of the next token. -/
theorem Tracks.test {test : Token → Bool} (htest : ∀ t t', t.Alike t' → test t = test t')
    {yes yes' no no' : Parser α} (hnear : Near rest rest' n n' ts ts')
    (hyes : ts.head?.any test = true → Tracks rest rest' yes yes' ts ts')
    (hno : Tracks rest rest' no no' ts ts') :
    Tracks rest rest' (Parser.peek >>= fun o => if o.any test then yes else no)
      (Parser.peek >>= fun o => if o.any test then yes' else no') ts ts' := by
  refine Tracks.peek hahead hnear ?_
  intro o' hrel
  rw [← any_eq_of_rel hrel htest]
  split
  · exact hyes ‹_›
  · exact hno

theorem Follows.test {test : Token → Bool} (htest : ∀ t t', t.Alike t' → test t = test t')
    {yes yes' no no' : Parser α} (hyes : FollowsAhead rest rest' n n' yes yes')
    (hno : Follows rest rest' n n' no no') :
    Follows rest rest' n n' (Parser.peek >>= fun o => if o.any test then yes else no)
      (Parser.peek >>= fun o => if o.any test then yes' else no') := by
  intro ts ts' hnear
  refine Tracks.test hahead htest hnear (fun h => hyes ts ts' hnear ?_) (hno ts ts' hnear)
  rintro rfl
  cases h

theorem sign_follows (text : String) (what : Expectation) :
    Follows rest rest' n n' (sign text what) (sign text what) := by
  refine Follows.test hahead (fun t t' h => h.isSign_eq text) ?_ (.fail what)
  exact FollowsAhead.skip hahead (Follows.pure ())

/-- A parser that works in rounds, each of which takes a token, has rounds enough if there are as
many as tokens: where no token is ahead it does the same with any number of rounds. -/
theorem Follows.rounds {ι : Type} (p p' : Nat → ι → Parser α) (answer : ι → α)
    (hnil : ∀ r i, p r i [] = .ok (answer i, [])) (hnil' : ∀ r i, p' r i [] = .ok (answer i, []))
    (hzero : ∀ i, p 0 i = Pure.pure (answer i))
    (hstep : ∀ r r', (∀ i, Follows rest rest' (min n (r + 1)) (min n' (r' + 1)) (p r i) (p' r' i)) →
      ∀ i, Follows rest rest' (min n (r + 2)) (min n' (r' + 2)) (p (r + 1) i) (p' (r' + 1) i))
    (r : Nat) :
    ∀ r' i, Follows rest rest' (min n (r + 1)) (min n' (r' + 1)) (p r i) (p' r' i) := by
  have hends : ∀ r r' i ts', Like rest rest' [] ts' → Tracks rest rest' (p r i) (p' r' i) [] ts' := by
    intro r r' i ts' hlike
    obtain rfl := (hlike.eq_nil_iff hahead).mp rfl
    unfold Tracks
    rw [hnil, hnil']
    exact ⟨List.suffix_rfl, Or.inr ⟨rfl, hlike⟩⟩
  induction r with
  | zero =>
    intro r' i ts ts' hnear
    rcases hnear with hbehind | ⟨hlike, hlength, -⟩
    · rw [hzero]
      exact ⟨List.suffix_rfl, Or.inl hbehind⟩
    · obtain rfl : ts = [] := List.eq_nil_of_length_eq_zero (by omega)
      exact hends 0 r' i ts' hlike
  | succ r ih =>
    intro r' i
    cases r' with
    | succ r' => exact hstep r r' (ih r') i
    | zero =>
      intro ts ts' hnear
      rcases hnear with hbehind | ⟨hlike, -, hlength⟩
      · exact (hstep r 0 (ih 0) i ts ts' (Or.inl hbehind)).behind hbehind
      · obtain rfl : ts' = [] := List.eq_nil_of_length_eq_zero (by omega)
        obtain rfl := (hlike.eq_nil_iff hahead).mpr rfl
        exact hends (r + 1) 0 i [] hlike

theorem identifier_follows (what : Expectation) :
    Follows rest rest' n n' (identifier what) (identifier what) := by
  refine Follows.peek hahead (.fail what) ?_
  intro t t' halike
  by_cases hkind : t.kind = .identifier
  · simp only [← halike.1, hkind, if_true, ← halike.text_eq (by simp [hkind])]
    exact FollowsAhead.skip hahead (.pure t.text)
  · simp only [← halike.1, hkind, if_false]
    exact (Follows.fail what).ahead

theorem literal_follows : Follows rest rest' n n' literal literal := by
  refine Follows.peek hahead (.fail _) ?_
  intro t t' halike
  cases hkind : t.kind with
  | int =>
    simp only [← halike.1, hkind, ← halike.text_eq (by simp [hkind])]
    cases readInt 32 t.text with
    | ok _ => exact FollowsAhead.skip hahead (.pure _)
    | error _ => exact (Follows.fail _).ahead
  | double | boolean =>
    simp only [← halike.1, hkind, ← halike.text_eq (by simp [hkind])]
    exact FollowsAhead.skip hahead (.pure _)
  | string =>
    simp only [← halike.1, hkind, ← halike.unquote_eq hkind]
    cases unquote t.text with
    | ok _ => exact FollowsAhead.skip hahead (.pure _)
    | error cause => exact (Follows.stop cause).ahead
  | unknown | keyword | punctuation | identifier | unnamed =>
    simp only [← halike.1, hkind]
    exact (Follows.fail _).ahead

/-- A sign takes a token, so a bound less is needed behind it. -/
theorem sign_bind_follows {text : String} {what : Expectation} {f f' : Unit → Parser α}
    (hf : Follows rest rest' (n - 1) (n' - 1) (f ()) (f' ())) :
    Follows rest rest' n n' (sign text what >>= f) (sign text what >>= f') := by
  have heq : ∀ f : Unit → Parser α, (sign text what >>= f) =
      (Parser.peek >>= fun o => if o.any fun t => t.isSign text then Parser.skip >>= f
        else Parser.fail what) := by
    intro f
    funext ts
    rw [peek_bind]
    unfold Parser.sign
    rw [bind_run, seesSign_bind]
    split <;> rfl
  rw [heq f, heq f']
  exact Follows.test hahead (fun t t' h => h.isSign_eq text) (FollowsAhead.skip hahead hf) (.fail what)

variable {inner inner' : Parser Expr}

theorem primary_follows (hinner : Follows rest rest' (n - 1) (n' - 1) inner inner') :
    Follows rest rest' n n' (primary inner) (primary inner') := by
  refine Follows.peek hahead (literal_follows hahead) ?_
  intro t t' halike
  simp only [← halike.isSign_eq "(", ← halike.1]
  by_cases hsign : t.isSign "(" = true
  · simp only [hsign, if_true]
    refine FollowsAhead.skip hahead (hinner.bind fun e => ?_)
    exact (sign_follows hahead ")" _).bind fun _ => .pure _
  · simp only [hsign]
    by_cases hkind : t.kind = .identifier
    · simp only [hkind, if_true, ← halike.text_eq (by simp [hkind])]
      exact FollowsAhead.skip hahead (.pure _)
    · simp only [hkind, if_false]
      exact (literal_follows hahead).ahead

omit hahead in
theorem unaryOp?_eq {t t' : Token} (h : t.Alike t') : unaryOp? t = unaryOp? t' := by
  simp [unaryOp?, h.isSign_eq]

omit hahead in
/-- One step of reading operators in front of an operand. -/
theorem unary_run (ts : List Token) :
    unary inner ts = (peek >>= fun o => match o.bind unaryOp? with
      | some op => skip >>= fun _ => unary inner >>= fun e => pure (.unary op e)
      | none => primary inner : Parser Expr) ts := by
  rw [peek_bind]
  cases ts with
  | nil => rfl
  | cons t ts =>
    simp only [List.head?_cons, Option.bind_some]
    rw [unary]
    cases unaryOp? t with
    | none => rfl
    | some op =>
      dsimp only
      rw [skip_bind, bind_run, List.tail_cons]
      cases unary inner ts <;> rfl

theorem unary_follows (hinner : Follows rest rest' (n - 1) (n' - 1) inner inner') :
    Follows rest rest' n n' (unary inner) (unary inner') := by
  intro ts
  induction ts with
  | nil =>
    intro ts' hnear
    refine Tracks.congr (Tracks.peek hahead hnear ?_) (unary_run []) (unary_run ts')
    intro o' hrel
    cases hrel
    exact primary_follows hahead hinner [] ts' hnear
  | cons t ts ih =>
    intro ts' hnear
    refine Tracks.congr (Tracks.peek hahead hnear ?_) (unary_run (t :: ts)) (unary_run ts')
    intro o' hrel
    cases hrel with
    | some halike =>
      simp only [List.head?_cons, Option.bind_some, ← unaryOp?_eq halike]
      cases unaryOp? t with
      | none => exact primary_follows hahead hinner (t :: ts) ts' hnear
      | some op =>
        have htail := hnear.tail (List.cons_ne_nil t ts) hahead
        have hunary := ih ts'.tail (htail.mono (by omega) (by omega))
        apply Tracks.skip
        exact hunary.bind fun e _ _ _ hnext => .pure (Expr.unary op e) hnext

omit hahead in
theorem binaryOp?_eq {ops : List BinaryOp} {t t' : Token} (h : t.Alike t') :
    binaryOp? ops t = binaryOp? ops t' := by
  simp [binaryOp?, h.isSign_eq]

variable {operand operand' : Parser Expr}

theorem chainFrom_follows (hoperand : Follows rest rest' n n' operand operand')
    (ops : List BinaryOp) (rounds rounds' : Nat) (left : Expr) :
    Follows rest rest' (min n (rounds + 1)) (min n' (rounds' + 1))
      (chainFrom operand ops rounds left) (chainFrom operand' ops rounds' left) := by
  refine Follows.rounds hahead (chainFrom operand ops) (chainFrom operand' ops) id
    ?_ ?_ (fun _ => rfl) ?_ rounds rounds' left
  · intro r left
    cases r <;> rfl
  · intro r left
    cases r <;> rfl
  · intro r r' ih left
    refine Follows.peek hahead (.pure left) ?_
    intro t t' halike
    simp only [Option.bind_some, ← binaryOp?_eq halike]
    cases binaryOp? ops t with
    | none => exact (Follows.pure left).ahead
    | some op =>
      refine FollowsAhead.skip hahead (Follows.bind (hoperand.mono (by omega) (by omega)) ?_)
      intro right
      exact (ih (.binary op left right)).mono (by omega) (by omega)

theorem chain_follows (hoperand : Follows rest rest' n n' operand operand')
    (ops : List BinaryOp) : Follows rest rest' n n' (chain operand ops) (chain operand' ops) := by
  intro ts ts' hnear
  have hrounds : Near rest rest' (min n (ts.length + 1)) (min n' (ts'.length + 1)) ts ts' :=
    hnear.imp_right fun h => ⟨h.1, by omega, by omega⟩
  exact Follows.bind (hoperand.mono (by omega) (by omega))
    (chainFrom_follows hahead hoperand ops ts.length ts'.length) ts ts' hrounds

theorem operation_follows (hinner : Follows rest rest' (n - 1) (n' - 1) inner inner') :
    Follows rest rest' n n' (operation inner) (operation inner') := by
  have hfold : ∀ (levels : List (List BinaryOp)) (operand operand' : Parser Expr),
      Follows rest rest' n n' operand operand' →
      Follows rest rest' n n' (levels.foldl chain operand)
        (levels.foldl chain operand') := by
    intro levels
    induction levels with
    | nil => exact fun _ _ hoperand => hoperand
    | cons ops levels ih =>
      intro operand operand' hoperand
      exact ih _ _ (chain_follows hahead hoperand ops)
  exact hfold levels _ _ (unary_follows hahead hinner)

theorem assignment_follows (hinner : Follows rest rest' (n - 1) (n' - 1) inner inner') :
    Follows rest rest' n n' (assignment inner) (assignment inner') := by
  refine (operation_follows hahead hinner).bind fun left => ?_
  refine Follows.test hahead (fun t t' h => h.isSign_eq "=") ?_ (.pure left)
  cases left with
  | name target => exact FollowsAhead.skip hahead (hinner.bind fun value => .pure _)
  | _ => exact (Follows.fail _).ahead

theorem expr_follows (n n' : Nat) : Follows rest rest' n n' (expr n) (expr n') := by
  induction n generalizing n' with
  | zero =>
    intro ts ts' hnear
    rcases hnear with hbehind | ⟨-, hlength, -⟩
    · exact ⟨List.suffix_rfl, Or.inl hbehind⟩
    · omega
  | succ n ih =>
    have hsucc : ∀ m, Follows rest rest' (n + 1) (m + 1) (expr (n + 1))
        (expr (m + 1)) :=
      fun m => assignment_follows hahead (ih m)
    cases n' with
    | zero => exact (hsucc n).zero_right
    | succ n' => exact hsucc n'

theorem expression_follows : Follows rest rest' n n' expression expression := by
  intro ts ts' hnear
  refine expr_follows hahead (ts.length + 1) (ts'.length + 1) ts ts' ?_
  exact hnear.imp_right fun h => ⟨h.1, by omega, by omega⟩

omit hahead in
theorem isType_eq {t t' : Token} (h : t.Alike t') :
    (t.kind = .keyword && isTypeWord t.text : Bool) =
      (t'.kind = .keyword && isTypeWord t'.text : Bool) := by
  by_cases hkind : t.kind = .keyword
  · rw [← h.1, h.text_eq (by simp [hkind])]
  · simp [← h.1, hkind]

omit hahead in
theorem startsExpression_eq {t t' : Token} (h : t.Alike t') :
    startsExpression t = startsExpression t' := by
  unfold startsExpression
  rw [← h.1, ← unaryOp?_eq h]
  cases hkind : t.kind with
  | punctuation => simp only [h.text_eq (by simp [hkind])]
  | _ => rfl

/-- A declaration is read where a type word is ahead, which is the same in both. -/
theorem declaration_tracks (hnear : Near rest rest' n n' ts ts')
    (htype : (ts.head?.any fun t => t.kind = .keyword && isTypeWord t.text) = true) :
    Tracks rest rest' declaration declaration ts ts' := by
  obtain ⟨t, ts, rfl, ht, -⟩ := exists_of_sees_type htype
  have hkind : t.kind = .keyword := congrArg Prod.fst ht
  refine Tracks.peek hahead hnear ?_
  intro o' hrel
  cases hrel with
  | some halike =>
    simp only [List.head?_cons, Option.map_some, Option.getD_some,
      ← halike.text_eq (by simp [hkind])]
    refine FollowsAhead.skip hahead ?_ _ _ hnear (List.cons_ne_nil t ts)
    refine (identifier_follows hahead _).bind fun name => ?_
    refine Follows.test hahead (fun t t' h => h.isSign_eq "=") (FollowsAhead.skip hahead ?_) ?_
    · refine (expression_follows hahead).bind fun initial => ?_
      exact (sign_follows hahead ";" _).bind fun _ => .pure _
    · exact (sign_follows hahead ";" _).bind fun _ => .pure _

theorem expressionStatement_follows :
    Follows rest rest' n n' expressionStatement expressionStatement :=
  (expression_follows hahead).bind fun _ => (sign_follows hahead ";" _).bind fun _ => .pure _

theorem condition_follows (word : Keyword) :
    Follows rest rest' n n' (condition word) (condition word) := by
  refine (sign_follows hahead "(" _).bind fun _ => ?_
  refine Follows.test hahead (fun _ _ => startsExpression_eq) (Follows.ahead ?_) (.fail _)
  exact (expression_follows hahead).bind fun _ => (sign_follows hahead ")" _).bind fun _ => .pure _

theorem optionalBefore_follows (text : String) :
    Follows rest rest' n n' (optionalBefore text) (optionalBefore text) :=
  Follows.test hahead (fun _ _ h => h.isSign_eq text) (Follows.pure _).ahead
    (expression_follows hahead)

theorem loopInitial_follows : Follows rest rest' n n' loopInitial loopInitial := by
  refine Follows.test hahead (fun t t' h => h.isSign_eq ";") ?_ ?_
  · exact FollowsAhead.skip hahead (.pure _)
  · intro ts ts' hnear
    exact Tracks.test hahead (fun _ _ => isType_eq) hnear (declaration_tracks hahead hnear)
      (expressionStatement_follows hahead ts ts' hnear)

theorem printStatement_follows : FollowsAhead rest rest' n n' printStatement printStatement := by
  refine FollowsAhead.skip hahead ((expression_follows hahead).bind fun _ => ?_)
  exact (sign_follows hahead ";" _).bind fun _ => .pure _

section

variable {statement statement' : Parser Stmt}

theorem declarationOr_follows (hstatement : Follows rest rest' n n' statement statement') :
    Follows rest rest' n n' (declarationOr statement) (declarationOr statement') := by
  intro ts ts' hnear
  exact Tracks.test hahead (fun _ _ => isType_eq) hnear (declaration_tracks hahead hnear)
    (hstatement ts ts' hnear)

theorem conditional_follows (hstatement : Follows rest rest' (n - 1) (n' - 1) statement statement') :
    FollowsAhead rest rest' n n' (conditional statement) (conditional statement') := by
  refine FollowsAhead.skip hahead ((condition_follows hahead _).bind fun c => ?_)
  refine hstatement.bind fun consequent => ?_
  refine Follows.test hahead (fun t t' h => h.is_eq (by decide) _) ?_ (.pure _)
  refine FollowsAhead.skip hahead (Follows.bind ?_ fun alternative => .pure _)
  exact hstatement.mono (by omega) (by omega)

theorem whileLoop_follows (hstatement : Follows rest rest' (n - 1) (n' - 1) statement statement') :
    FollowsAhead rest rest' n n' (whileLoop statement) (whileLoop statement') :=
  FollowsAhead.skip hahead
    ((condition_follows hahead _).bind fun _ => hstatement.bind fun _ => .pure _)

theorem forLoop_follows (hstatement : Follows rest rest' (n - 1) (n' - 1) statement statement') :
    FollowsAhead rest rest' n n' (forLoop statement) (forLoop statement') := by
  refine FollowsAhead.skip hahead ((sign_follows hahead "(" _).bind fun _ => ?_)
  refine (loopInitial_follows hahead).bind fun initial => ?_
  refine (optionalBefore_follows hahead ";").bind fun c => ?_
  refine (sign_follows hahead ";" _).bind fun _ => ?_
  refine (optionalBefore_follows hahead ")").bind fun increment => ?_
  exact (sign_follows hahead ")" _).bind fun _ => hstatement.bind fun body => .pure _

omit hahead in
/-- Where no token is ahead nothing is repeated. -/
theorem repeatWhile_nil {more : List Token → Bool} (hend : more [] = false) (item : Parser α)
    (rounds : Nat) : repeatWhile more item rounds [] = .ok ([], []) := by
  cases rounds with
  | zero => rfl
  | succ rounds =>
    unfold repeatWhile
    rw [bind_of_ok (get_run []), hend]
    rfl

omit hahead in
/-- One round of a repetition that looks at the next token. -/
theorem repeatWhile_run {more : List Token → Bool} {test : Token → Bool}
    (hmore : ∀ ts, more ts = ts.head?.any test) (item : Parser α) (rounds : Nat)
    (ts : List Token) :
    repeatWhile more item (rounds + 1) ts =
      (peek >>= fun o => if o.any test then item >>= fun first =>
        repeatWhile more item rounds >>= fun others => Pure.pure (first :: others)
        else Pure.pure [] : Parser (List α)) ts := by
  rw [peek_bind, ← hmore ts]
  rfl

/-- Repetition goes on alike if each item takes a token. -/
theorem repeatWhile_follows (more : List Token → Bool) (test : Token → Bool)
    (hmore : ∀ ts, more ts = ts.head?.any test) (htest : ∀ t t', t.Alike t' → test t = test t')
    {item item' : Parser α} (hitem : Follows rest rest' n n' item item')
    (htakes : ∀ ts a mid, item ts = .ok (a, mid) → mid.length < ts.length) (rounds rounds' : Nat) :
    Follows rest rest' (min n (rounds + 1)) (min n' (rounds' + 1))
      (repeatWhile more item rounds) (repeatWhile more item' rounds') := by
  have hend : more [] = false := hmore []
  refine Follows.rounds hahead (fun r (_ : Unit) => repeatWhile more item r)
    (fun r _ => repeatWhile more item' r) (fun _ => []) (fun r _ => repeatWhile_nil hend item r)
    (fun r _ => repeatWhile_nil hend item' r) (fun _ => rfl) ?_ rounds rounds' ()
  intro r r' ih _ ts ts' hnear
  have hdone := Follows.pure ([] : List α) ts ts' hnear
  refine Tracks.congr (Tracks.test hahead htest hnear ?_ hdone) (repeatWhile_run hmore item r ts)
    (repeatWhile_run hmore item' r' ts')
  intro _
  refine (hitem ts ts' (hnear.mono (by omega) (by omega))).bind ?_
  intro first mid mid' hfirst hnext
  refine Follows.bind (ih ()) (fun others => .pure _) mid mid' ?_
  have hshorter := htakes ts first mid hfirst
  rcases hnext with hpast | hlike
  · exact Or.inl hpast
  · rcases hnear with hbehind | ⟨hlikes, hlength, hlength'⟩
    · exact Or.inl (by omega)
    · have := hlike.length
      have := hlikes.length
      exact Or.inr ⟨hlike, by omega, by omega⟩

omit hahead in
/-- A declaration or statement takes a token. -/
theorem declarationOr_shorter (hreads : ReadsStmt statement) (ts : List Token) (s : Stmt)
    (mid : List Token) (h : declarationOr statement ts = .ok (s, mid)) :
    mid.length < ts.length := by
  obtain ⟨hwf, htakes⟩ := declarationOr_reads hreads h
  have := htakes.length
  have := hwf.length_pos
  omega

theorem block_follows (hreads : ReadsStmt statement)
    (hstatement : Follows rest rest' (n - 1) (n' - 1) statement statement') :
    Follows rest rest' n n' (block statement) (block statement') := by
  refine sign_bind_follows hahead ?_
  intro ts ts' hnear
  have hrounds : Near rest rest' (min (n - 1) (ts.length + 1)) (min (n' - 1) (ts'.length + 1))
      ts ts' :=
    hnear.imp_right fun h => ⟨h.1, by omega, by omega⟩
  have hbody := repeatWhile_follows hahead insideBlock _ (fun _ => rfl)
    (fun t t' h => by rw [h.isSign_eq]) (declarationOr_follows hahead hstatement)
    (declarationOr_shorter hreads) ts.length ts'.length
  have hclose : ∀ {m m' : Nat} (body : List Stmt), Follows rest rest' m m'
      (sign "\x7d" .blockEnd >>= fun _ => pure (Stmt.block body))
      (sign "\x7d" .blockEnd >>= fun _ => pure (Stmt.block body)) :=
    fun body => (sign_follows hahead _ _).bind fun _ => .pure _
  exact (hbody.bind hclose ts ts' hrounds).congr rfl rfl

end

theorem stmt_follows (n n' : Nat) : Follows rest rest' n n' (stmt n) (stmt n') := by
  induction n generalizing n' with
  | zero =>
    intro ts ts' hnear
    rcases hnear with hbehind | ⟨-, hlength, -⟩
    · exact ⟨List.suffix_rfl, Or.inl hbehind⟩
    · omega
  | succ n ih =>
    have hsucc : ∀ m, Follows rest rest' (n + 1) (m + 1) (stmt (n + 1))
        (stmt (m + 1)) := by
      intro m
      have hblock : Follows rest rest' (n + 1) (m + 1) (block (stmt n)) (block (stmt m)) :=
        block_follows hahead (stmt_reads n) (ih m)
      have hword : ∀ (w : Keyword) (t t' : Token), t.Alike t' →
          t.is .keyword w.spelling = t'.is .keyword w.spelling :=
        fun w t t' h => h.is_eq (by decide) _
      refine Follows.test hahead (hword .ug) (conditional_follows hahead (ih m)) ?_
      refine Follows.test hahead (hword .samtang) (whileLoop_follows hahead (ih m)) ?_
      refine Follows.test hahead (hword .alang) (forLoop_follows hahead (ih m)) ?_
      refine Follows.test hahead (hword .imprentaGawas) (printStatement_follows hahead) ?_
      exact Follows.test hahead (fun t t' h => h.isSign_eq _)
        hblock.ahead (expressionStatement_follows hahead)
    cases n' with
    | zero => exact (hsucc n).zero_right
    | succ n' => exact hsucc n'

theorem statement_follows : Follows rest rest' n n' statement statement := by
  intro ts ts' hnear
  refine (stmt_follows hahead (ts.length + 1) (ts'.length + 1) ts ts' ?_).congr rfl rfl
  exact hnear.imp_right fun h => ⟨h.1, by omega, by omega⟩

theorem program_follows : Follows rest rest' n n' program program := by
  intro ts ts' hnear
  have hitem : Follows rest rest' (ts.length + 1) (ts'.length + 1) (declarationOr statement)
      (declarationOr statement) :=
    declarationOr_follows hahead (statement_follows hahead)
  refine repeatWhile_follows hahead _ (fun _ => true) ?_ (fun _ _ _ => rfl) hitem
    (declarationOr_shorter statement_reads) ts.length ts'.length ts ts' ?_
  · intro ts
    cases ts <;> rfl
  · exact hnear.imp_right fun h => ⟨h.1, by omega, by omega⟩

end

end Parser

end Binisaya
