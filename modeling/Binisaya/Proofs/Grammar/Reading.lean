import Binisaya.Proofs.Grammar.WellFormed
import Mathlib.Data.List.Forall2

/-!
# What a parser takes

`Takes ts rest pieces` says that what a parser took from `ts` when it left `rest` is spelled by
`pieces`.  Each primitive parser is described twice: by what follows from its success, and by the
input on which it succeeds.
-/

namespace Binisaya

/-- A string token begins and ends with a quote, and these are two. -/
def Token.HasQuotes (t : Token) : Prop :=
  t.kind = .string →
    2 ≤ t.text.utf8ByteSize ∧ t.text.toList.head? = some '"' ∧ t.text.toList.getLast? = some '"'

instance (t : Token) : Decidable t.HasQuotes :=
  inferInstanceAs (Decidable (t.kind = .string →
    2 ≤ t.text.utf8ByteSize ∧ t.text.toList.head? = some '"' ∧ t.text.toList.getLast? = some '"'))

/-- A token has the kind of a piece, and its text as well unless it is a string without its
quotes. -/
def Token.SpelledBy (t : Token) (piece : Lexeme) : Prop :=
  t.kind = piece.1 ∧ (t.HasQuotes → t.bare = piece)

/-- Tokens that are spelled by pieces are the pieces if all strings among them have their quotes. -/
theorem Token.map_bare_of_spelledBy {ts : List Token} {pieces : List Lexeme}
    (h : List.Forall₂ Token.SpelledBy ts pieces) (hquotes : ∀ t ∈ ts, t.HasQuotes) :
    ts.map Token.bare = pieces := by
  induction h with
  | nil => rfl
  | cons hhead _ ih =>
    rw [List.map_cons, hhead.2 (hquotes _ List.mem_cons_self),
      ih fun t ht => hquotes t (List.mem_cons_of_mem _ ht)]

/-- A piece that is no string is a token. -/
theorem Token.exists_bare_of_spelledBy {ts : List Token} {pieces : List Lexeme}
    (h : List.Forall₂ Token.SpelledBy ts pieces) {piece : Lexeme} (hmem : piece ∈ pieces)
    (hstring : piece.1 ≠ .string) : ∃ t ∈ ts, t.bare = piece := by
  induction h with
  | nil => cases hmem
  | @cons t _ _ _ hhead _ ih =>
    rcases List.mem_cons.mp hmem with rfl | hmem
    · have hquotes : t.HasQuotes := fun hkind => absurd (hhead.1.symm.trans hkind) hstring
      exact ⟨t, List.mem_cons_self, hhead.2 hquotes⟩
    · obtain ⟨t, ht, hbare⟩ := ih hmem
      exact ⟨t, List.mem_cons_of_mem _ ht, hbare⟩

/-- The tokens of `ts` before `rest` are spelled by `pieces`. -/
def Takes (ts rest : List Token) (pieces : List Lexeme) : Prop :=
  ∃ used, ts = used ++ rest ∧ List.Forall₂ Token.SpelledBy used pieces

namespace Takes

theorem refl (ts : List Token) : Takes ts ts [] := ⟨[], rfl, .nil⟩

theorem trans {ts mid rest : List Token} {first second : List Lexeme}
    (hfirst : Takes ts mid first) (hsecond : Takes mid rest second) :
    Takes ts rest (first ++ second) := by
  obtain ⟨used, rfl, hspelled⟩ := hfirst
  obtain ⟨used', rfl, hspelled'⟩ := hsecond
  exact ⟨used ++ used', by simp, List.rel_append hspelled hspelled'⟩

theorem one {t : Token} {piece : Lexeme} (h : t.bare = piece) (ts : List Token) :
    Takes (t :: ts) ts [piece] := by
  subst h
  exact ⟨[t], rfl, .cons ⟨rfl, fun _ => rfl⟩ .nil⟩

theorem cons {t : Token} {piece : Lexeme} {ts rest : List Token} {pieces : List Lexeme}
    (h : t.bare = piece) (hrest : Takes ts rest pieces) :
    Takes (t :: ts) rest (piece :: pieces) :=
  (one h ts).trans hrest

theorem snoc {t : Token} {piece : Lexeme} {ts rest : List Token} {pieces : List Lexeme}
    (hts : Takes ts (t :: rest) pieces) (h : t.bare = piece) :
    Takes ts rest (pieces ++ [piece]) :=
  hts.trans (one h rest)

theorem length {ts rest : List Token} {pieces : List Lexeme} (h : Takes ts rest pieces) :
    ts.length = pieces.length + rest.length := by
  obtain ⟨used, rfl, hspelled⟩ := h
  rw [List.length_append, hspelled.length_eq]

end Takes

theorem Token.isSign_iff {t : Token} {text : String} :
    t.isSign text = true ↔ t.bare = .sign text := by
  simp [isSign, is, bare, Lexeme.sign]

theorem Token.is_word_iff {t : Token} {w : Keyword} :
    t.is .keyword w.spelling = true ↔ t.bare = .word w := by
  simp [is, bare, Lexeme.word]

namespace Parser

variable {α β : Type}

theorem bind_run (p : Parser α) (f : α → Parser β) (ts : List Token) :
    (p >>= f) ts = (p ts).bind fun x => f x.1 x.2 := rfl

theorem bind_eq_ok {p : Parser α} {f : α → Parser β} {ts rest : List Token} {b : β}
    (h : (p >>= f) ts = .ok (b, rest)) :
    ∃ a mid, p ts = .ok (a, mid) ∧ f a mid = .ok (b, rest) := by
  rw [bind_run] at h
  cases hp : p ts with
  | error e =>
    rw [hp] at h
    cases h
  | ok x =>
    rw [hp] at h
    exact ⟨x.1, x.2, rfl, h⟩

theorem bind_of_ok {p : Parser α} {ts mid : List Token} {a : α} (h : p ts = .ok (a, mid))
    (f : α → Parser β) : (p >>= f) ts = f a mid := by
  rw [bind_run, h]
  rfl

theorem get_run (ts : List Token) : (get : Parser (List Token)) ts = .ok (ts, ts) := rfl

theorem fail_ne_ok (what : Expectation) (ts : List Token) (x : α × List Token) :
    (fail what : Parser α) ts ≠ .ok x := nofun

theorem peek_bind (f : Option Token → Parser α) (ts : List Token) :
    (peek >>= f) ts = f ts.head? ts := rfl

theorem skip_bind (f : Unit → Parser α) (ts : List Token) :
    (skip >>= f) ts = f () ts.tail := rfl

theorem seesSign_bind (text : String) (f : Bool → Parser α) (ts : List Token) :
    (seesSign text >>= f) ts = f (ts.head?.any fun t => t.isSign text) ts := rfl

theorem seesWord_bind (w : Keyword) (f : Bool → Parser α) (ts : List Token) :
    (seesWord w >>= f) ts = f (ts.head?.any fun t => t.is .keyword w.spelling) ts := rfl

theorem seesType_bind (f : Bool → Parser α) (ts : List Token) :
    (seesType >>= f) ts =
      f (ts.head?.any fun t => t.kind = .keyword && isTypeWord t.text) ts := rfl

/-- A sign that is ahead is the first token. -/
theorem exists_of_sees_sign {ts : List Token} {text : String}
    (h : (ts.head?.any fun t => t.isSign text) = true) :
    ∃ t rest, ts = t :: rest ∧ t.bare = .sign text := by
  cases ts with
  | nil => simp at h
  | cons t rest => exact ⟨t, rest, rfl, Token.isSign_iff.mp h⟩

/-- A word that is ahead is the first token. -/
theorem exists_of_sees_word {ts : List Token} {w : Keyword}
    (h : (ts.head?.any fun t => t.is .keyword w.spelling) = true) :
    ∃ t rest, ts = t :: rest ∧ t.bare = .word w := by
  cases ts with
  | nil => simp at h
  | cons t rest => exact ⟨t, rest, rfl, Token.is_word_iff.mp h⟩

theorem sign_eq_ok {text : String} {what : Expectation} {ts rest : List Token} {u : Unit}
    (h : sign text what ts = .ok (u, rest)) : ∃ t, ts = t :: rest ∧ t.bare = .sign text := by
  unfold sign at h
  rw [seesSign_bind] at h
  split at h
  · rename_i hsees
    obtain ⟨t, rest', rfl, ht⟩ := exists_of_sees_sign hsees
    cases h
    exact ⟨t, rfl, ht⟩
  · exact absurd h (fail_ne_ok _ _ _)

theorem sign_cons {t : Token} {text : String} (h : t.bare = .sign text) (what : Expectation)
    (ts : List Token) : sign text what (t :: ts) = .ok ((), ts) := by
  unfold sign
  rw [seesSign_bind, List.head?_cons, Option.any_some, Token.isSign_iff.mpr h]
  rfl

theorem identifier_eq_ok {what : Expectation} {ts rest : List Token} {name : String}
    (h : identifier what ts = .ok (name, rest)) :
    ∃ t, ts = t :: rest ∧ t.bare = (.identifier, name) := by
  unfold identifier at h
  rw [peek_bind] at h
  cases ts with
  | nil => exact absurd h (fail_ne_ok _ _ _)
  | cons t ts =>
    simp only [List.head?_cons] at h
    split at h
    · rename_i hkind
      cases h
      exact ⟨t, rfl, by simp [Token.bare, hkind]⟩
    · exact absurd h (fail_ne_ok _ _ _)

theorem identifier_cons {t : Token} {name : String} (h : t.bare = (.identifier, name))
    (what : Expectation) (ts : List Token) : identifier what (t :: ts) = .ok (name, ts) := by
  obtain ⟨hkind, rfl⟩ : t.kind = .identifier ∧ t.text = name := by
    simpa [Token.bare] using h
  unfold identifier
  rw [peek_bind]
  simp only [List.head?_cons, hkind, if_true]
  rfl

end Parser

end Binisaya
