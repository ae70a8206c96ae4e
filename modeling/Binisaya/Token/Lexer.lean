import Binisaya.Text.Blank
import Binisaya.Text.Utf8
import Binisaya.Token.Classify

/-!
# From text to tokens

`scan` cuts a text into tokens.  Blanks separate tokens and are dropped.  A quote begins a string
that runs to the next quote, or to the end of the text; a sign is two characters long where the two
make a sign; every other token is a bare word.  No text is refused: what fits no kind is an
`unknown` token.

`Lexer` does the same with one character at a time, over a reader that may fail.  To it a failure is
the end of the text like any other, but the first one that it meets is kept.
-/

namespace Binisaya

/-- Characters of a bare word. -/
def isBare (c : Char) : Bool := c != '"' && !isSignChar c && !isBlank c

/-- The string that a quote in front of `cs` begins, and the text after it.  A string that is not
closed is the rest of the text without the blanks at its end. -/
def quotedLexeme (cs : List Char) : List Char × List Char :=
  match cs.dropWhile (· != '"') with
  | [] => (trimEnd ('"' :: cs), [])
  | q :: rest => ('"' :: cs.takeWhile (· != '"') ++ [q], rest)

/-- The sign that `c :: cs` begins with, and the text after it. -/
def signLexeme (c : Char) : List Char → List Char × List Char
  | [] => ([c], [])
  | d :: cs => if isSignText (String.ofList [c, d]) then ([c, d], cs) else ([c], d :: cs)

/-- The lexeme that `c :: cs` begins with, where `c` is no blank, and the text after it. -/
def lexeme (c : Char) (cs : List Char) : List Char × List Char :=
  if c = '"' then quotedLexeme cs
  else if isSignChar c then signLexeme c cs
  else (c :: cs.takeWhile isBare, cs.dropWhile isBare)

/-- A lexeme takes at least its first character. -/
theorem length_lexeme_le (c : Char) (cs : List Char) :
    (lexeme c cs).2.length ≤ cs.length := by
  unfold lexeme
  split
  · unfold quotedLexeme
    have := (cs.dropWhile_suffix (· != '"')).length_le
    split
    · simp
    · rename_i h
      rw [h] at this
      simp at this ⊢
      omega
  · split
    · unfold signLexeme
      split
      · simp
      · split <;> simp
    · exact (cs.dropWhile_suffix isBare).length_le

/-- The token with the given text at the given place. -/
def Token.ofText (location : Location) (text : List Char) : Token :=
  ⟨classify (String.ofList text), String.ofList text, some location⟩

/-- The tokens of a text that begins at the given place. -/
def scan (location : Location) : List Char → List Token
  | [] => []
  | c :: cs =>
    if isBlank c then scan (location.advance c) cs
    else
      Token.ofText location (lexeme c cs).1 ::
        scan (location.advanceAll (lexeme c cs).1) (lexeme c cs).2
termination_by cs => cs.length
decreasing_by
  · simp
  · have := length_lexeme_le c cs
    simp only [List.length_cons]
    omega

/-- The tokens of a whole text. -/
def tokenize (text : List Char) : List Token := scan .start text

/-- A source of bytes: the pieces it delivers, and the failure it reports after them, if it does
not simply end.  Pieces may be empty, any number of them in a row: that a buffer in front of the
source loses patience after a hundred empty pieces is left out. -/
structure Reader where
  chunks : List (List UInt8)
  failure : Option String
  deriving DecidableEq, Repr

namespace Reader

/-- The characters that a reader delivers.  Where the pieces are cut does not matter. -/
def chars (r : Reader) : List Char := Utf8.decode r.chunks.flatten

end Reader

/-- A lexer at work: the text that it has not read, what its reader reports after that, the first
failure that it has met, the place it has reached, and the tokens found so far. -/
structure Lexer where
  unread : List Char
  ending : Option String
  failure : Option String
  location : Location
  tokens : List Token
  deriving DecidableEq, Repr

namespace Lexer

/-- What a token can be at its first character. -/
inductive Mode where
  | string
  | sign
  | bare
  deriving DecidableEq, Repr

/-- A lexer that has read nothing. -/
def ofReader (r : Reader) : Lexer := ⟨r.chars, r.failure, none, .start, []⟩

/-- Asks for a character where there is none.  The first failure that the reader reports is kept. -/
def meetEnd (l : Lexer) : Lexer := { l with failure := l.failure <|> l.ending }

/-- The next character, which is not taken. -/
def peek (l : Lexer) : Option Char × Lexer :=
  match l.unread with
  | [] => (none, l.meetEnd)
  | c :: _ => (some c, l)

/-- Takes the next character. -/
def next (l : Lexer) : Option Char × Lexer :=
  match l.unread with
  | [] => (none, l.meetEnd)
  | c :: cs => (some c, { l with unread := cs, location := l.location.advance c })

@[simp] theorem peek_unread (l : Lexer) : l.peek.2.unread = l.unread := by
  unfold peek
  split <;> rfl

@[simp] theorem next_unread (l : Lexer) : l.next.2.unread = l.unread.tail := by
  unfold next meetEnd
  split <;> simp_all

/-- A character that is ahead is not taken. -/
theorem peek_eq_some {l seen : Lexer} {c : Char} (h : l.peek = (some c, seen)) :
    seen = l ∧ ∃ cs, l.unread = c :: cs := by
  unfold peek at h
  split at h
  · cases h
  · next cs hunread =>
    cases h
    exact ⟨rfl, cs, hunread⟩

/-- There is less to read behind a character that is taken. -/
theorem length_next_lt {l seen : Lexer} {c : Char} (h : l.peek = (some c, seen)) :
    seen.next.2.unread.length < l.unread.length := by
  obtain ⟨rfl, cs, hunread⟩ := peek_eq_some h
  simp [hunread]

theorem length_lt_of_next {l after : Lexer} {c : Char} (h : l.next = (some c, after)) :
    after.unread.length < l.unread.length := by
  unfold next at h
  split at h
  · cases h
  · next hunread =>
    cases h
    simp [hunread]

/-- Adds the token with the given text at the given place, unless the text is empty. -/
def emit (start : Location) (text : List Char) (l : Lexer) : Lexer :=
  if text.isEmpty then l else { l with tokens := l.tokens ++ [Token.ofText start text] }

@[simp] theorem emit_unread (start : Location) (text : List Char) (l : Lexer) :
    (l.emit start text).unread = l.unread := by
  unfold emit
  split <;> rfl

/-- Passes over blanks.  The answer is what begins behind them, if anything does. -/
def boundary (l : Lexer) : Option Mode × Lexer :=
  match _h : l.peek with
  | (none, seen) => (none, seen)
  | (some c, seen) =>
    if c = '"' then (some .string, seen)
    else if isSignChar c then (some .sign, seen)
    else if isBlank c then boundary seen.next.2
    else (some .bare, seen)
termination_by l.unread.length
decreasing_by exact length_next_lt _h

/-- Takes the characters of a bare word. -/
def takeBare (l : Lexer) : List Char × Lexer :=
  match _h : l.peek with
  | (none, seen) => ([], seen)
  | (some c, seen) =>
    if isBare c then
      let others := takeBare seen.next.2
      (c :: others.1, others.2)
    else ([], seen)
termination_by l.unread.length
decreasing_by exact length_next_lt _h

/-- Takes characters up to and with the next quote, or, if there is none, all.  The answer also says
whether there is one. -/
def takeQuoted (l : Lexer) : (List Char × Bool) × Lexer :=
  match _h : l.next with
  | (none, after) => (([], false), after)
  | (some c, after) =>
    if c = '"' then (([c], true), after)
    else
      let others := takeQuoted after
      ((c :: others.1.1, others.1.2), others.2)
termination_by l.unread.length
decreasing_by exact length_lt_of_next _h

/-- Reads a bare word. -/
def readBare (l : Lexer) : Lexer :=
  let word := l.takeBare
  word.2.emit l.location word.1

/-- Reads a string, of which the first quote is ahead.  If it is not closed, it is all that is left
but the blanks at the end. -/
def readString (l : Lexer) : Lexer :=
  let quote := l.next
  let body := quote.2.takeQuoted
  let text := quote.1.toList ++ body.1.1
  body.2.emit l.location (if body.1.2 then text else trimEnd text)

/-- Reads a sign, of which the first character is ahead. -/
def readSign (l : Lexer) : Lexer :=
  match l.next with
  | (none, after) => after
  | (some c, after) =>
    match after.peek with
    | (none, seen) => seen.emit l.location [c]
    | (some d, seen) =>
      if isSignText (String.ofList [c, d]) then seen.next.2.emit l.location [c, d]
      else seen.emit l.location [c]

/-- Reads a token of which the first character is ahead. -/
def read (l : Lexer) : Mode → Lexer
  | .string => l.readString
  | .sign => l.readSign
  | .bare => l.readBare

/-- A token is read at a boundary only if there is something to read, and a bare word only if it
begins with one of its characters. -/
theorem boundary_eq_some {l after : Lexer} {mode : Mode} (h : l.boundary = (some mode, after)) :
    ∃ c cs, after.unread = c :: cs ∧ cs.length < l.unread.length ∧
      (mode = .bare → isBare c = true) := by
  fun_induction boundary l with
  | case1 => cases h
  | case2 l seen hpeek | case3 l c seen hpeek | case5 l c seen hpeek =>
    obtain ⟨rfl, cs, hunread⟩ := peek_eq_some hpeek
    cases h
    exact ⟨_, cs, hunread, by simp [hunread], by simp_all [isBare]⟩
  | case4 l c seen hpeek _ _ _ ih =>
    obtain ⟨d, ds, hafter, hlength, hbare⟩ := ih h
    exact ⟨d, ds, hafter, Nat.lt_trans hlength (length_next_lt hpeek), hbare⟩

theorem length_takeBare_le (l : Lexer) : l.takeBare.2.unread.length ≤ l.unread.length := by
  fun_induction takeBare l with
  | case1 l seen hpeek | case3 l c seen hpeek =>
    have hunread := l.peek_unread
    rw [hpeek] at hunread
    exact Nat.le_of_eq (congrArg List.length hunread)
  | case2 l c seen hpeek _ others ih => exact Nat.le_trans ih (Nat.le_of_lt (length_next_lt hpeek))

theorem length_takeQuoted_le (l : Lexer) : l.takeQuoted.2.unread.length ≤ l.unread.length := by
  fun_induction takeQuoted l with
  | case1 l after hnext | case2 l after hnext =>
    have hunread : after.unread = l.unread.tail := by rw [← next_unread, hnext]
    rw [hunread, List.length_tail]
    exact Nat.sub_le _ _
  | case3 l c after hnext _ others ih =>
    exact Nat.le_trans ih (Nat.le_of_lt (length_lt_of_next hnext))

/-- A token takes at least its first character. -/
theorem length_read_le {l : Lexer} {mode : Mode} {c : Char} {cs : List Char}
    (hunread : l.unread = c :: cs) (hbare : mode = .bare → isBare c = true) :
    (l.read mode).unread.length ≤ cs.length := by
  have htail : l.next.2.unread = cs := by rw [next_unread, hunread, List.tail_cons]
  cases mode with
  | string =>
    rw [← htail]
    simp only [read, readString, emit_unread]
    exact length_takeQuoted_le _
  | sign =>
    rw [← htail, read, readSign]
    split
    · next hnext => exact Nat.le_of_eq (by rw [hnext])
    · next c after hnext =>
      rw [hnext, ← after.peek_unread]
      split
      · next hpeek => simp [hpeek]
      · next hpeek =>
        rw [hpeek]
        split <;> simp
  | bare =>
    have hpeek : l.peek = (some c, l) := by simp [peek, hunread]
    have htaken : l.takeBare.2 = l.next.2.takeBare.2 := by
      rw [takeBare]
      split
      · next hnone => simp [hpeek] at hnone
      · next hsome =>
        cases hpeek.symm.trans hsome
        rw [if_pos (hbare rfl)]
    simp only [read, readBare, emit_unread, htaken, ← htail]
    exact length_takeBare_le _

/-- Reads until there is nothing to read, from one boundary of tokens to the next. -/
def readAll (l : Lexer) : Lexer :=
  match _h : l.boundary with
  | (none, after) => after
  | (some mode, after) => readAll (after.read mode)
termination_by l.unread.length
decreasing_by
  obtain ⟨c, cs, hunread, hlength, hbare⟩ := boundary_eq_some _h
  exact Nat.lt_of_le_of_lt (length_read_le hunread hbare) hlength

/-- Reads all that is unread.  A failure that has been met, in this run or an earlier one, is the
answer; otherwise all tokens found so far are. -/
def run (l : Lexer) : Except String (List Token) × Lexer :=
  let after := l.readAll
  match after.failure with
  | some reason => (.error reason, after)
  | none => (.ok after.tokens, after)

/-- The answers of a number of runs, one after the other. -/
def runs : Nat → Lexer → List (Except String (List Token))
  | 0, _ => []
  | n + 1, l => l.run.1 :: runs n l.run.2

end Lexer

end Binisaya
