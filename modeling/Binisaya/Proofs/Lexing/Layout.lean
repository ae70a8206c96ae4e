import Binisaya.Proofs.Lexing.Kinds
import Binisaya.Proofs.Text.Encoding

/-!
# Texts written anew

The tokens of a text can be written with other blanks between them, as long as there are some.
`Layout` is a choice of blanks.  Main statement: the text that is written is cut into the same
pieces, and the parser, which does not look at places, makes the same of them.
-/

namespace Binisaya

/-- Blanks in front of, between and behind the words of a text. -/
structure Layout where
  leading : List Char
  /-- What stands behind the word with the given index. -/
  separator : Nat → List Char
  trailing : List Char
  leading_blank : ∀ c ∈ leading, isBlank c = true
  separator_blank : ∀ i, ∀ c ∈ separator i, isBlank c = true
  separator_ne_nil : ∀ i, separator i ≠ []
  trailing_blank : ∀ c ∈ trailing, isBlank c = true

/-- Words with separators between them. -/
def joinWords (separator : Nat → List Char) : List String → List Char
  | [] => []
  | [word] => word.toList
  | word :: next :: words =>
    word.toList ++ separator 0 ++ joinWords (fun i => separator (i + 1)) (next :: words)

/-- The text with the given words in a layout. -/
def Layout.write (l : Layout) (words : List String) : List Char :=
  l.leading ++ joinWords l.separator words ++ l.trailing

/-- Every word on a line of its own. -/
def Layout.lines : Layout where
  leading := []
  separator _ := ['\n']
  trailing := ['\n']
  leading_blank := List.forall_mem_nil _
  separator_blank _ := List.forall_mem_singleton.mpr (by decide)
  separator_ne_nil _ := List.cons_ne_nil _ _
  trailing_blank := List.forall_mem_singleton.mpr (by decide)

/-! ### Lexemes in front of blanks -/

/-- No sign has a blank in it. -/
theorem isSignText_pair_of_isBlank {c d : Char} (h : isBlank d = true) :
    isSignText (String.ofList [c, d]) = false := by
  have hall : signs.all (fun s => s.toList.all fun e => !isBlank e) = true := by decide
  rw [← Bool.not_eq_true]
  intro hsign
  have hnot := List.all_eq_true.mp hall _ (by simpa [isSignText] using hsign)
  simp [h] at hnot

/-- What is a lexeme in front of some text is one in front of blanks. -/
theorem IsLexeme.before_blanks {text after gap : List Char} (h : IsLexeme text after)
    (hgap : ∀ c, gap.head? = some c → isBlank c = true) : IsLexeme text gap := by
  cases h with
  | string hbody => exact .string hbody
  | longSign hc hsign => exact .longSign hc hsign
  | shortSign hc => exact .shortSign hc fun d hd => isSignText_pair_of_isBlank (hgap d hd)
  | word hne hbare =>
    refine .word hne hbare fun d hd => ?_
    rw [← Bool.not_eq_true]
    intro hd'
    have hblank := hgap d hd
    rw [isBlank_of_isBare hd'] at hblank
    cases hblank

/-! ### The pieces of what is written -/

theorem scan_all_blank {gap : List Char} (hgap : ∀ c ∈ gap, isBlank c = true) (l : Location) :
    scan l gap = [] := by
  have hscan := scan_blanks hgap l []
  rwa [List.append_nil, scan] at hscan

/-- The words of a text that has been split are cut apart again wherever they stand. -/
theorem Splits.scan_joinWords {before text : List Char} {ts : List Token}
    (h : Splits before text ts) {separator : Nat → List Char}
    (hblank : ∀ i, ∀ c ∈ separator i, isBlank c = true) (hne : ∀ i, separator i ≠ [])
    {trailing : List Char} (htrailing : ∀ c ∈ trailing, isBlank c = true) (l : Location) :
    (scan l (joinWords separator (ts.map Token.text) ++ trailing)).map Token.bare =
      ts.map Token.bare := by
  induction h generalizing separator l with
  | blanks hgap => simp [joinWords, scan_all_blank htrailing]
  | @lexeme before gap text after ts _ htext hafter ih =>
    cases ts with
    | nil =>
      have hlexeme : IsLexeme text trailing :=
        htext.before_blanks fun c hc => htrailing c (List.mem_of_head? hc)
      simp only [List.map_cons, List.map_nil, joinWords, String.toList_ofList]
      rw [scan_lexeme hlexeme, scan_all_blank htrailing]
      rfl
    | cons t ts =>
      have hlexeme : ∀ rest, IsLexeme text (separator 0 ++ rest) := fun rest => by
        refine htext.before_blanks fun c hc => ?_
        rw [List.head?_append_of_ne_nil _ (hne 0)] at hc
        exact hblank 0 c (List.mem_of_head? hc)
      have hrest := ih (fun i => hblank (i + 1)) (fun i => hne (i + 1))
      simp only [List.map_cons, joinWords, String.toList_ofList, List.append_assoc]
        at hrest ⊢
      rw [scan_lexeme (hlexeme _), scan_blanks (hblank 0), List.map_cons, hrest]
      rfl
  | unterminated hgap hbody hlast htrail =>
    simp only [List.map_cons, List.map_nil, joinWords, String.toList_ofList]
    rw [scan_unterminated hbody hlast htrailing]
    rfl

/-! ### The parser on the same pieces -/

theorem Token.Alike.of_bare {t t' : Token} (h : t.bare = t'.bare) : t.Alike t' := by
  obtain ⟨hkind, htext⟩ := Prod.mk.inj h
  refine ⟨hkind, ?_⟩
  rw [htext]
  split <;> rfl

theorem Like.of_bare {ts ts' : List Token} (h : ts.map Token.bare = ts'.map Token.bare) :
    Like [] [] ts ts' := by
  induction ts generalizing ts' with
  | nil =>
    obtain rfl : ts' = [] := by simpa using h.symm
    exact .here
  | cons t ts ih =>
    cases ts' with
    | nil => cases h
    | cons t' ts' =>
      obtain ⟨ht, hts⟩ := List.cons_eq_cons.mp h
      exact .cons (.of_bare ht) (ih hts)

/-- Ends of the same length of sequences with the same pieces have the same pieces. -/
theorem map_bare_suffix {ts ts' rest rest' : List Token}
    (h : ts.map Token.bare = ts'.map Token.bare) (hrest : rest <:+ ts) (hrest' : rest' <:+ ts')
    (hlength : rest.length = rest'.length) : rest.map Token.bare = rest'.map Token.bare := by
  have hall : ts.length = ts'.length := by simpa using congrArg List.length h
  rw [List.suffix_iff_eq_drop.mp hrest, List.suffix_iff_eq_drop.mp hrest', List.map_drop,
    List.map_drop, h, hall, hlength]

/-- The parser gives the same program on the same pieces, or stops for the same cause at the same
piece. -/
theorem parse_of_same_bare {ts ts' : List Token} (h : ts.map Token.bare = ts'.map Token.bare) :
    (∃ p, parse ts = .ok p ∧ parse ts' = .ok p) ∨
      ∃ s s', parse ts = .error s ∧ parse ts' = .error s' ∧ s.cause = s'.cause ∧
        s.found.map Token.bare = s'.found.map Token.bare := by
  have hlike := Like.of_bare h
  cases hparse : parse ts with
  | ok p => exact .inl ⟨p, rfl, parse_of_like hlike hparse⟩
  | error s =>
    right
    obtain ⟨hsuffix, hpast | ⟨houtcome, hrest⟩⟩ := program_tracks .none hlike
    · exact absurd hpast (Nat.not_lt_zero _)
    obtain ⟨hsuffix', -⟩ := program_tracks .none hlike.symm
    rw [parse_eq_error_iff.mp hparse] at hsuffix houtcome hrest
    cases hstop : Parser.program ts' with
    | ok x =>
      rw [hstop] at houtcome
      cases houtcome
    | error s' =>
      rw [hstop] at houtcome hrest hsuffix'
      refine ⟨s, s', rfl, parse_eq_error_iff.mpr hstop, ?_, ?_⟩
      · simpa [Parser.outcome] using houtcome
      · have hbare := map_bare_suffix h hsuffix hsuffix' (by simpa using hrest.length)
        have hhead := congrArg List.head? hbare
        rwa [List.head?_map, List.head?_map] at hhead

/-- The tokens of a source, written in any layout, are read as the same pieces, and the parser gives
the same program, or a syntax error that expects the same and has found the same piece. -/
theorem layout_keeps_reading (source : List UInt8) (layout : Layout) :
    let ts := tokenize (Utf8.decode source)
    let ts' := tokenize (Utf8.decode (Utf8.encode (layout.write (ts.map Token.text))))
    ts'.map Token.bare = ts.map Token.bare ∧
      ((∃ p, parse ts = .ok p ∧ parse ts' = .ok p) ∨
        ∃ s s' e e', parse ts = .error s ∧ parse ts' = .error s' ∧
          s.syntaxError? = some e ∧ s'.syntaxError? = some e' ∧
          e'.expected = e.expected ∧ e'.found.map Token.bare = e.found.map Token.bare) := by
  intro ts ts'
  have hsplits : Splits [] (Utf8.decode source) ts := scan_splits [] _
  have hsame : ts'.map Token.bare = ts.map Token.bare := by
    simp only [ts', Utf8.decode_encode]
    unfold Layout.write tokenize
    rw [List.append_assoc, scan_blanks layout.leading_blank]
    exact hsplits.scan_joinWords layout.separator_blank layout.separator_ne_nil
      layout.trailing_blank _
  refine ⟨hsame, ?_⟩
  rcases parse_of_same_bare hsame.symm with hok | ⟨s, s', hs, hs', hcause, hfound⟩
  · exact .inl hok
  · right
    obtain ⟨-, what, -, -, -, hwhat, -⟩ :=
      exists_parse_of_error (fun t ht => tokenize_hasQuotes ht) hs
    refine ⟨s, s', ⟨what.text, s.found⟩, ⟨what.text, s'.found⟩, hs, hs', ?_, ?_, rfl, hfound.symm⟩
    · rw [Stop.syntaxError?, hwhat]
    · rw [Stop.syntaxError?, ← hcause, hwhat]

/-- A source with a lone sign, a blank inside a string, an invalid byte and a string without an end,
whose last blank is not part of it. -/
def brokenSource : List UInt8 := "a=&\"x y\"".toUTF8.toList ++ [0xFF] ++ "\"b ".toUTF8.toList

theorem broken_source_on_lines :
    (tokenize (Utf8.decode (Utf8.encode (Layout.lines.write
        ["a", "=", "&", "\"x y\"", "\uFFFD", "\"b"])))).map Token.bare =
      [(.identifier, "a"), (.punctuation, "="), (.unknown, "&"), (.string, "\"x y\""),
        (.unknown, "\uFFFD"), (.unknown, "\"b")] := by
  have htexts : (tokenize (Utf8.decode brokenSource)).map Token.text =
      ["a", "=", "&", "\"x y\"", "\uFFFD", "\"b"] := by decide +kernel
  have hsame := (layout_keeps_reading brokenSource Layout.lines).1
  rw [htexts] at hsame
  exact hsame.trans (by decide +kernel)

end Binisaya
