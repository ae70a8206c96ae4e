import Binisaya.Proofs.Grammar.Completeness
import Binisaya.Proofs.Numeral.Written
import Binisaya.Rendering.Program

/-!
# Reading rendered texts

What the lexer and the parser make of the texts that rendering puts together.  `CutsTo` says into
which pieces a text is cut wherever it stands; `Reads` says that it is the text of an expression
which is a given tree but for its parentheses.  There is one rule for each way in which rendering
builds a text from the texts of parts.
-/

namespace Binisaya

/-! ### Texts cut into pieces -/

theorem Location.advanceAll_append (l : Location) (cs ds : List Char) :
    l.advanceAll (cs ++ ds) = (l.advanceAll cs).advanceAll ds :=
  List.foldl_append

/-- The signs of two characters. -/
theorem isSignText_pair {c d : Char} (h : isSignText (String.ofList [c, d]) = true) :
    (d = '=' ∧ c ∈ ['=', '!', '<', '>']) ∨ (d = c ∧ c ∈ ['&', '|']) := by
  simp only [isSignText, signs, List.contains_eq_mem, decide_eq_true_eq, List.mem_cons,
    List.not_mem_nil, or_false, ← String.toList_inj, String.toList_ofList] at h
  simp at h
  rcases h with ⟨rfl, rfl⟩ | ⟨rfl, rfl⟩ | ⟨rfl, rfl⟩ | ⟨rfl, rfl⟩ | ⟨rfl, rfl⟩ | ⟨rfl, rfl⟩ <;> simp

/-- Most characters begin no sign of two characters. -/
theorem isSignText_pair_eq_false {c : Char} (hc : c ∉ ['=', '!', '<', '>', '&', '|']) (d : Char) :
    isSignText (String.ofList [c, d]) = false := by
  rw [← Bool.not_eq_true]
  intro hpair
  rcases isSignText_pair hpair with ⟨-, h⟩ | ⟨-, h⟩
  · exact hc (List.mem_append_left ['&', '|'] h)
  · exact hc (List.mem_append_right ['=', '!', '<', '>'] h)

/-- A text is cut into the given pieces wherever it stands, if no bare word runs on behind it. -/
def CutsTo (cs : List Char) (pieces : List Lexeme) : Prop :=
  ∀ (l : Location) (after : List Char), (∀ c, after.head? = some c → isBare c = false) →
    (scan l (cs ++ after)).map Token.bare = pieces ++ (scan (l.advanceAll cs) after).map Token.bare

namespace CutsTo

variable {cs ds : List Char} {ps qs : List Lexeme}

theorem nil : CutsTo [] [] := fun _ _ _ => rfl

theorem append (hcs : CutsTo cs ps) (hds : CutsTo ds qs)
    (hnext : ∀ c, ds.head? = some c → isBare c = false) : CutsTo (cs ++ ds) (ps ++ qs) := by
  intro l after hafter
  have hboth : ∀ c, (ds ++ after).head? = some c → isBare c = false := by
    cases ds with
    | nil => exact hafter
    | cons d ds => exact hnext
  rw [List.append_assoc, hcs l _ hboth, hds _ _ hafter, Location.advanceAll_append,
    List.append_assoc]

theorem blank (h : CutsTo cs ps) : CutsTo (' ' :: cs) ps := by
  intro l after hafter
  have hblank : ∀ c ∈ [' '], isBlank c = true := by
    intro c hc
    rw [List.mem_singleton.mp hc]
    decide
  rw [List.cons_append, ← List.singleton_append, scan_blanks hblank, h _ _ hafter]
  rfl

/-- A lexeme in front of a text is a piece in front of its pieces. -/
theorem lexeme (text : String) (h : CutsTo cs ps)
    (hlexeme : ∀ after, (∀ c, after.head? = some c → isBare c = false) →
      IsLexeme text.toList (cs ++ after)) :
    CutsTo (text.toList ++ cs) ((classify text, text) :: ps) := by
  intro l after hafter
  rw [List.append_assoc, scan_lexeme (hlexeme after hafter), List.map_cons, h _ _ hafter,
    Location.advanceAll_append]
  simp [Token.ofText, Token.bare]

theorem word {text : String} (hne : text.toList ≠ []) (hbare : ∀ c ∈ text.toList, isBare c = true) :
    CutsTo text.toList [(classify text, text)] := by
  have hword := nil.lexeme text fun after hafter => IsLexeme.word hne hbare hafter
  rwa [List.append_nil] at hword

theorem quotation {text : String} (h : '"' ∉ text.toList) :
    CutsTo ("\"" ++ text ++ "\"").toList
      [(classify ("\"" ++ text ++ "\""), "\"" ++ text ++ "\"")] := by
  have htext : ("\"" ++ text ++ "\"").toList = '"' :: (text.toList ++ ['"']) := by simp
  have hstring := nil.lexeme ("\"" ++ text ++ "\"") fun after _ => by
    rw [htext]
    exact IsLexeme.string h
  rwa [List.append_nil] at hstring

/-- A sign of one character, which makes no other one with the character behind it. -/
theorem sign {c : Char} (h : CutsTo cs ps) (hc : isSignChar c = true)
    (hnext : ∀ after d, (cs ++ after).head? = some d → isSignText (String.ofList [c, d]) = false) :
    CutsTo (c :: cs) ((classify (String.ofList [c]), String.ofList [c]) :: ps) := by
  have hsign := h.lexeme (String.ofList [c]) fun after _ => by
    rw [String.toList_ofList]
    exact IsLexeme.shortSign hc (hnext after)
  rwa [String.toList_ofList, List.singleton_append] at hsign

theorem opening (h : CutsTo cs ps) : CutsTo ('(' :: cs) (.sign "(" :: ps) :=
  h.sign (by decide) fun _ d _ => isSignText_pair_eq_false (by decide) d

theorem closing : CutsTo [')'] [.sign ")"] :=
  nil.sign (by decide) fun _ d _ => isSignText_pair_eq_false (by decide) d

theorem semicolon : CutsTo [';'] [.sign ";"] :=
  nil.sign (by decide) fun _ d _ => isSignText_pair_eq_false (by decide) d

/-- An operator between its operands, with a blank behind it. -/
theorem operator {op : BinaryOp} (hop : 0 < op.rank) (h : CutsTo cs ps) :
    CutsTo (op.symbol.toList ++ ' ' :: cs) (.sign op.symbol :: ps) := by
  have hclass : classify op.symbol = .punctuation := by
    cases op with
    | other => simp [BinaryOp.rank] at hop
    | _ => decide
  have hoperator := h.blank.lexeme op.symbol fun after _ => by
    have hshort : ∀ {c : Char}, isSignChar c = true → isSignText (String.ofList [c, ' ']) = false →
        IsLexeme [c] (' ' :: cs ++ after) := by
      intro c hc hblank
      refine .shortSign hc ?_
      rintro d hd
      cases hd
      exact hblank
    cases op with
    | other => simp [BinaryOp.rank] at hop
    | or => exact .longSign (c := '|') (d := '|') (by decide) (by decide)
    | and => exact .longSign (c := '&') (d := '&') (by decide) (by decide)
    | equal => exact .longSign (c := '=') (d := '=') (by decide) (by decide)
    | notEqual => exact .longSign (c := '!') (d := '=') (by decide) (by decide)
    | lessEqual => exact .longSign (c := '<') (d := '=') (by decide) (by decide)
    | greaterEqual => exact .longSign (c := '>') (d := '=') (by decide) (by decide)
    | less => exact hshort (c := '<') (by decide) (by decide)
    | greater => exact hshort (c := '>') (by decide) (by decide)
    | add => exact hshort (c := '+') (by decide) (by decide)
    | subtract => exact hshort (c := '-') (by decide) (by decide)
    | multiply => exact hshort (c := '*') (by decide) (by decide)
    | divide => exact hshort (c := '/') (by decide) (by decide)
  rwa [hclass] at hoperator

end CutsTo

/-! ### Kinds of rendered words -/

/-- What begins with a digit is neither a reserved word nor a sign. -/
theorem not_reserved_of_isDigit {text : String} {c : Char} (hhead : text.toList.head? = some c)
    (hc : isDigit c = true) : isKeyword text = false ∧ isSignText text = false :=
  not_reserved_of_head (by decide) (by decide) hhead hc

theorem unsignedPart_of_isDigit {cs : List Char} {c : Char} (hhead : cs.head? = some c)
    (hc : isDigit c = true) : unsignedPart cs = cs := by
  unfold unsignedPart
  split
  · cases hhead
    exact absurd hc (by decide)
  · rfl

theorem classify_of_isDigits {text : String} (h : isDigits text.toList = true) :
    classify text = .int := by
  obtain ⟨hne, hall⟩ := isDigits_iff.mp h
  obtain ⟨c, cs, hcs⟩ := List.exists_cons_of_ne_nil hne
  have hhead : text.toList.head? = some c := by simp [hcs]
  have hc := hall c (by simp [hcs])
  obtain ⟨hword, hsign⟩ := not_reserved_of_isDigit hhead hc
  have hint : isIntText text.toList = true := by
    rw [isIntText, unsignedPart_of_isDigit hhead hc, h]
  simp [classify, hword, hsign, hint]

theorem classify_of_isPointed {text : String} (h : IsPointed text.toList) :
    classify text = .double := by
  obtain ⟨whole, fraction, htext, hwhole, hfraction⟩ := h
  obtain ⟨hne, hall⟩ := isDigits_iff.mp hwhole
  obtain ⟨c, cs, rfl⟩ := List.exists_cons_of_ne_nil hne
  have hhead : text.toList.head? = some c := by simp [htext]
  have hc := hall c (by simp)
  obtain ⟨hword, hsign⟩ := not_reserved_of_isDigit hhead hc
  have hunsigned := unsignedPart_of_isDigit hhead hc
  have hint : isIntText text.toList = false := by
    rw [← Bool.not_eq_true, isIntText, hunsigned]
    intro hdigits
    exact DoubleText.point_not_mem hdigits (by simp [htext])
  have hdouble : isDoubleText text.toList = true := by
    have hsplit := takeWhile_append_of_head hall
      (show ∀ d, ('.' :: fraction).head? = some d → isDigit d = false by
        rintro d hd
        cases hd
        decide)
    simp only [isDoubleText, hunsigned]
    rw [htext, hsplit.1, hsplit.2]
    simp [hwhole, hfraction]
  simp [classify, hword, hsign, hint, hdouble]

theorem isBare_of_identifier {text : String} (h : classify text = .identifier) :
    text.toList ≠ [] ∧ ∀ c ∈ text.toList, isBare c = true := by
  have hclass := classify_cases text
  rw [h] at hclass
  simp only at hclass
  generalize text.toList = cs at hclass
  cases cs with
  | nil => cases hclass
  | cons c cs =>
    simp only [isNameText, Bool.and_eq_true, List.all_eq_true, Bool.or_eq_true] at hclass
    refine ⟨by simp, ?_⟩
    intro d hd
    rcases List.mem_cons.mp hd with rfl | hd
    · exact isBare_of_isNameStart hclass.1
    · rcases hclass.2 d hd with hstart | hdigit
      · exact isBare_of_isNameStart hstart
      · exact isBare_of_isDigit hdigit

/-! ### Texts of expressions -/

/-- An expression without its parentheses. -/
def Expr.ungrouped : Expr → Expr
  | .absent => .absent
  | .literal kind text => .literal kind text
  | .name n => .name n
  | .binary op left right => .binary op left.ungrouped right.ungrouped
  | .unary op operand => .unary op operand.ungrouped
  | .group inner => inner.ungrouped
  | .assign target value => .assign target value.ungrouped

/-- The text that a literal has where it is read again: numbers as they are rendered. -/
def writtenText (kind : LiteralKind) (text : String) : String :=
  match kind with
  | .int | .float => renderLiteral kind text
  | .bool | .string | .other => text

theorem BinaryOp.rank_lt (op : BinaryOp) : op.rank < 7 := by
  cases op with
  | other => exact Nat.zero_lt_succ 6
  | _ => decide

/-- A text that is read as an expression which holds together at least as tight as asked for and
which is the given tree but for its parentheses. -/
def Reads (least : Nat) (text : String) (tree : Expr) : Prop :=
  ∃ e : Expr, e.WellFormed ∧ least ≤ e.rank ∧ e.ungrouped = tree ∧ CutsTo text.toList e.unparse ∧
    ∃ c cs, text.toList = c :: cs ∧ c ≠ '='

namespace Reads

variable {least : Nat} {text : String} {tree : Expr}

theorem mono {least' : Nat} (h : Reads least text tree) (hle : least' ≤ least) :
    Reads least' text tree := by
  obtain ⟨e, hwf, hrank, hrest⟩ := h
  exact ⟨e, hwf, by omega, hrest⟩

/-- With a semicolon behind it, such a text is a statement. -/
theorem parse_eq (h : Reads least text tree) :
    ∃ e, parse (tokenize (text.toList ++ [';'])) = .ok [.expression e] ∧ e.ungrouped = tree := by
  obtain ⟨e, hwf, -, htree, hcuts, -⟩ := h
  refine ⟨e, parse_of_spelled ⟨hwf, trivial⟩ ?_, htree⟩
  have hboth := hcuts.append .semicolon (by rintro c ⟨⟩; decide)
  have hpieces := hboth .start [] nofun
  rw [List.append_nil] at hpieces
  exact hpieces.trans (by simp [unparse, Stmt.unparseAll, Stmt.unparse, scan])

theorem head_of_isBare (hne : text.toList ≠ []) (hbare : ∀ c ∈ text.toList, isBare c = true) :
    ∃ c cs, text.toList = c :: cs ∧ c ≠ '=' := by
  obtain ⟨c, cs, hcs⟩ := List.exists_cons_of_ne_nil hne
  refine ⟨c, cs, hcs, ?_⟩
  rintro rfl
  exact absurd (hbare '=' (by simp [hcs])) (by decide)

/-- A bare word that is a literal or a name. -/
theorem word {e : Expr} (hwf : e.WellFormed) (hrank : 8 ≤ e.rank) (hleaf : e.ungrouped = e)
    (hne : text.toList ≠ []) (hbare : ∀ c ∈ text.toList, isBare c = true)
    (hpieces : e.unparse = [(classify text, text)]) : Reads 8 text e :=
  ⟨e, hwf, hrank, hleaf, hpieces ▸ CutsTo.word hne hbare, head_of_isBare hne hbare⟩

theorem int (hdigits : isDigits text.toList = true) (hfits : (readInt 32 text).isOk = true) :
    Reads 8 text (.literal .int text) := by
  obtain ⟨hne, hall⟩ := isDigits_iff.mp hdigits
  have hpieces : [(.int, text)] = [(classify text, text)] := by rw [classify_of_isDigits hdigits]
  exact word hfits (Nat.le_refl 8) rfl hne (fun c hc => isBare_of_isDigit (hall c hc)) hpieces

theorem float (h : IsPointed text.toList) : Reads 8 text (.literal .float text) := by
  have hpieces : [(.double, text)] = [(classify text, text)] := by rw [classify_of_isPointed h]
  obtain ⟨whole, fraction, htext, hwhole, hfraction⟩ := h
  refine word trivial (Nat.le_refl 8) rfl (by simp [htext]) ?_ hpieces
  intro c hc
  rw [htext] at hc
  rcases List.mem_append.mp hc with hc | hc
  · exact isBare_of_isDigit ((isDigits_iff.mp hwhole).2 c hc)
  · rcases List.mem_cons.mp hc with rfl | hc
    · decide
    · exact isBare_of_isDigit ((isDigits_iff.mp hfraction).2 c hc)

theorem bool (h : Lexeme.Legible (.boolean, text)) : Reads 8 text (.literal .bool text) := by
  have hclass := classify_cases text
  rw [← h.kind] at hclass
  rcases hclass with rfl | rfl <;>
    exact word trivial (Nat.le_refl 8) rfl (by decide) (List.all_eq_true.mp (by decide)) (by decide)

theorem string (h : Lexeme.Legible (.string, "\"" ++ text ++ "\"")) :
    Reads 8 ("\"" ++ text ++ "\"") (.literal .string text) := by
  have hcuts := CutsTo.quotation h.quote_not_mem
  rw [← h.kind] at hcuts
  exact ⟨.literal .string text, trivial, Nat.le_refl 8, rfl, hcuts, '"', text.toList ++ ['"'],
    by simp, by decide⟩

/-- A literal of a program from a text, as it is rendered. -/
theorem literal {kind : LiteralKind} (hallowed : Expr.LiteralAllowed kind text)
    (hlegible : ∀ l ∈ Expr.literalLexemes kind text, l.Legible) :
    Reads 8 (renderLiteral kind text) (.literal kind (writtenText kind text)) := by
  cases kind with
  | int =>
    have hpiece := hlegible (.int, text) (List.mem_singleton_self _)
    obtain ⟨hdigits, hfits⟩ := renderLiteral_int hpiece.isDigits hallowed
    exact int hdigits hfits
  | float =>
    have hpiece := hlegible (.double, text) (List.mem_singleton_self _)
    exact float (renderLiteral_float hpiece.isPointed)
  | bool => exact bool (hlegible (.boolean, text) (List.mem_singleton_self _))
  | string => exact string (hlegible (.string, _) (List.mem_singleton_self _))
  | other => exact hallowed.elim

theorem name (h : classify text = .identifier) : Reads 8 text (.name text) := by
  obtain ⟨hne, hbare⟩ := isBare_of_identifier h
  have hpieces : [(.identifier, text)] = [(classify text, text)] := by rw [h]
  exact word trivial (Nat.le_refl 8) rfl hne hbare hpieces

theorem group (h : Reads least text tree) : Reads 8 ("(" ++ text ++ ")") tree := by
  obtain ⟨e, hwf, -, htree, hcuts, -⟩ := h
  have htext : ("(" ++ text ++ ")").toList = '(' :: (text.toList ++ [')']) := by simp
  refine ⟨.group e, hwf, Nat.le_refl 8, htree, ?_, '(', _, htext, by decide⟩
  rw [htext]
  exact (hcuts.append .closing (by rintro c ⟨⟩; decide)).opening

theorem binary {op : BinaryOp} {first second : String} {left right : Expr} (hop : 0 < op.rank)
    (hfirst : Reads 7 first left) (hsecond : Reads 7 second right) :
    Reads 8 ("(" ++ first ++ " " ++ op.symbol ++ " " ++ second ++ ")") (.binary op left right) := by
  obtain ⟨e, hwf, hrank, rfl, hcuts, -⟩ := hfirst
  obtain ⟨e', hwf', hrank', rfl, hcuts', -⟩ := hsecond
  have hbound := op.rank_lt
  have htext : ("(" ++ first ++ " " ++ op.symbol ++ " " ++ second ++ ")").toList =
      '(' :: (first.toList ++ ' ' :: (op.symbol.toList ++ ' ' :: (second.toList ++ [')']))) := by
    simp
  refine ⟨.group (.binary op e e'), ⟨hop, hwf, hwf', by omega, by omega⟩, Nat.le_refl 8, rfl, ?_,
    '(', _, htext, by decide⟩
  have hafter := ((hcuts'.append .closing (by rintro c ⟨⟩; decide)).operator hop).blank
  have hinner := (hcuts.append hafter (by rintro c ⟨⟩; decide)).opening
  rw [htext]
  simpa [Expr.unparse] using hinner

/-- A text keeps what it is read as when it is shielded. -/
theorem shield (h : Reads least text tree) (hle : least ≤ 8) :
    Reads least (shieldOperator text) tree := by
  unfold shieldOperator
  split
  · exact h.group.mono hle
  · exact h

theorem unary {op : UnaryOp} (hop : op = .negate ∨ op = .not) (h : Reads 7 text tree) :
    Reads 7 (op.symbol ++ text) (.unary op tree) := by
  obtain ⟨e, hwf, hrank, rfl, hcuts, c, cs, htext, hhead⟩ := h
  rcases hop with rfl | rfl
  · refine ⟨.unary .negate e, ⟨.inl rfl, hwf, hrank⟩, Nat.le_refl 7, rfl, ?_, '-', text.toList,
      by simp [UnaryOp.symbol], by decide⟩
    have hsign : CutsTo ('-' :: text.toList) (.sign "-" :: e.unparse) :=
      hcuts.sign (by decide) fun _ d _ => isSignText_pair_eq_false (by decide) d
    simpa [Expr.unparse, UnaryOp.symbol] using hsign
  · refine ⟨.unary .not e, ⟨.inr rfl, hwf, hrank⟩, Nat.le_refl 7, rfl, ?_, '!', text.toList,
      by simp [UnaryOp.symbol], by decide⟩
    have hsign : CutsTo ('!' :: text.toList) (.sign "!" :: e.unparse) := by
      refine hcuts.sign (by decide) ?_
      intro after d hd
      rw [← Bool.not_eq_true]
      intro hpair
      -- only an equals sign would make another sign of it
      rcases isSignText_pair hpair with ⟨rfl, -⟩ | ⟨-, h⟩
      · rw [htext] at hd
        exact hhead (Option.some.inj hd)
      · exact absurd h (by decide)
    simpa [Expr.unparse, UnaryOp.symbol] using hsign

theorem assign {target : String} (htarget : classify target = .identifier)
    (h : Reads least text tree) : Reads 0 (target ++ " = " ++ text) (.assign target tree) := by
  obtain ⟨hne, hbare⟩ := isBare_of_identifier htarget
  have hname := CutsTo.word hne hbare
  rw [htarget] at hname
  obtain ⟨c, cs, hcs, hhead⟩ := head_of_isBare hne hbare
  obtain ⟨e, hwf, -, rfl, hcuts, -⟩ := h
  have htext : (target ++ " = " ++ text).toList =
      target.toList ++ ' ' :: '=' :: ' ' :: text.toList := by simp
  refine ⟨.assign target e, hwf, Nat.zero_le _, rfl, ?_, c,
    cs ++ ' ' :: '=' :: ' ' :: text.toList, by simp [htext, hcs], hhead⟩
  have hsign : CutsTo ('=' :: ' ' :: text.toList) (.sign "=" :: e.unparse) := by
    refine hcuts.blank.sign (by decide) ?_
    rintro after d hd
    cases hd
    decide
  rw [htext]
  exact hname.append hsign.blank (by rintro c ⟨⟩; decide)

end Reads

end Binisaya
