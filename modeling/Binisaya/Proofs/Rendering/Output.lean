import Binisaya.Proofs.Rendering.Preservation

/-!
# Texts in the output

The text of every expression that is rendered stands in a line of the output, and it is read as the
tree that it stands for.
-/

namespace Binisaya

/-! ### Texts within texts -/

/-- A text is part of another. -/
def Within (part whole : String) : Prop := part.toList <:+: whole.toList

namespace Within

variable {part whole : String}

theorem refl (text : String) : Within text text := List.infix_refl _

theorem behind (h : Within part whole) (text : String) : Within part (text ++ whole) := by
  unfold Within
  rw [String.toList_append]
  exact List.IsInfix.trans h (List.suffix_append _ _).isInfix

theorem before (h : Within part whole) (text : String) : Within part (whole ++ text) := by
  unfold Within
  rw [String.toList_append]
  exact List.IsInfix.trans h (List.prefix_append _ _).isInfix

theorem shield (h : Within part whole) : Within part (shieldOperator whole) := by
  unfold shieldOperator
  split
  · exact (h.behind "(").before ")"
  · exact h

end Within

theorem dropEndSpace_append (text : String) : dropEndSpace (text ++ ") ") = text ++ ")" := by
  have hchars : (text ++ ") ").toList = text.toList ++ [')'] ++ [' '] := by simp
  unfold dropEndSpace
  rw [hchars, List.getLast?_append]
  simp

/-- The text of a part of an expression stands in the text of the whole. -/
theorem Expr.within_text {σ : Snapshot} {e : Expr} {r : Rendering} (h : r ∈ e.renderings σ) :
    Within r.text (σ.text e) := by
  induction e generalizing σ with
  | absent => cases h
  | literal | name =>
    rw [List.mem_singleton.mp h]
    exact .refl _
  | binary op left right ihleft ihright =>
    rcases List.mem_append.mp h with h | h
    · have hfirst := (((ihleft h).behind "(").before " ").before op.symbol
      exact ((hfirst.before " ").before _).before ")"
    · rcases List.mem_append.mp h with h | h
      · exact ((ihright h).behind _).before ")"
      · rw [List.mem_singleton.mp h]
        exact .refl _
  | unary op operand ih =>
    rcases List.mem_append.mp h with h | h
    · exact (ih h).shield.behind op.symbol
    · rw [List.mem_singleton.mp h]
      exact .refl _
  | group inner ih =>
    rcases List.mem_append.mp h with h | h
    · exact ((ih h).behind "(").before ")"
    · rw [List.mem_singleton.mp h]
      exact .refl _
  | assign target value ih =>
    rcases List.mem_append.mp h with h | h
    · exact (ih h).behind (target ++ " = ")
    · rw [List.mem_singleton.mp h]
      exact .refl _

theorem Expr.within_renderOptional {σ : Snapshot} {e : Expr} {r : Rendering}
    (h : r ∈ e.renderings σ) : Within r.text (e.renderOptional σ.values).2 := by
  cases e with
  | absent => cases h
  | _ => exact Expr.within_text h

/-- The text of an initial value and its parts stand in the text of a declaration. -/
theorem within_renderDeclaration {σ : Snapshot} {type name : String} {initial : Expr}
    {r : Rendering} (h : r ∈ initial.renderings σ) :
    Within r.text (renderDeclaration σ.values type name initial).2 := by
  unfold renderDeclaration
  split
  · next habsent =>
    cases initial with
    | absent => cases h
    | _ => cases habsent
  · exact (Expr.within_text h).behind _

/-! ### Texts in lines -/

/-- A text stands in one of some lines. -/
def Shows (lines : List String) (text : String) : Prop := ∃ line ∈ lines, Within text line

namespace Shows

variable {lines lines' : List String} {text : String}

theorem mono (h : Shows lines text) (hlines : ∀ line ∈ lines, line ∈ lines') :
    Shows lines' text := by
  obtain ⟨line, hline, htext⟩ := h
  exact ⟨line, hlines line hline, htext⟩

theorem append_left (h : Shows lines text) (others : List String) : Shows (lines ++ others) text :=
  h.mono fun _ hline => List.mem_append_left _ hline

theorem append_right (h : Shows lines text) (others : List String) : Shows (others ++ lines) text :=
  h.mono fun _ hline => List.mem_append_right _ hline

/-- A line with the text, at any depth. -/
theorem line {content : String} (h : Within text content) (depth : Nat) :
    Shows [indentedLine depth content] text :=
  ⟨_, List.mem_singleton_self _, h.behind _⟩

end Shows

theorem Stmt.openLines_eq {values : Values} {depth : Nat} {lead : Lead} {s : Stmt}
    (h : s.isBlock = false) : s.openLines values depth lead = (s.render values depth lead).2 := by
  rw [openLines, h]
  rfl

theorem Shows.close {values : Values} {depth : Nat} {lead : Lead} {s : Stmt} {text : String}
    (h : Shows (s.openLines values depth lead) text) :
    Shows (s.render values depth lead).2 text := by
  unfold Stmt.openLines at h
  split at h
  · exact h.mono fun _ hline => List.dropLast_subset _ hline
  · exact h

theorem Stmt.openLines_block {values : Values} {depth : Nat} {lead : Lead} {body : List Stmt} :
    (Stmt.block body).openLines values depth lead =
      indentedLine depth (lead.text ++ "\x7b") ::
        (Stmt.renderAll values.push (depth + 1) body).2 := by
  simp only [openLines, isBlock, if_true, Stmt.render]
  exact List.dropLast_concat

/-- What stands in the lines of the consequent stands in those of the conditional. -/
theorem Shows.conditional {values : Values} {depth : Nat} {lead : Lead} {condition : Expr}
    {consequent : Stmt} {text : String} (alternative : Stmt)
    (h : Shows (consequent.openLines (condition.render values).1 (lead.conditionalDepth depth)
      (.header (lead.ofConditional.text ++ "if (" ++ (condition.render values).2 ++ ") "))) text) :
    Shows ((Stmt.ifElse condition consequent alternative).render values depth lead).2 text := by
  rw [Stmt.render_ifElse]
  apply Shows.append_right
  split
  · exact h.close
  · exact h.append_left _

/-- The header of a body stands in front of it. -/
theorem Stmt.shows_header (values : Values) (depth : Nat) {text front : String} (s : Stmt)
    (h : Within text front) : Shows (s.openLines values depth (.header (front ++ ") "))) text := by
  have hown : Shows [indentedLine depth (dropEndSpace (front ++ ") "))] text := by
    rw [dropEndSpace_append]
    exact .line (h.before ")") depth
  cases s with
  | block body =>
    rw [openLines_block]
    exact (Shows.line ((h.before ") ").before "\x7b") depth).append_left _
  | absent => rwa [openLines_eq rfl, Stmt.render]
  | ifElse condition consequent alternative =>
    rw [openLines_eq rfl, render_ifElse]
    exact hown.append_left _
  | _ =>
    rw [openLines_eq rfl, Stmt.render]
    exact hown.append_left _

/-- What is rendered for the first clause of a counting loop stands in its text. -/
theorem Stmt.within_renderInitial {σ : Snapshot} {initial : Stmt} {r : Rendering}
    (hinitial : initial = .absent ∨ initial.isLoopInitial = true) (h : r ∈ initial.renderings σ) :
    Within r.text (renderInitial σ.values initial).2 := by
  cases initial with
  | absent => simp [Stmt.renderings] at h
  | declare type name value => exact within_renderDeclaration (by simpa [Stmt.renderings] using h)
  | expression value => exact Expr.within_text (by simpa [Stmt.renderings] using h)
  | _ => simp [Stmt.isLoopInitial] at hinitial

mutual

/-- Every text that is rendered for a statement stands in its lines. -/
theorem Stmt.shows {σ : Snapshot} (depth : Nat) (lead : Lead) {r : Rendering} :
    (s : Stmt) → s.WellFormed → r ∈ s.renderings σ → Shows (s.openLines σ.values depth lead) r.text
  | .absent, hwf, _ => by simp [Stmt.WellFormed] at hwf
  | .declare type name initial, _, h => by
    rw [Stmt.renderings] at h
    rw [openLines_eq rfl, Stmt.render]
    exact (Shows.line ((within_renderDeclaration h).before ";") _).append_right _
  | .print value, _, h => by
    rw [Stmt.renderings] at h
    rw [openLines_eq rfl, Stmt.render]
    exact (Shows.line (((Expr.within_text h).behind "print(").before ");") _).append_right _
  | .expression value, _, h => by
    rw [Stmt.renderings] at h
    rw [openLines_eq rfl, Stmt.render]
    exact (Shows.line ((Expr.within_text h).before ";") _).append_right _
  | .block body, hwf, h => by
    rw [Stmt.WellFormed] at hwf
    rw [Stmt.renderings] at h
    rw [openLines_block]
    exact (Stmt.allShows (depth + 1) body hwf h).append_right [_]
  | .ifElse condition consequent alternative, hwf, h => by
    rw [Stmt.WellFormed] at hwf
    simp only [Stmt.renderings, List.mem_append] at h
    obtain ⟨-, hconsequent, -, halternative⟩ := hwf
    rw [openLines_eq rfl]
    rcases h with h | h | h
    · exact .conditional alternative
        (Stmt.shows_header _ _ consequent ((Expr.within_text h).behind _))
    · exact .conditional alternative (Stmt.shows _ _ consequent hconsequent h)
    · rcases halternative with rfl | ⟨halternative, -, -⟩
      · simp [Stmt.renderings] at h
      · rw [render_ifElse, halternative.isAbsent, Stmt.render_values _ _ 0 _ .plain consequent]
        exact ((Stmt.shows _ _ alternative halternative h).close.append_right _).append_right _
  | .whileLoop condition body, hwf, h => by
    rw [Stmt.WellFormed] at hwf
    simp only [Stmt.renderings, List.mem_append] at h
    rw [openLines_eq rfl, Stmt.render]
    apply Shows.append_right
    apply Shows.close
    rcases h with h | h
    · exact Stmt.shows_header _ _ body ((Expr.within_text h).behind "while (")
    · exact Stmt.shows _ _ body hwf.2.1 h
  | .forLoop initial condition increment body, hwf, h => by
    rw [Stmt.WellFormed] at hwf
    simp only [Stmt.renderings, List.mem_append] at h
    obtain ⟨hinitial, -, -, hbody, -⟩ := hwf
    rw [openLines_eq rfl, Stmt.render]
    simp only [Expr.renderOptional_values,
      Stmt.renderInitial_values _ (hinitial.imp_right And.right)]
    apply Shows.append_right
    apply Shows.close
    rcases h with h | h | h | h
    · have hclause := Stmt.within_renderInitial (hinitial.imp_right And.right) h
      exact Stmt.shows_header _ _ body
        (((((hclause.behind "for (").before "; ").before _).before "; ").before _)
    · exact Stmt.shows_header _ _ body
        ((((Expr.within_renderOptional h).behind _).before "; ").before _)
    · exact Stmt.shows_header _ _ body ((Expr.within_renderOptional h).behind _)
    · exact Stmt.shows _ _ body hbody h

/-- Every text that is rendered for a sequence of statements stands in their lines. -/
theorem Stmt.allShows {σ : Snapshot} (depth : Nat) {r : Rendering} :
    (ss : List Stmt) → Stmt.AllWellFormed ss → r ∈ Stmt.allRenderings σ ss →
      Shows (Stmt.renderAll σ.values depth ss).2 r.text
  | [], _, h => by simp [Stmt.allRenderings] at h
  | s :: ss, hwf, h => by
    rw [Stmt.AllWellFormed] at hwf
    rw [Stmt.allRenderings] at h
    rw [Stmt.renderAll]
    rcases List.mem_append.mp h with h | h
    · exact (Stmt.shows depth .plain s hwf.1 h).close.append_left _
    · rw [Stmt.render_values _ depth 0 .plain .plain s]
      exact (Stmt.allShows depth ss hwf.2 h).append_right _

end

/-! ### Programs -/

/-- Rendered expressions keep their structure.  If no assignment is directly an assigned or initial
value, the text of every expression that is rendered for a parsed program stands in the output, and
with a semicolon behind it it is parsed as one statement: an expression which is, but for its
parentheses, the rendered one with numbers as they are rendered and with each name replaced by the
tree of its value. -/
theorem rendered_texts_read_back {text : List Char} {p : Program}
    (hparse : parse (tokenize text) = .ok p) (hunchained : Stmt.allUnchained p = true) :
    ∀ r ∈ renderings p,
      (∃ line ∈ renderLines p, r.text.toList <:+: line.toList) ∧
      ∃ e, parse (tokenize (r.text.toList ++ [';'])) = .ok [.expression e] ∧
        e.ungrouped = r.tree := by
  intro r hr
  obtain ⟨hwf, -⟩ := parse_takes hparse
  have hkeeps := Stmt.allKeeps .initial p hwf (unparse_legible hparse) hunchained
  exact ⟨Stmt.allShows 0 p hwf hr, (hkeeps.reads r hr).parse_eq⟩

/-- In the last line of the block of
`tibuok x = 007; tibuok y = -x; { lutaw x = y - 1.50; imprenta_gawas -y * (y = !x) < z; }` the signs
of values are shielded, and the value of the inner `x` stands for it in parentheses. -/
theorem rendered_texts_shielded :
    let value : Expr := .binary .subtract (.name "y") (.literal .float "1.50")
    let product : Expr := .binary .multiply (.unary .negate (.name "y"))
      (.group (.assign "y" (.unary .not (.name "x"))))
    let p : Program :=
      [.declare "tibuok" "x" (.literal .int "007"),
        .declare "tibuok" "y" (.unary .negate (.name "x")),
        .block [.declare "lutaw" "x" value, .print (.binary .less product (.name "z"))]]
    let text := ("tibuok x = 007; tibuok y = -x; " ++
      "\x7b lutaw x = y - 1.50; imprenta_gawas -y * (y = !x) < z; \x7d").toList
    let negated : Expr := .unary .negate (.literal .int "7")
    let tree : Expr := .binary .less
      (.binary .multiply (.unary .negate negated)
        (.assign "y" (.unary .not (.binary .subtract negated (.literal .float "1.5")))))
      (.name "undefined")
    let rendered := "((-(-7) * (y = !(-7 - 1.5))) < undefined)"
    parse (tokenize text) = .ok p ∧ Stmt.allUnchained p = true ∧
      (∃ line ∈ renderLines p, rendered.toList <:+: line.toList) ∧
      ∃ e, parse (tokenize (rendered.toList ++ [';'])) = .ok [.expression e] ∧
        e.ungrouped = tree := by
  intro value product p text negated tree rendered
  have hparse : parse (tokenize text) = .ok p := by
    refine parse_of_spelled ?_ ?_
    · simp only [p, value, product, WellFormed, Stmt.AllWellFormed, Stmt.WellFormed]
      decide
    · simp only [text]
      decide +kernel
  have hunchained : Stmt.allUnchained p = true := by decide
  have hlast : ∃ r ∈ renderings p, r.text = rendered ∧ r.tree = tree := by decide +kernel
  obtain ⟨r, hr, htext, htree⟩ := hlast
  obtain ⟨hline, e, he, hungrouped⟩ := rendered_texts_read_back hparse hunchained r hr
  rw [htext] at hline he
  exact ⟨hparse, hunchained, hline, e, he, hungrouped.trans htree⟩

end Binisaya
