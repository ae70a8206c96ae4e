import Binisaya.Proofs.Rendering.Braceless
import Binisaya.Proofs.Rendering.Generator
import Binisaya.Proofs.Typing.Restoration

/-!
# Braces in rendered text

`Nests d cs n e`: with `d` braces open before them, the characters `cs` open `n` braces, close none
that is not open, and leave `e` open.  Main statement: if no string of a program has a brace, its
rendered text opens and closes one for each of its blocks.
-/

namespace Binisaya

/-! ### Nesting -/

/-- How characters nest braces, with some open before them. -/
structure Nests (d : Nat) (cs : List Char) (n e : Nat) : Prop where
  opens : cs.count '\x7b' = n
  closes : d + n = e + cs.count '\x7d'
  within : ∀ front, front <+: cs → front.count '\x7d' ≤ d + front.count '\x7b'

namespace Nests

variable {d n e m f : Nat} {cs ds : List Char} {text : String}

theorem append (h : Nests d cs n e) (h' : Nests e ds m f) : Nests d (cs ++ ds) (n + m) f := by
  refine ⟨by rw [List.count_append, h.opens, h'.opens], ?_, ?_⟩
  · have hfirst := h.closes
    have hsecond := h'.closes
    rw [List.count_append]
    omega
  · intro front hfront
    rcases List.prefix_or_prefix_of_prefix hfront (List.prefix_append cs ds) with
      hshort | ⟨rest, rfl⟩
    · exact h.within front hshort
    · have hrest := h'.within rest ((List.prefix_append_right_inj cs).mp hfront)
      have hopens := h.opens
      have hcloses := h.closes
      rw [List.count_append, List.count_append]
      omega

theorem of_braceless (h : Braceless text) (d : Nat) : Nests d text.toList 0 d := by
  have hopen : text.toList.count '\x7b' = 0 := List.count_eq_zero.mpr h.1
  have hclose : text.toList.count '\x7d' = 0 := List.count_eq_zero.mpr h.2
  refine ⟨hopen, by rw [hclose], ?_⟩
  intro front hfront
  have hle := hfront.sublist.count_le '\x7d'
  omega

theorem opening (d : Nat) : Nests d "\x7b".toList 1 (d + 1) := by
  have hclose : "\x7b".toList.count '\x7d' = 0 := by decide
  refine ⟨by decide, by rw [hclose], ?_⟩
  intro front hfront
  have hle := hfront.sublist.count_le '\x7d'
  omega

theorem closing (d : Nat) : Nests (d + 1) "\x7d".toList 0 d := by
  have hclose : "\x7d".toList.count '\x7d' = 1 := by decide
  refine ⟨by decide, by rw [hclose], ?_⟩
  intro front hfront
  have hle := hfront.sublist.count_le '\x7d'
  omega

/-- A text without braces behind others changes nothing. -/
theorem append_braceless (h : Nests d cs n e) (htext : Braceless text) :
    Nests d (cs ++ text.toList) n e := h.append (of_braceless htext e)

/-- A text without braces in front of others changes nothing. -/
theorem braceless_append (h : Nests d cs n e) (htext : Braceless text) :
    Nests d (text.toList ++ cs) n e := by
  simpa using (of_braceless htext d).append h

theorem of_append_braceless (h : Nests d (cs ++ text.toList) n e) (htext : Braceless text) :
    Nests d cs n e := by
  have hopen : text.toList.count '\x7b' = 0 := List.count_eq_zero.mpr htext.1
  have hclose : text.toList.count '\x7d' = 0 := List.count_eq_zero.mpr htext.2
  have hopens := h.opens
  have hcloses := h.closes
  rw [List.count_append] at hopens hcloses
  refine ⟨by omega, by omega, ?_⟩
  intro front hfront
  exact h.within front (hfront.trans (List.prefix_append cs _))

theorem dropEndSpace (h : Nests d text.toList n e) :
    Nests d (dropEndSpace text).toList n e := by
  unfold Binisaya.dropEndSpace
  split
  · next hlast =>
    obtain ⟨front, hfront⟩ := List.getLast?_eq_some_iff.mp hlast
    rw [hfront, show [' '] = " ".toList from rfl] at h
    rw [hfront, List.dropLast_concat, String.toList_ofList]
    have hspace : Braceless " " := by decide
    exact h.of_append_braceless hspace
  · exact h

end Nests

/-- The characters of some lines, each with its end. -/
def lineChars (lines : List String) : List Char :=
  (String.join (lines.map fun line => line ++ "\n")).toList

theorem lineChars_append (lines lines' : List String) :
    lineChars (lines ++ lines') = lineChars lines ++ lineChars lines' := by
  rw [lineChars, List.map_append, String.join_append, String.toList_append]
  rfl

theorem Nests.line {d n e : Nat} {text : String} (h : Nests d text.toList n e) (depth : Nat) :
    Nests d (lineChars [indentedLine depth text]) n e := by
  have hindent : Braceless (String.join (List.replicate depth "    ")) := by
    refine .of_forall (q := (· == ' ')) ?_ rfl rfl
    intro c hc
    rw [String.toList_join, List.mem_flatMap] at hc
    obtain ⟨unit, hunit, hc⟩ := hc
    rw [List.eq_of_mem_replicate hunit] at hc
    simpa using hc
  have hend : Braceless "\n" := by decide
  have hchars : lineChars [indentedLine depth text] =
      ((String.join (List.replicate depth "    ")).toList ++ text.toList) ++ "\n".toList := by
    simp [lineChars, indentedLine]
  rw [hchars]
  exact (h.braceless_append hindent).append_braceless hend

/-! ### Statements -/

/-- The number of blocks in a statement. -/
def Stmt.blocks (s : Stmt) : Nat := s.parts.countP Stmt.isBlock

/-- The number of blocks in a sequence of statements. -/
def Stmt.allBlocks (ss : List Stmt) : Nat := (Stmt.allParts ss).countP Stmt.isBlock

/-- The number of braces that the lines of a statement leave open without the line that closes a
block. -/
def Stmt.openBraces (s : Stmt) : Nat := if s.isBlock then 1 else 0

namespace Lead

variable {d₀ d : Nat} {lead : Lead}

theorem nests_plain (d : Nat) : Nests d plain.text.toList 0 d := .of_braceless .empty d

theorem nests_header {text : String} (h : Braceless text) (d : Nat) :
    Nests d (header text).text.toList 0 d := .of_braceless h d

theorem nests_ownLine (h : Nests d₀ lead.text.toList 0 d) (depth : Nat) :
    Nests d₀ (lineChars (lead.ownLine depth)) 0 d := by
  cases lead with
  | plain => exact h
  | header text | alternative text => exact h.dropEndSpace.line depth

/-- What stands in front of a conditional stands in lines of its own or in front of its header. -/
theorem nests_conditional (h : Nests d₀ lead.text.toList 0 d) (depth : Nat) :
    ∃ d₁, Nests d₀ (lineChars (lead.conditionalLine depth)) 0 d₁ ∧
      Nests d₁ lead.ofConditional.text.toList 0 d := by
  cases lead with
  | plain => exact ⟨d, h, nests_plain d⟩
  | header text => exact ⟨d, h.dropEndSpace.line depth, nests_plain d⟩
  | alternative text => exact ⟨d₀, nests_plain d₀, h⟩

end Lead

/-- Lines that nest braces, and values without braces behind them. -/
structure Tidy (values : Values) (d : Nat) (lines : List String) (n e : Nat) : Prop where
  clean : values.Braceless
  nests : Nests d (lineChars lines) n e

namespace Tidy

variable {values values' : Values} {d d₀ n m e f depth : Nat} {lines lines' : List String}
  {lead : Lead} {text : String} {s : Stmt}

/-- A statement of one line. -/
theorem line (hvalues : values.Braceless) (hlead : Nests d₀ lead.text.toList 0 d)
    (htext : Braceless text) :
    Tidy values d₀ (lead.ownLine depth ++ [indentedLine (lead.inner depth) text]) 0 d := by
  refine ⟨hvalues, ?_⟩
  rw [lineChars_append]
  exact (Lead.nests_ownLine hlead depth).append ((Nests.of_braceless htext d).line _)

theorem behind (h : Nests d₀ (lineChars lines) 0 d) (h' : Tidy values d lines' n e) :
    Tidy values d₀ (lines ++ lines') n e := by
  refine ⟨h'.clean, ?_⟩
  rw [lineChars_append]
  simpa using h.append h'.nests

theorem append (h : Tidy values d lines n e) (h' : Tidy values' e lines' m f) :
    Tidy values' d (lines ++ lines') (n + m) f := by
  refine ⟨h'.clean, ?_⟩
  rw [lineChars_append]
  exact h.nests.append h'.nests

/-- The line that closes a block closes the brace that it left open. -/
theorem close (h : Tidy (s.render values depth lead).1 d₀ (s.openLines values depth lead) n
      (d + s.openBraces)) :
    Tidy (s.render values depth lead).1 d₀ (s.render values depth lead).2 n d := by
  cases hblock : s.isBlock with
  | true =>
    rw [Stmt.render_lines_of_isBlock hblock]
    rw [Stmt.openBraces, hblock] at h
    refine ⟨h.clean, ?_⟩
    rw [lineChars_append]
    exact h.nests.append ((Nests.closing d).line depth)
  | false =>
    rw [Stmt.openBraces, hblock, Stmt.openLines_eq hblock] at h
    exact h

end Tidy

mutual

/-- The lines of a statement behind a text open a brace for each of its blocks and close as many,
but for the line that closes it if it is a block. -/
theorem Stmt.tidy {values : Values} (hvalues : values.Braceless) (depth : Nat) {lead : Lead}
    {d₀ d : Nat} (hlead : Nests d₀ lead.text.toList 0 d) : (s : Stmt) → s.WellFormed →
    (∀ l ∈ s.unparse, l.Tame) →
      Tidy (s.render values depth lead).1 d₀ (s.openLines values depth lead) s.blocks
        (d + s.openBraces)
  | .absent, hwf, _ => by simp [Stmt.WellFormed] at hwf
  | .declare type name initial, hwf, htame => by
    obtain ⟨hvalues₁, htext⟩ := braceless_renderDeclaration hvalues hwf htame
    rw [Stmt.openLines_eq rfl, Stmt.render]
    exact .line hvalues₁ hlead (htext.append (by decide))
  | .print value, hwf, htame => by
    rw [Stmt.WellFormed] at hwf
    obtain ⟨hvalues₁, htext⟩ := Expr.braceless_render hvalues hwf fun l hl =>
      htame l (by simp [Stmt.unparse, hl])
    rw [Stmt.openLines_eq rfl, Stmt.render]
    exact .line hvalues₁ hlead (htext.between (by decide) (by decide))
  | .expression value, hwf, htame => by
    rw [Stmt.WellFormed] at hwf
    obtain ⟨hvalues₁, htext⟩ := Expr.braceless_render hvalues hwf fun l hl =>
      htame l (by simp [Stmt.unparse, hl])
    rw [Stmt.openLines_eq rfl, Stmt.render]
    exact .line hvalues₁ hlead (htext.append (by decide))
  | .block body, hwf, htame => by
    rw [Stmt.WellFormed] at hwf
    have hbody := Stmt.allTidy hvalues.push (depth + 1) (d + 1) body hwf fun l hl =>
      htame l (by simp [Stmt.unparse, hl])
    have hfirst : Nests d₀ (lead.text ++ "\x7b").toList 1 (d + 1) := by
      rw [String.toList_append]
      simpa using hlead.append (.opening d)
    have hblocks : (Stmt.block body).blocks = 1 + Stmt.allBlocks body := by
      simp [Stmt.blocks, Stmt.allBlocks, Stmt.parts, Stmt.isBlock, List.countP_cons, Nat.add_comm]
    rw [Stmt.openLines_block, Stmt.render, hblocks]
    refine ⟨hbody.clean.pop, ?_⟩
    rw [← List.singleton_append, lineChars_append]
    exact (hfirst.line depth).append hbody.nests
  | .ifElse condition consequent alternative, hwf, htame => by
    rw [Stmt.WellFormed] at hwf
    obtain ⟨hcondition, hconsequent, -, halternative⟩ := hwf
    obtain ⟨hvalues₁, htest⟩ := Expr.braceless_render hvalues hcondition fun l hl =>
      htame l (by simp [Stmt.unparse, hl])
    obtain ⟨d₁, hline, hfront⟩ := Lead.nests_conditional hlead depth
    have hblocks : (Stmt.ifElse condition consequent alternative).blocks =
        consequent.blocks + alternative.blocks := by
      simp [Stmt.blocks, Stmt.parts, Stmt.isBlock]
    have hheader : Nests d₁ (Lead.header (lead.ofConditional.text ++ "if (" ++
        (condition.render values).2 ++ ") ")).text.toList 0 d := by
      have hif : Braceless ("if (" ++ (condition.render values).2 ++ ") ") :=
        htest.between (by decide) (by decide)
      simpa [Lead.text] using hfront.append_braceless hif
    have hfirst := Stmt.tidy hvalues₁ (lead.conditionalDepth depth) hheader consequent hconsequent
      fun l hl => htame l (by simp [Stmt.unparse, hl])
    rw [Stmt.openLines_eq rfl, Stmt.render_ifElse, hblocks]
    apply Tidy.behind hline
    rcases halternative with rfl | ⟨halternative, -, -⟩
    · have hnone : Stmt.absent.blocks = 0 := by simp [Stmt.blocks, Stmt.parts]
      rw [hnone, Stmt.render]
      exact hfirst.close
    · rw [halternative.isAbsent]
      have hword : Nests (d + consequent.openBraces) (Lead.alternative
          (if consequent.isBlock then "\x7d else " else "else ")).text.toList 0 d := by
        unfold Stmt.openBraces
        split
        · have helse : Braceless " else " := by decide
          exact (Nests.closing d).append_braceless helse
        · exact .of_braceless (by decide) d
      exact hfirst.append (Stmt.tidy hfirst.clean (lead.conditionalDepth depth) hword alternative
        halternative fun l hl => htame l (by simp [Stmt.unparse, halternative.isAbsent, hl])).close
  | .whileLoop condition body, hwf, htame => by
    rw [Stmt.WellFormed] at hwf
    obtain ⟨hcondition, hbody, -⟩ := hwf
    obtain ⟨hvalues₁, htest⟩ := Expr.braceless_render hvalues hcondition fun l hl =>
      htame l (by simp [Stmt.unparse, hl])
    have hheader : Braceless ("while (" ++ (condition.render values).2 ++ ") ") :=
      htest.between (by decide) (by decide)
    have hblocks : (Stmt.whileLoop condition body).blocks = body.blocks := by
      simp [Stmt.blocks, Stmt.parts, Stmt.isBlock]
    rw [Stmt.openLines_eq rfl, Stmt.render, hblocks]
    exact .behind (Lead.nests_ownLine hlead depth)
      (Stmt.tidy hvalues₁ (lead.inner depth) (Lead.nests_header hheader d) body hbody fun l hl =>
        htame l (by simp [Stmt.unparse, hl])).close
  | .forLoop initial condition increment body, hwf, htame => by
    rw [Stmt.WellFormed] at hwf
    obtain ⟨hinitial, hcondition, hincrement, hbody, -⟩ := hwf
    obtain ⟨hvalues₁, hbefore⟩ := braceless_renderInitial hvalues.push hinitial fun l hl => by
      rcases hinitial with rfl | ⟨hinitial, -⟩
      · simp [Stmt.unparse] at hl
      · exact htame l (by simp [Stmt.unparse, hinitial.isAbsent, hl])
    obtain ⟨hvalues₂, htest⟩ := Expr.braceless_renderOptional hvalues₁ hcondition fun l hl =>
      htame l (by simp [Stmt.unparse, hl])
    obtain ⟨hvalues₃, hstep⟩ := Expr.braceless_renderOptional hvalues₂ hincrement fun l hl =>
      htame l (by simp [Stmt.unparse, hl])
    have hsemicolon : Braceless "; " := by decide
    have hfor : Braceless "for (" := by decide
    have hclose : Braceless ") " := by decide
    have hclauses := (((hfor.append hbefore).append hsemicolon).append htest).append hsemicolon
    have hblocks : (Stmt.forLoop initial condition increment body).blocks = body.blocks := by
      rcases hinitial with rfl | ⟨-, hinitial⟩
      · simp [Stmt.blocks, Stmt.parts, Stmt.isBlock]
      · cases initial with
        | declare | expression => simp [Stmt.blocks, Stmt.parts, Stmt.isBlock]
        | _ => cases hinitial
    rw [Stmt.openLines_eq rfl, Stmt.render, hblocks]
    have hinner := (Stmt.tidy hvalues₃ (lead.inner depth)
      (Lead.nests_header (hstep.between hclauses hclose) d) body hbody fun l hl =>
        htame l (by simp [Stmt.unparse, hl])).close
    exact .behind (Lead.nests_ownLine hlead depth) ⟨hinner.clean.pop, hinner.nests⟩

theorem Stmt.allTidy {values : Values} (hvalues : values.Braceless) (depth d : Nat) :
    (ss : List Stmt) → Stmt.AllWellFormed ss → (∀ l ∈ Stmt.unparseAll ss, l.Tame) →
      Tidy (Stmt.renderAll values depth ss).1 d (Stmt.renderAll values depth ss).2
        (Stmt.allBlocks ss) d
  | [], _, _ => by
    rw [Stmt.renderAll, Stmt.allBlocks, Stmt.allParts]
    exact ⟨hvalues, .of_braceless .empty d⟩
  | s :: ss, hwf, htame => by
    rw [Stmt.AllWellFormed] at hwf
    have hfirst := (Stmt.tidy hvalues depth (Lead.nests_plain d) s hwf.1 fun l hl =>
      htame l (by simp [Stmt.unparseAll, hl])).close
    have hothers := Stmt.allTidy hfirst.clean depth d ss hwf.2 fun l hl =>
      htame l (by simp [Stmt.unparseAll, hl])
    have hblocks : Stmt.allBlocks (s :: ss) = s.blocks + Stmt.allBlocks ss := by
      simp [Stmt.blocks, Stmt.allBlocks, Stmt.allParts]
    rw [Stmt.renderAll, hblocks]
    exact hfirst.append hothers

end

/-! ### Programs -/

/-- If no string of a program has a brace, nor has any of its tokens that has not the kind of its
text, its rendered text opens a brace for each block and closes as many, none before it is open.  The
text is what a generator writes.  Every statement leaves the generator at the depth and with the
number of frames that it had before.  An alternative behind a block takes the place of the line that
closes this block, and of no other; behind another statement it begins a line of its own. -/
theorem rendered_braces_balance {ts : List Token} {p : Program}
    (hbraces : ∀ t ∈ ts, t.kind = classify t.text ∨
      ('\x7b' ∉ t.text.toList ∧ '\x7d' ∉ t.text.toList)) (hparse : parse ts = .ok p)
    (hstrings : ∀ s ∈ Stmt.allLiterals .string p, '\x7b' ∉ s.toList ∧ '\x7d' ∉ s.toList) :
    let text := (renderProgram p).toList
    let blocks := (Stmt.allParts p).countP Stmt.isBlock
    (text.count '\x7b' = blocks ∧ text.count '\x7d' = blocks ∧
      ∀ front, front <+: text → front.count '\x7d' ≤ front.count '\x7b') ∧
    (Generator.initial.statements p).text = renderProgram p ∧
    (∀ (g : Generator) s,
      (g.statement s).depth = g.depth ∧ (g.statement s).values.depth = g.values.depth) ∧
    (∀ (g : Generator) front condition body alternative, alternative.isAbsent = false →
      let opened := indentedLine g.depth (g.header front condition ++ "\x7b") ::
        (Stmt.renderAll (condition.render g.values).1.push (g.depth + 1) body).2
      ∃ rest others,
        (g.consequent front condition (.block body)).lines =
          g.lines ++ opened ++ [indentedLine g.depth "\x7d"] ∧
        (g.conditional front condition (.block body) alternative).lines =
          g.lines ++ opened ++ (indentedLine g.depth "\x7d else" ++ rest) :: others) ∧
    ∀ (g : Generator) front condition consequent alternative, consequent.isBlock = false →
      alternative.isAbsent = false →
      ∃ rest others, (g.conditional front condition consequent alternative).lines =
        (g.consequent front condition consequent).lines ++
          (indentedLine g.depth "else" ++ rest) :: others := by
  intro text blocks
  obtain ⟨hwf, -⟩ := parse_takes hparse
  have htidy := Stmt.allTidy .initial 0 0 p hwf (unparse_tame hbraces hparse hstrings)
  have hnests : Nests 0 text blocks 0 := htidy.nests
  refine ⟨⟨hnests.opens, ?_, ?_⟩, Generator.text_statements p, Generator.statement_balanced, ?_, ?_⟩
  · have hcloses := hnests.closes
    omega
  · intro front hfront
    simpa using hnests.within front hfront
  · intro g front condition body alternative halternative
    exact g.conditional_joins front condition body halternative
  · intro g front condition consequent alternative hconsequent halternative
    exact g.conditional_appends front condition hconsequent halternative

/-- The text `ug (x) { { x = 1; } } edi ug (y) imprenta_gawas "a"; edi samtang (z) { }` has three
blocks, one within another and one behind the second `else`. -/
theorem rendered_braces_of_chain :
    let p : Program :=
      [.ifElse (.name "x") (.block [.block [.expression (.assign "x" (.literal .int "1"))]])
        (.ifElse (.name "y") (.print (.literal .string "a")) (.whileLoop (.name "z") (.block [])))]
    let text := ("ug (x) \x7b \x7b x = 1; \x7d \x7d edi ug (y) imprenta_gawas \"a\"; edi " ++
      "samtang (z) \x7b \x7d").toList
    let rendered := "if (undefined) \x7b\n    \x7b\n        x = 1;\n    \x7d\n" ++
      "\x7d else if (undefined)\n    print(\"a\");\nelse\n    while (undefined) \x7b\n    \x7d\n"
    parse (tokenize text) = .ok p ∧ renderProgram p = rendered ∧
      (renderProgram p).toList.count '\x7b' = 3 ∧ (renderProgram p).toList.count '\x7d' = 3 ∧
      ∀ front, front <+: (renderProgram p).toList → front.count '\x7d' ≤ front.count '\x7b' := by
  intro p text rendered
  have hparse : parse (tokenize text) = .ok p := by
    refine parse_of_spelled ?_ ?_
    · simp [p, WellFormed, Stmt.AllWellFormed, Stmt.WellFormed, Expr.WellFormed,
        Expr.LiteralAllowed, Stmt.isDeclare, Stmt.endsOpen]
      decide
    · simp only [text]
      decide +kernel
  obtain ⟨⟨hopens, hcloses, hwithin⟩, -⟩ := rendered_braces_balance
    (fun t ht => .inl ((scan_splits [] text).text_cases ht).1) hparse (by decide)
  exact ⟨hparse, by decide +kernel, hopens, hcloses, hwithin⟩

/-- A token that is called a name although its text is a brace is read as a name, and the rendered
text opens a brace that no block has and that is never closed. -/
theorem rendered_brace_of_name :
    let ts : List Token :=
      [⟨.identifier, "\x7b", none⟩, ⟨.punctuation, "=", none⟩, ⟨.int, "1", none⟩,
        ⟨.punctuation, ";", none⟩]
    let p : Program := [.expression (.assign "\x7b" (.literal .int "1"))]
    parse ts = .ok p ∧
      (∀ s ∈ Stmt.allLiterals .string p, '\x7b' ∉ s.toList ∧ '\x7d' ∉ s.toList) ∧
      renderProgram p = "\x7b = 1;\n" ∧
      (renderProgram p).toList.count '\x7b' = 1 ∧ (renderProgram p).toList.count '\x7d' = 0 ∧
      (Stmt.allParts p).countP Stmt.isBlock = 0 := by
  intro ts p
  have hwf : WellFormed p := by
    simp only [p, WellFormed, Stmt.AllWellFormed, Stmt.WellFormed]
    decide
  have htokens : ts.map Token.bare = unparse p := by decide
  have hrendered : renderProgram p = "\x7b = 1;\n" := by decide +kernel
  refine ⟨parse_of_spelled hwf htokens, by decide, hrendered, ?_, ?_, by decide⟩
  · rw [hrendered]
    decide
  · rw [hrendered]
    decide

end Binisaya
