import Binisaya.Proofs.Grammar.Literals
import Binisaya.Proofs.Rendering.Output

/-!
# Generating text step by step

A generator writes a program out line by line.  It keeps the depth of indentation and the values of
the open blocks, and it takes back the last line where the alternative of a conditional goes on in
it.  Main statement: a statement leaves the depth as it was and adds exactly the lines that are
rendered for it, so the line taken back is the one that closes the consequent's block.
-/

namespace Binisaya

/-- A generator at work: the values of names, the lines written so far, and the depth of the next
line. -/
structure Generator where
  values : Values
  lines : List String
  depth : Nat
  deriving DecidableEq, Repr

namespace Generator

/-- A generator that has written nothing. -/
def initial : Generator := ⟨.initial, [], 0⟩

/-- Writes a line. -/
def line (g : Generator) (text : String) : Generator :=
  { g with lines := g.lines ++ [indentedLine g.depth text] }

/-- Takes the last line back. -/
def dropLine (g : Generator) : Generator := { g with lines := g.lines.dropLast }

/-- Goes one level deeper. -/
def indent (g : Generator) : Generator := { g with depth := g.depth + 1 }

/-- Comes one level up. -/
def dedent (g : Generator) : Generator := { g with depth := g.depth - 1 }

/-- Goes on with other values. -/
def withValues (g : Generator) (values : Values) : Generator := { g with values }

/-- What stands in front of the consequent of a conditional. -/
def header (g : Generator) (front : String) (condition : Expr) : String :=
  front ++ "if (" ++ (condition.render g.values).2 ++ ") "

/-- The values after some lines, and these lines behind the others. -/
def after (g : Generator) (r : Values × List String) : Generator :=
  ⟨r.1, g.lines ++ r.2, g.depth⟩

section

variable (g : Generator) (values : Values) (r r' : Values × List String)

@[simp] theorem after_values : (g.after r).values = r.1 := rfl

@[simp] theorem after_depth : (g.after r).depth = g.depth := rfl

@[simp] theorem after_after : (g.after r).after r' = g.after (r'.1, r.2 ++ r'.2) := by simp [after]

@[simp] theorem withValues_values : (g.withValues values).values = values := rfl

@[simp] theorem withValues_depth : (g.withValues values).depth = g.depth := rfl

@[simp] theorem withValues_after : (g.withValues values).after r = g.after r := rfl

end

mutual

/-- Writes a statement. -/
def statement (g : Generator) : Stmt → Generator
  | .absent => g
  | .declare type name initial =>
    let text := renderDeclaration g.values type name initial
    (g.withValues text.1).line (text.2 ++ ";")
  | .print value =>
    let text := value.render g.values
    (g.withValues text.1).line ("print(" ++ text.2 ++ ");")
  | .expression value =>
    let text := value.render g.values
    (g.withValues text.1).line (text.2 ++ ";")
  | .block body => g.block "" body
  | .ifElse condition consequent alternative => g.conditional "" condition consequent alternative
  | .whileLoop condition body =>
    let test := condition.render g.values
    (g.withValues test.1).branch ("while (" ++ test.2 ++ ") ") body
  | .forLoop initial condition increment body =>
    let before := renderInitial g.values.push initial
    let test := condition.renderOptional before.1
    let step := increment.renderOptional test.1
    let done := (g.withValues step.1).branch
      ("for (" ++ before.2 ++ "; " ++ test.2 ++ "; " ++ step.2 ++ ") ") body
    done.withValues done.values.pop
termination_by s => 4 * sizeOf s

/-- Writes a conditional behind the given text.  If the consequent is a block, the alternative goes
on in the line that closes it. -/
def conditional (g : Generator) (front : String) (condition : Expr)
    (consequent alternative : Stmt) : Generator :=
  let first := g.consequent front condition consequent
  if alternative.isAbsent then first
  else if consequent.isBlock then first.dropLine.alternative "\x7d else " alternative
  else first.alternative "else " alternative
termination_by 4 * (sizeOf consequent + sizeOf alternative) + 3

/-- Writes the condition of a conditional behind the given text, and its consequent. -/
def consequent (g : Generator) (front : String) (condition : Expr) (s : Stmt) : Generator :=
  (g.withValues (condition.render g.values).1).branch (g.header front condition) s
termination_by 4 * sizeOf s + 2

/-- Writes the alternative of a conditional behind the given text.  Another conditional stays on the
same line. -/
def alternative (g : Generator) (front : String) : Stmt → Generator
  | .ifElse condition consequent alternative => g.conditional front condition consequent alternative
  | s => g.branch front s
termination_by s => 4 * sizeOf s + 2

/-- Writes a body behind its header, which shares the line of the brace if the body is a block. -/
def branch (g : Generator) (header : String) : Stmt → Generator
  | .block body => g.block header body
  | s => ((g.line (dropEndSpace header)).indent.statement s).dedent
termination_by s => 4 * sizeOf s + 1

/-- Writes a block behind its header. -/
def block (g : Generator) (header : String) (body : List Stmt) : Generator :=
  let opened := (g.line (header ++ "\x7b")).indent
  let inner := (opened.withValues opened.values.push).statements body
  (inner.withValues inner.values.pop).dedent.line "\x7d"
termination_by 4 * sizeOf body + 1

/-- Writes a sequence of statements. -/
def statements (g : Generator) : List Stmt → Generator
  | [] => g
  | s :: ss => (g.statement s).statements ss
termination_by ss => 4 * sizeOf ss

end

/-- The text of the lines written so far. -/
def text (g : Generator) : String :=
  if g.lines.isEmpty then "" else String.intercalate "\n" g.lines ++ "\n"

end Generator

/-! ### Lines that are rendered for a statement -/

/-- Whether a statement is a conditional. -/
def Stmt.isConditional : Stmt → Bool
  | .ifElse _ _ _ => true
  | _ => false

/-- The body of a header that takes a line of its own is rendered one level deeper. -/
theorem Stmt.render_header {s : Stmt} (h : s.isBlock = false) (values : Values) (depth : Nat)
    (header : String) :
    s.render values depth (.header header) =
      ((s.render values (depth + 1) .plain).1,
        indentedLine depth (dropEndSpace header) :: (s.render values (depth + 1) .plain).2) := by
  cases s with
  | block body => cases h
  | ifElse condition consequent alternative =>
    rw [Stmt.render_ifElse, Stmt.render_ifElse]
    rfl
  | _ =>
    rw [Stmt.render, Stmt.render]
    rfl

/-- The word for the alternative is a header like any other, unless a conditional is behind it. -/
theorem Stmt.render_alternative {s : Stmt} (h : s.isConditional = false) (values : Values)
    (depth : Nat) (front : String) :
    s.render values depth (.alternative front) = s.render values depth (.header front) := by
  cases s with
  | ifElse condition consequent alternative => cases h
  | _ =>
    rw [Stmt.render, Stmt.render]
    rfl

theorem Stmt.render_conditional (values : Values) (depth : Nat) (condition : Expr)
    (consequent alternative : Stmt) :
    (Stmt.ifElse condition consequent alternative).render values depth .plain =
      (Stmt.ifElse condition consequent alternative).render values depth (.alternative "") := by
  rw [Stmt.render_ifElse, Stmt.render_ifElse]
  rfl

/-- The last line of a block closes it. -/
theorem Stmt.render_lines_of_isBlock {s : Stmt} (h : s.isBlock = true) (values : Values)
    (depth : Nat) (lead : Lead) :
    (s.render values depth lead).2 =
      s.openLines values depth lead ++ [indentedLine depth "\x7d"] := by
  cases s with
  | block body =>
    rw [Stmt.openLines_block, Stmt.render]
  | _ => cases h

/-! ### Frames of values -/

theorem Expr.render_depth (values : Values) (e : Expr) :
    (e.render values).1.depth = values.depth := by
  induction e generalizing values with
  | absent | literal | name => rfl
  | binary op left right ihl ihr => rw [render, ihr, ihl]
  | unary op operand ih | group operand ih => rw [render, ih]
  | assign target value ih => rw [render, Scopes.depth_assign, ih]

theorem renderDeclaration_depth (values : Values) (type name : String) (initial : Expr) :
    (renderDeclaration values type name initial).1.depth = values.depth := by
  unfold renderDeclaration
  split
  · rfl
  · exact initial.render_depth values

theorem renderInitial_depth (values : Values) (s : Stmt) :
    (renderInitial values s).1.depth = values.depth := by
  cases s with
  | declare type name initial => exact renderDeclaration_depth values type name initial
  | expression e => exact e.render_depth values
  | _ => rfl

mutual

/-- A statement leaves as many frames of values as there were before it. -/
theorem Stmt.render_depth (values : Values) (depth : Nat) (lead : Lead) :
    (s : Stmt) → (s.render values depth lead).1.depth = values.depth
  | .absent => by rw [Stmt.render]
  | .declare type name initial => by
    rw [Stmt.render]
    exact renderDeclaration_depth values type name initial
  | .print value | .expression value => by
    rw [Stmt.render]
    exact value.render_depth values
  | .block body => by
    rw [Stmt.render]
    exact Scopes.depth_pop (Stmt.renderAll_depth values.push (depth + 1) body)
  | .ifElse condition consequent alternative => by
    rw [Stmt.render_ifElse, Stmt.render_depth _ _ _ alternative, Stmt.render_depth _ _ _ consequent,
      condition.render_depth]
  | .whileLoop condition body => by
    rw [Stmt.render, Stmt.render_depth _ _ _ body, condition.render_depth]
  | .forLoop initial condition increment body => by
    rw [Stmt.render]
    apply Scopes.depth_pop
    rw [Stmt.render_depth _ _ _ body, Expr.renderOptional_values, increment.render_depth,
      Expr.renderOptional_values, condition.render_depth, renderInitial_depth]

theorem Stmt.renderAll_depth (values : Values) (depth : Nat) :
    (ss : List Stmt) → (Stmt.renderAll values depth ss).1.depth = values.depth
  | [] => by rw [Stmt.renderAll]
  | s :: ss => by
    rw [Stmt.renderAll, Stmt.renderAll_depth _ depth ss, Stmt.render_depth values depth .plain s]

end

namespace Generator

/-- A statement is written as it is rendered, wherever it stands. -/
structure Writes (s : Stmt) : Prop where
  statement : ∀ g : Generator, g.statement s = g.after (s.render g.values g.depth .plain)
  branch : ∀ (g : Generator) (header : String),
    g.branch header s = g.after (s.render g.values g.depth (.header header))
  alternative : ∀ (g : Generator) (front : String),
    g.alternative front s = g.after (s.render g.values g.depth (.alternative front))

namespace Writes

theorem of_statement {s : Stmt} (hblock : s.isBlock = false)
    (hconditional : s.isConditional = false)
    (h : ∀ g : Generator, g.statement s = g.after (s.render g.values g.depth .plain)) :
    Writes s := by
  have hbranch : ∀ (g : Generator) (header : String),
      g.branch header s = g.after (s.render g.values g.depth (.header header)) := by
    intro g header
    have hstep : g.branch header s =
        ((g.line (dropEndSpace header)).indent.statement s).dedent := by
      cases s with
      | block body => cases hblock
      | _ =>
        rw [Generator.branch]
        nofun
    rw [hstep, h, Stmt.render_header hblock]
    simp [after, line, indent, dedent]
  refine ⟨h, hbranch, fun g front => ?_⟩
  have hstep : g.alternative front s = g.branch front s := by
    cases s with
    | ifElse condition consequent alternative => cases hconditional
    | _ =>
      rw [Generator.alternative]
      nofun
  rw [hstep, hbranch, Stmt.render_alternative hconditional]

theorem of_block {body : List Stmt}
    (h : ∀ g : Generator, g.statements body = g.after (Stmt.renderAll g.values g.depth body)) :
    Writes (.block body) := by
  have hblock : ∀ (g : Generator) (lead : Lead),
      g.block lead.text body = g.after ((Stmt.block body).render g.values g.depth lead) := by
    intro g lead
    rw [Generator.block, h, Stmt.render]
    simp [after, line, indent, dedent, withValues]
  refine ⟨fun g => ?_, fun g header => ?_, fun g front => ?_⟩
  · rw [Generator.statement]
    exact hblock g .plain
  · rw [Generator.branch]
    exact hblock g (.header header)
  · rw [Generator.alternative, Generator.branch]
    · exact hblock g (.alternative front)
    · nofun

/-- Behind a block, the line taken back is the one that closes it. -/
theorem dropLine_after {s : Stmt} (h : s.isBlock = true) (g : Generator) (values : Values)
    (depth : Nat) (lead : Lead) :
    (g.after (s.render values depth lead)).dropLine =
      g.after ((s.render values depth lead).1, s.openLines values depth lead) := by
  rw [after, dropLine, Stmt.render_lines_of_isBlock h, ← List.append_assoc, List.dropLast_concat]
  rfl

theorem conditional {consequent alternative : Stmt} (hc : Writes consequent)
    (ha : Writes alternative) (g : Generator) (front : String) (condition : Expr) :
    g.conditional front condition consequent alternative =
      g.after ((Stmt.ifElse condition consequent alternative).render g.values g.depth
        (.alternative front)) := by
  rw [Generator.conditional, Generator.consequent, hc.branch, Stmt.render_ifElse]
  simp only [header, Lead.conditionalDepth, Lead.ofConditional, Lead.text, Lead.conditionalLine,
    List.nil_append]
  cases habsent : alternative.isAbsent with
  | true =>
    obtain rfl := Stmt.eq_absent_of_isAbsent habsent
    simp [Stmt.render]
  | false =>
    cases hblock : consequent.isBlock with
    | true => simp [dropLine_after hblock, ha.alternative]
    | false => simp [Stmt.openLines_eq hblock, ha.alternative]

theorem of_conditional {consequent alternative : Stmt} (hc : Writes consequent)
    (ha : Writes alternative) (condition : Expr) :
    Writes (.ifElse condition consequent alternative) := by
  have hplain : ∀ g : Generator, g.statement (.ifElse condition consequent alternative) =
      g.after ((Stmt.ifElse condition consequent alternative).render g.values g.depth .plain) := by
    intro g
    rw [Generator.statement, hc.conditional ha, Stmt.render_conditional]
  refine ⟨hplain, fun g header => ?_, fun g front => ?_⟩
  · rw [Generator.branch, hplain, Stmt.render_header rfl]
    · simp [after, line, indent, dedent]
    · nofun
  · rw [Generator.alternative, hc.conditional ha]

end Writes

mutual

/-- Every statement is written as it is rendered. -/
theorem writes : (s : Stmt) → Writes s
  | .absent => .of_statement rfl rfl fun g => by
    rw [Generator.statement, Stmt.render]
    simp [after, Lead.ownLine]
  | .declare type name initial => .of_statement rfl rfl fun g => by
    rw [Generator.statement, Stmt.render]
    rfl
  | .print value => .of_statement rfl rfl fun g => by
    rw [Generator.statement, Stmt.render]
    rfl
  | .expression value => .of_statement rfl rfl fun g => by
    rw [Generator.statement, Stmt.render]
    rfl
  | .block body => .of_block (statements_eq body)
  | .ifElse condition consequent alternative =>
    .of_conditional (writes consequent) (writes alternative) condition
  | .whileLoop condition body => .of_statement rfl rfl fun g => by
    rw [Generator.statement, (writes body).branch, Stmt.render]
    rfl
  | .forLoop initial condition increment body => .of_statement rfl rfl fun g => by
    rw [Generator.statement, (writes body).branch, Stmt.render]
    rfl

theorem statements_eq : (ss : List Stmt) → (g : Generator) →
    g.statements ss = g.after (Stmt.renderAll g.values g.depth ss)
  | [], g => by
    rw [Generator.statements, Stmt.renderAll]
    simp [after]
  | s :: ss, g => by
    rw [Generator.statements, (writes s).statement, statements_eq ss, Stmt.renderAll]
    simp [after]

end

/-- A statement leaves the depth and the number of open frames as they were. -/
theorem statement_balanced (g : Generator) (s : Stmt) :
    (g.statement s).depth = g.depth ∧ (g.statement s).values.depth = g.values.depth := by
  rw [(writes s).statement]
  exact ⟨rfl, Stmt.render_depth g.values g.depth .plain s⟩

theorem intercalate_newline (line : String) (lines : List String) :
    String.intercalate "\n" (line :: lines) ++ "\n" =
      String.join ((line :: lines).map (· ++ "\n")) := by
  induction lines generalizing line with
  | nil => simp
  | cons next lines ih =>
    rw [String.intercalate_cons_cons, String.append_assoc, ih, List.map_cons (l := next :: lines),
      String.join_cons]

/-- A program is written as it is rendered. -/
theorem text_statements (p : Program) : (initial.statements p).text = renderProgram p := by
  have hlines : (initial.statements p).lines = renderLines p := by
    rw [statements_eq]
    rfl
  rw [text, hlines, renderProgram]
  cases renderLines p with
  | nil => rfl
  | cons line lines => exact intercalate_newline line lines

end Generator

/-! ### Alternatives that go on in the line of a brace -/

theorem indentedLine_append (depth : Nat) (text rest : String) :
    indentedLine depth (text ++ rest) = indentedLine depth text ++ rest := by
  rw [indentedLine, indentedLine, String.append_assoc]

theorem dropEndSpace_space (text : String) : dropEndSpace (text ++ " ") = text := by
  have hchars : (text ++ " ").toList = text.toList ++ [' '] := by simp
  unfold dropEndSpace
  rw [hchars, List.getLast?_concat, List.dropLast_concat, String.ofList_toList]
  rfl

namespace Stmt

/-- The lines of a body begin with its header. -/
theorem exists_openLines_header (values : Values) (depth : Nat) (front : String) (s : Stmt) :
    ∃ rest others, s.openLines values depth (.header (front ++ " ")) =
      (indentedLine depth front ++ rest) :: others := by
  cases hblock : s.isBlock with
  | true =>
    cases s with
    | block body =>
      rw [openLines_block, Lead.text, String.append_assoc, indentedLine_append]
      exact ⟨_, _, rfl⟩
    | _ => cases hblock
  | false =>
    rw [openLines_eq hblock, render_header hblock, dropEndSpace_space]
    exact ⟨"", _, by rw [String.append_empty]⟩

theorem exists_render_header (values : Values) (depth : Nat) (front : String) (s : Stmt) :
    ∃ rest others, (s.render values depth (.header (front ++ " "))).2 =
      (indentedLine depth front ++ rest) :: others := by
  obtain ⟨rest, others, hopen⟩ := s.exists_openLines_header values depth front
  cases hblock : s.isBlock with
  | true =>
    rw [render_lines_of_isBlock hblock, hopen]
    exact ⟨rest, _, rfl⟩
  | false => exact ⟨rest, others, openLines_eq hblock ▸ hopen⟩

/-- The lines of an alternative begin with the word for it, also if it is a conditional. -/
theorem exists_render_alternative (values : Values) (depth : Nat) (front : String) (s : Stmt) :
    ∃ rest others, (s.render values depth (.alternative (front ++ " "))).2 =
      (indentedLine depth front ++ rest) :: others := by
  cases hconditional : s.isConditional with
  | false =>
    rw [render_alternative hconditional]
    exact s.exists_render_header values depth front
  | true =>
    cases s with
    | ifElse condition consequent alternative =>
      have hheader : front ++ " " ++ "if (" ++ (condition.render values).2 ++ ") " =
          front ++ (" if (" ++ (condition.render values).2 ++ ")") ++ " " := by
        rw [← String.toList_inj]
        simp
      rw [render_ifElse]
      simp only [Lead.ofConditional, Lead.text, Lead.conditionalLine, Lead.conditionalDepth,
        hheader, List.nil_append]
      split
      · obtain ⟨rest, others, hlines⟩ := consequent.exists_render_header (condition.render values).1
          depth (front ++ (" if (" ++ (condition.render values).2 ++ ")"))
        rw [hlines, indentedLine_append, String.append_assoc]
        exact ⟨_, _, rfl⟩
      · obtain ⟨rest, others, hlines⟩ :=
          consequent.exists_openLines_header (condition.render values).1 depth
            (front ++ (" if (" ++ (condition.render values).2 ++ ")"))
        rw [hlines, indentedLine_append, String.append_assoc]
        exact ⟨_, _, rfl⟩
    | _ => cases hconditional

end Stmt

namespace Generator

theorem consequent_lines (g : Generator) (front : String) (condition : Expr) (s : Stmt) :
    (g.consequent front condition s).lines =
      g.lines ++ (s.render (condition.render g.values).1 g.depth
        (.header (g.header front condition))).2 := by
  rw [consequent, (writes s).branch]
  rfl

theorem conditional_lines (g : Generator) (front : String) (condition : Expr) (consequent : Stmt)
    {alternative : Stmt} (h : alternative.isAbsent = false) :
    ∃ rest others, (g.conditional front condition consequent alternative).lines =
      g.lines ++ consequent.openLines (condition.render g.values).1 g.depth
          (.header (g.header front condition)) ++
        (indentedLine g.depth (if consequent.isBlock then "\x7d else" else "else") ++ rest) ::
          others := by
  have hword : (if consequent.isBlock then "\x7d else " else "else ") =
      (if consequent.isBlock then "\x7d else" else "else") ++ " " := by
    split <;> rfl
  rw [(writes consequent).conditional (writes alternative), Stmt.render_ifElse, hword, h]
  obtain ⟨rest, others, hlines⟩ := alternative.exists_render_alternative
    (consequent.render (condition.render g.values).1 g.depth (.header (g.header front condition))).1
    g.depth (if consequent.isBlock then "\x7d else" else "else")
  refine ⟨rest, others, ?_⟩
  rw [List.append_assoc, ← hlines]
  rfl

/-- Behind a block the alternative goes on in the line of the brace that closes this block. -/
theorem conditional_joins (g : Generator) (front : String) (condition : Expr) (body : List Stmt)
    {alternative : Stmt} (h : alternative.isAbsent = false) :
    let inner := (Stmt.renderAll (condition.render g.values).1.push (g.depth + 1) body).2
    ∃ rest others,
      (g.consequent front condition (.block body)).lines =
        g.lines ++ indentedLine g.depth (g.header front condition ++ "\x7b") :: inner ++
          [indentedLine g.depth "\x7d"] ∧
      (g.conditional front condition (.block body) alternative).lines =
        g.lines ++ indentedLine g.depth (g.header front condition ++ "\x7b") :: inner ++
          (indentedLine g.depth "\x7d else" ++ rest) :: others := by
  obtain ⟨rest, others, hlines⟩ := g.conditional_lines front condition (.block body) h
  rw [Stmt.openLines_block] at hlines
  refine ⟨rest, others, ?_, hlines⟩
  rw [consequent_lines, Stmt.render_lines_of_isBlock rfl, Stmt.openLines_block, ← List.append_assoc]
  rfl

/-- Behind another statement the alternative begins a line of its own. -/
theorem conditional_appends (g : Generator) (front : String) (condition : Expr)
    {consequent alternative : Stmt} (hblock : consequent.isBlock = false)
    (h : alternative.isAbsent = false) :
    ∃ rest others, (g.conditional front condition consequent alternative).lines =
      (g.consequent front condition consequent).lines ++
        (indentedLine g.depth "else" ++ rest) :: others := by
  obtain ⟨rest, others, hlines⟩ := g.conditional_lines front condition consequent h
  rw [Stmt.openLines_eq hblock, ← consequent_lines, hblock] at hlines
  exact ⟨rest, others, hlines⟩

end Generator

end Binisaya
