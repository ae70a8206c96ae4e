import Binisaya.Proofs.Rendering.Tracking

/-!
# Rendering keeps the structure of expressions

Statement by statement, texts and trees stay in agreement, so the text of every expression that is
rendered is read as its tree.
-/

namespace Binisaya

/-! ### What is known after statements -/

/-- The lines of a statement, without the brace that closes a block. -/
def Stmt.openLines (values : Values) (depth : Nat) (lead : Lead) (s : Stmt) : List String :=
  if s.isBlock then (s.render values depth lead).2.dropLast else (s.render values depth lead).2

/-- A conditional is rendered as its consequent and then its alternative, on whose first line a
block is closed. -/
theorem Stmt.render_ifElse (values : Values) (depth : Nat) (lead : Lead) (condition : Expr)
    (consequent alternative : Stmt) :
    let test := condition.render values
    let header := Lead.header (lead.ofConditional.text ++ "if (" ++ test.2 ++ ") ")
    let below := lead.conditionalDepth depth
    let first := consequent.render test.1 below header
    let second := alternative.render first.1 below
      (.alternative (if consequent.isBlock then "\x7d else " else "else "))
    (Stmt.ifElse condition consequent alternative).render values depth lead =
      (second.1, lead.conditionalLine depth ++
        if alternative.isAbsent then first.2
        else consequent.openLines test.1 below header ++ second.2) := by
  intro test header below first second
  rw [Stmt.render]
  cases alternative with
  | absent => simp [second, isAbsent, Stmt.render, test, header, below, first]
  | _ =>
    simp only [isAbsent, Bool.false_eq_true, if_false, openLines]
    split <;> simp [test, header, below, first, second, *]

mutual

/-- Neither the depth of a statement nor what stands in front of it changes the values after it. -/
theorem Stmt.render_values (values : Values) (depth depth' : Nat) (lead lead' : Lead) :
    (s : Stmt) → (s.render values depth lead).1 = (s.render values depth' lead').1
  | .absent | .declare _ _ _ | .print _ | .expression _ => by simp only [Stmt.render]
  | .block body => by
    simp only [Stmt.render]
    rw [Stmt.renderAll_values values.push (depth + 1) (depth' + 1) body]
  | .ifElse condition consequent alternative => by
    rw [Stmt.render_ifElse, Stmt.render_ifElse, Stmt.render_values (condition.render values).1
      (lead.conditionalDepth depth) (lead'.conditionalDepth depth') _ (.header _) consequent]
    exact Stmt.render_values _ _ _ _ _ alternative
  | .whileLoop condition body => by
    simp only [Stmt.render]
    exact Stmt.render_values _ _ _ _ _ body
  | .forLoop initial condition increment body => by
    simp only [Stmt.render]
    rw [Stmt.render_values _ (lead.inner depth) (lead'.inner depth') _ _ body]

theorem Stmt.renderAll_values (values : Values) (depth depth' : Nat) :
    (ss : List Stmt) → (Stmt.renderAll values depth ss).1 = (Stmt.renderAll values depth' ss).1
  | [] => by simp only [Stmt.renderAll]
  | s :: ss => by
    simp only [Stmt.renderAll]
    rw [Stmt.render_values values depth depth' .plain .plain s]
    exact Stmt.renderAll_values _ depth depth' ss

end

theorem Expr.renderOptional_values (values : Values) (e : Expr) :
    (e.renderOptional values).1 = (e.render values).1 := by
  cases e <;> rfl

theorem Stmt.renderInitial_values (values : Values) {initial : Stmt}
    (h : initial = .absent ∨ initial.isLoopInitial = true) :
    (renderInitial values initial).1 = (initial.render values 0 .plain).1 := by
  cases initial with
  | absent | declare | expression => simp only [renderInitial, Stmt.render]
  | _ => simp [Stmt.isLoopInitial] at h

namespace Snapshot

variable {σ : Snapshot}

/-- What is known after a sequence of statements. -/
def afterAll (σ : Snapshot) (ss : List Stmt) : Snapshot :=
  ⟨(Stmt.renderAll σ.values 0 ss).1, Stmt.expandAll σ.trees ss⟩

theorem afterAll_nil : σ.afterAll [] = σ := by simp [afterAll, Stmt.renderAll, Stmt.expandAll]

theorem afterAll_cons {s : Stmt} {ss : List Stmt} :
    σ.afterAll (s :: ss) = (σ.afterStmt s).afterAll ss := by
  simp [afterAll, afterStmt, Stmt.renderAll, Stmt.expandAll]

theorem afterStmt_absent : σ.afterStmt .absent = σ := by
  simp [afterStmt, Stmt.render, Stmt.expand]

theorem afterStmt_declare {type name : String} {initial : Expr} :
    σ.afterStmt (.declare type name initial) =
      ⟨(σ.afterExpr initial).values.bind name (σ.text initial),
        (σ.afterExpr initial).trees.bind name (σ.tree initial)⟩ := by
  simp only [afterStmt, Stmt.render, Stmt.expand, renderDeclaration]
  cases initial <;> rfl

theorem afterStmt_print {value : Expr} : σ.afterStmt (.print value) = σ.afterExpr value := by
  simp [afterStmt, afterExpr, Stmt.render, Stmt.expand]

theorem afterStmt_expression {value : Expr} :
    σ.afterStmt (.expression value) = σ.afterExpr value := by
  simp [afterStmt, afterExpr, Stmt.render, Stmt.expand]

theorem afterStmt_block {body : List Stmt} :
    σ.afterStmt (.block body) = (σ.push.afterAll body).pop := by
  simp only [afterStmt, afterAll, push, pop, Stmt.render, Stmt.expand]
  rw [Stmt.renderAll_values _ 1 0]

theorem afterStmt_ifElse {condition : Expr} {consequent alternative : Stmt} :
    σ.afterStmt (.ifElse condition consequent alternative) =
      ((σ.afterExpr condition).afterStmt consequent).afterStmt alternative := by
  simp only [afterStmt, afterExpr, Stmt.render_ifElse, Stmt.expand]
  rw [Stmt.render_values _ _ 0 (.header _) .plain consequent,
    Stmt.render_values _ _ 0 (.alternative _) .plain alternative]

theorem afterStmt_whileLoop {condition : Expr} {body : Stmt} :
    σ.afterStmt (.whileLoop condition body) = (σ.afterExpr condition).afterStmt body := by
  simp only [afterStmt, afterExpr, Stmt.render, Stmt.expand]
  rw [Stmt.render_values _ _ 0 _ .plain]

theorem afterStmt_forLoop {initial body : Stmt} {condition increment : Expr}
    (hinitial : initial = .absent ∨ initial.isLoopInitial = true) :
    let before := σ.push.afterStmt initial
    σ.afterStmt (.forLoop initial condition increment body) =
      (((before.afterExpr condition).afterExpr increment).afterStmt body).pop := by
  simp only [afterStmt, afterExpr, push, pop, Stmt.render, Stmt.expand, Expr.renderOptional_values,
    Stmt.renderInitial_values _ hinitial]
  rw [Stmt.render_values _ _ 0 _ .plain body]

end Snapshot

/-! ### Statements -/

/-- Behind some renderings texts and trees agree, and the text of each of these is read as its
tree. -/
structure Keeps (σ : Snapshot) (rs : List Rendering) : Prop where
  agrees : σ.Agrees
  reads : ∀ r ∈ rs, Reads 0 r.text r.tree

namespace Keeps

variable {σ σ' : Snapshot} {rs rs' : List Rendering}

theorem nil (h : σ.Agrees) : Keeps σ [] := ⟨h, by simp⟩

theorem append (h : Keeps σ rs) (h' : σ.Agrees → Keeps σ' rs') : Keeps σ' (rs ++ rs') := by
  have hnext := h' h.agrees
  refine ⟨hnext.agrees, ?_⟩
  intro r hr
  rcases List.mem_append.mp hr with hr | hr
  · exact h.reads r hr
  · exact hnext.reads r hr

theorem pop (h : Keeps σ rs) : Keeps σ.pop rs := ⟨h.agrees.pop, h.reads⟩

theorem expr {e : Expr} (hσ : σ.Agrees) (h : e = .absent ∨ e.Renderable) :
    Keeps (σ.afterExpr e) (e.renderings σ) := by
  rcases h with rfl | h
  · exact nil hσ
  · have htracked := Expr.tracked hσ h
    exact ⟨htracked.agrees, htracked.parts⟩

/-- A declared name stands for its initial value, which is no assignment. -/
theorem declare {type name : String} {initial : Expr} (hσ : σ.Agrees)
    (h : initial = .absent ∨ initial.Renderable ∧ initial.isAssign = false) :
    Keeps (σ.afterStmt (.declare type name initial)) (initial.renderings σ) := by
  rw [Snapshot.afterStmt_declare]
  rcases h with rfl | ⟨h, hassign⟩
  · exact nil (hσ.bind name Snapshot.Agrees.undefined_reads)
  · have htracked := Expr.tracked hσ h
    have hvalue := htracked.tight (h.wellFormed.rank_pos hassign)
    exact ⟨htracked.agrees.bind name hvalue, htracked.parts⟩

end Keeps

mutual

theorem Stmt.keeps {σ : Snapshot} (hσ : σ.Agrees) :
    (s : Stmt) → s.WellFormed → (∀ l ∈ s.unparse, l.Legible) → s.isUnchained = true →
      Keeps (σ.afterStmt s) (s.renderings σ)
  | .absent, hwf, _, _ => by simp [Stmt.WellFormed] at hwf
  | .declare type name initial, hwf, hlegible, hunchained => by
    simp only [Stmt.WellFormed] at hwf
    simp only [Stmt.isUnchained, Bool.and_eq_true, Bool.not_eq_true'] at hunchained
    simp only [Stmt.renderings]
    refine .declare hσ (hwf.2.imp_right fun hinitial =>
      ⟨⟨hinitial, ?_, hunchained.2⟩, hunchained.1⟩)
    intro l hl
    apply hlegible
    rw [Stmt.unparse]
    exact List.mem_cons_of_mem _ (List.mem_cons_of_mem _ (Stmt.mem_initialLexemes hl))
  | .print value, hwf, hlegible, hunchained => by
    simp only [Stmt.WellFormed] at hwf
    simp only [Stmt.isUnchained] at hunchained
    rw [Snapshot.afterStmt_print, Stmt.renderings]
    exact .expr hσ (.inr ⟨hwf, fun l hl => hlegible l (by simp [Stmt.unparse, hl]), hunchained⟩)
  | .expression value, hwf, hlegible, hunchained => by
    simp only [Stmt.WellFormed] at hwf
    simp only [Stmt.isUnchained] at hunchained
    rw [Snapshot.afterStmt_expression, Stmt.renderings]
    exact .expr hσ (.inr ⟨hwf, fun l hl => hlegible l (by simp [Stmt.unparse, hl]), hunchained⟩)
  | .block body, hwf, hlegible, hunchained => by
    simp only [Stmt.WellFormed] at hwf
    simp only [Stmt.isUnchained] at hunchained
    rw [Snapshot.afterStmt_block, Stmt.renderings]
    exact (Stmt.allKeeps hσ.push body hwf (fun l hl => hlegible l (by simp [Stmt.unparse, hl]))
      hunchained).pop
  | .ifElse condition consequent alternative, hwf, hlegible, hunchained => by
    simp only [Stmt.WellFormed] at hwf
    simp only [Stmt.isUnchained, Bool.and_eq_true] at hunchained
    obtain ⟨hcondition, hconsequent, -, halternative⟩ := hwf
    rw [Snapshot.afterStmt_ifElse, Stmt.renderings]
    refine .append (.expr hσ (.inr ⟨hcondition, ?_, hunchained.1.1⟩)) fun hσ₁ =>
      .append (Stmt.keeps hσ₁ consequent hconsequent ?_ hunchained.1.2) fun hσ₂ => ?_
    · exact fun l hl => hlegible l (by simp [Stmt.unparse, hl])
    · exact fun l hl => hlegible l (by simp [Stmt.unparse, hl])
    · rcases halternative with rfl | ⟨halternative, -, -⟩
      · rw [Snapshot.afterStmt_absent, Stmt.renderings]
        exact .nil hσ₂
      · exact Stmt.keeps hσ₂ alternative halternative
          (fun l hl => hlegible l (by simp [Stmt.unparse, halternative.isAbsent, hl])) hunchained.2
  | .whileLoop condition body, hwf, hlegible, hunchained => by
    simp only [Stmt.WellFormed] at hwf
    simp only [Stmt.isUnchained, Bool.and_eq_true] at hunchained
    obtain ⟨hcondition, hbody, -⟩ := hwf
    rw [Snapshot.afterStmt_whileLoop, Stmt.renderings]
    refine .append (.expr hσ (.inr ⟨hcondition, ?_, hunchained.1⟩)) fun hσ₁ =>
      Stmt.keeps hσ₁ body hbody ?_ hunchained.2
    · exact fun l hl => hlegible l (by simp [Stmt.unparse, hl])
    · exact fun l hl => hlegible l (by simp [Stmt.unparse, hl])
  | .forLoop initial condition increment body, hwf, hlegible, hunchained => by
    simp only [Stmt.WellFormed] at hwf
    simp only [Stmt.isUnchained, Bool.and_eq_true] at hunchained
    obtain ⟨hinitial, hcondition, hincrement, hbody, -⟩ := hwf
    rw [Snapshot.afterStmt_forLoop (hinitial.imp_right And.right), Stmt.renderings]
    refine Keeps.pop (.append ?_ fun hσ₁ => .append (.expr hσ₁ (hcondition.imp_right ?_)) fun hσ₂ =>
      .append (.expr hσ₂ (hincrement.imp_right ?_)) fun hσ₃ =>
        Stmt.keeps hσ₃ body hbody ?_ hunchained.2)
    · rcases hinitial with rfl | ⟨hinitial, -⟩
      · rw [Snapshot.afterStmt_absent, Stmt.renderings]
        exact .nil hσ.push
      · exact Stmt.keeps hσ.push initial hinitial
          (fun l hl => hlegible l (by simp [Stmt.unparse, hinitial.isAbsent, hl])) hunchained.1.1.1
    · exact fun h => ⟨h, fun l hl => hlegible l (by simp [Stmt.unparse, hl]), hunchained.1.1.2⟩
    · exact fun h => ⟨h, fun l hl => hlegible l (by simp [Stmt.unparse, hl]), hunchained.1.2⟩
    · exact fun l hl => hlegible l (by simp [Stmt.unparse, hl])

theorem Stmt.allKeeps {σ : Snapshot} (hσ : σ.Agrees) :
    (ss : List Stmt) → Stmt.AllWellFormed ss → (∀ l ∈ Stmt.unparseAll ss, l.Legible) →
      Stmt.allUnchained ss = true → Keeps (σ.afterAll ss) (Stmt.allRenderings σ ss)
  | [], _, _, _ => by
    rw [Snapshot.afterAll_nil, Stmt.allRenderings]
    exact .nil hσ
  | s :: ss, hwf, hlegible, hunchained => by
    simp only [Stmt.AllWellFormed] at hwf
    simp only [Stmt.allUnchained, Bool.and_eq_true] at hunchained
    rw [Snapshot.afterAll_cons, Stmt.allRenderings]
    refine .append (Stmt.keeps hσ s hwf.1 ?_ hunchained.1) fun hσ₁ =>
      Stmt.allKeeps hσ₁ ss hwf.2 ?_ hunchained.2
    · exact fun l hl => hlegible l (by simp [Stmt.unparseAll, hl])
    · exact fun l hl => hlegible l (by simp [Stmt.unparseAll, hl])

end

end Binisaya
