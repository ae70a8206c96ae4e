import Binisaya.Proofs.Rendering.Reading
import Binisaya.Proofs.Scoping

/-!
# Trees behind rendered texts

Next to the texts of the values that names have, `Expr.expand` and `Stmt.expand` keep their trees:
what an expression becomes when every name in it is replaced by the tree of its value.  `renderings`
lists the expressions that are rendered, each with what is known of names at that point.
`Snapshot.Agrees` is the invariant: every text is read as its tree, and binds tight enough to stand
for a name anywhere.
-/

namespace Binisaya

/-- The trees of the values that names have, by open block. -/
abbrev Trees := Scopes Expr

/-- The tree that the text of an expression stands for, and the trees after its assignments.
Parentheses are dropped, numbers have the text that is rendered, and a name is replaced by the tree
of its value. -/
def Expr.expand (trees : Trees) : Expr → Trees × Expr
  | .absent => (trees, .name undefinedText)
  | .literal kind text => (trees, .literal kind (writtenText kind text))
  | .name n => (trees, (trees.lookup n).getD (.name undefinedText))
  | .binary op left right =>
    let first := left.expand trees
    let second := right.expand first.1
    (second.1, .binary op first.2 second.2)
  | .unary op operand =>
    let inner := operand.expand trees
    (inner.1, .unary op inner.2)
  | .group inner => inner.expand trees
  | .assign target value =>
    let inner := value.expand trees
    (inner.1.assign target inner.2, .assign target inner.2)

mutual

/-- The trees after a statement. -/
def Stmt.expand (trees : Trees) : Stmt → Trees
  | .absent => trees
  | .declare _ name initial =>
    let inner := initial.expand trees
    inner.1.bind name inner.2
  | .print value => (value.expand trees).1
  | .expression value => (value.expand trees).1
  | .block body => (Stmt.expandAll trees.push body).pop
  | .ifElse condition consequent alternative =>
    alternative.expand (consequent.expand (condition.expand trees).1)
  | .whileLoop condition body => body.expand (condition.expand trees).1
  | .forLoop initial condition increment body =>
    let test := condition.expand (initial.expand trees.push)
    (body.expand (increment.expand test.1).1).pop

/-- The trees after a sequence of statements. -/
def Stmt.expandAll (trees : Trees) : List Stmt → Trees
  | [] => trees
  | s :: ss => Stmt.expandAll (s.expand trees) ss

end

/-- What is known of names while a program is rendered: the texts of their values, and the trees. -/
structure Snapshot where
  values : Values
  trees : Trees
  deriving DecidableEq, Repr

namespace Snapshot

/-- Nothing is known at first. -/
def initial : Snapshot := ⟨.initial, .initial⟩

/-- Opens a block. -/
def push (σ : Snapshot) : Snapshot := ⟨σ.values.push, σ.trees.push⟩

/-- Closes a block. -/
def pop (σ : Snapshot) : Snapshot := ⟨σ.values.pop, σ.trees.pop⟩

/-- The text of an expression. -/
def text (σ : Snapshot) (e : Expr) : String := (e.render σ.values).2

/-- The tree of an expression. -/
def tree (σ : Snapshot) (e : Expr) : Expr := (e.expand σ.trees).2

/-- What is known after an expression. -/
def afterExpr (σ : Snapshot) (e : Expr) : Snapshot := ⟨(e.render σ.values).1, (e.expand σ.trees).1⟩

/-- What is known after a statement. -/
def afterStmt (σ : Snapshot) (s : Stmt) : Snapshot :=
  ⟨(s.render σ.values 0 .plain).1, s.expand σ.trees⟩

end Snapshot

/-- An expression that is rendered, and what is known at that point. -/
structure Rendering where
  snapshot : Snapshot
  expr : Expr
  deriving DecidableEq, Repr

namespace Rendering

/-- The text that the expression is rendered as. -/
def text (r : Rendering) : String := r.snapshot.text r.expr

/-- The tree that it stands for. -/
def tree (r : Rendering) : Expr := r.snapshot.tree r.expr

end Rendering

/-- The expressions that are rendered for an expression: its parts, and it after them. -/
def Expr.renderings (σ : Snapshot) : Expr → List Rendering
  | .absent => []
  | .literal kind text => [⟨σ, .literal kind text⟩]
  | .name n => [⟨σ, .name n⟩]
  | .binary op left right =>
    left.renderings σ ++ (right.renderings (σ.afterExpr left) ++ [⟨σ, .binary op left right⟩])
  | .unary op operand => operand.renderings σ ++ [⟨σ, .unary op operand⟩]
  | .group inner => inner.renderings σ ++ [⟨σ, .group inner⟩]
  | .assign target value => value.renderings σ ++ [⟨σ, .assign target value⟩]

mutual

/-- The expressions that are rendered for a statement. -/
def Stmt.renderings (σ : Snapshot) : Stmt → List Rendering
  | .absent => []
  | .declare _ _ initial => initial.renderings σ
  | .print value => value.renderings σ
  | .expression value => value.renderings σ
  | .block body => Stmt.allRenderings σ.push body
  | .ifElse condition consequent alternative =>
    let inner := σ.afterExpr condition
    condition.renderings σ ++
      (consequent.renderings inner ++ alternative.renderings (inner.afterStmt consequent))
  | .whileLoop condition body => condition.renderings σ ++ body.renderings (σ.afterExpr condition)
  | .forLoop initial condition increment body =>
    let before := σ.push.afterStmt initial
    let test := before.afterExpr condition
    initial.renderings σ.push ++ (condition.renderings before ++
      (increment.renderings test ++ body.renderings (test.afterExpr increment)))

/-- The expressions that are rendered for a sequence of statements. -/
def Stmt.allRenderings (σ : Snapshot) : List Stmt → List Rendering
  | [] => []
  | s :: ss => s.renderings σ ++ Stmt.allRenderings (σ.afterStmt s) ss

end

/-- The expressions that are rendered for a program. -/
def renderings (p : Program) : List Rendering := Stmt.allRenderings .initial p

/-! ### Assignments as values -/

/-- Whether an expression is an assignment. -/
def Expr.isAssign : Expr → Bool
  | .assign _ _ => true
  | _ => false

/-- Whether no assignment within an expression is directly the value of another. -/
def Expr.isUnchained : Expr → Bool
  | .absent | .literal _ _ | .name _ => true
  | .binary _ left right => left.isUnchained && right.isUnchained
  | .unary _ operand => operand.isUnchained
  | .group inner => inner.isUnchained
  | .assign _ value => !value.isAssign && value.isUnchained

mutual

/-- Whether no assignment in a statement is directly an assigned or initial value. -/
def Stmt.isUnchained : Stmt → Bool
  | .absent => true
  | .declare _ _ initial => !initial.isAssign && initial.isUnchained
  | .print value => value.isUnchained
  | .expression value => value.isUnchained
  | .block body => Stmt.allUnchained body
  | .ifElse condition consequent alternative =>
    condition.isUnchained && consequent.isUnchained && alternative.isUnchained
  | .whileLoop condition body => condition.isUnchained && body.isUnchained
  | .forLoop initial condition increment body =>
    initial.isUnchained && condition.isUnchained && increment.isUnchained && body.isUnchained

/-- Whether this is so in a sequence of statements. -/
def Stmt.allUnchained : List Stmt → Bool
  | [] => true
  | s :: ss => s.isUnchained && Stmt.allUnchained ss

end

theorem Expr.WellFormed.rank_pos {e : Expr} (h : e.WellFormed) (hassign : e.isAssign = false) :
    0 < e.rank := by
  cases e with
  | absent => exact h.elim
  | assign => cases hassign
  | binary => exact h.1
  | _ => exact Nat.zero_lt_succ _

/-! ### Texts and trees that agree -/

/-- The text of a value that is read as its tree, in the place of any name. -/
structure Shown where
  text : String
  tree : Expr
  reads : Reads 7 text tree

/-- The texts and the trees of the values are those of texts that are read as their trees. -/
def Snapshot.Agrees (σ : Snapshot) : Prop :=
  ∃ shown : Scopes Shown, σ = ⟨shown.map Shown.text, shown.map Shown.tree⟩

namespace Snapshot.Agrees

variable {σ : Snapshot}

theorem initial : Agrees .initial := ⟨.initial, rfl⟩

theorem push (h : σ.Agrees) : σ.push.Agrees := by
  obtain ⟨shown, rfl⟩ := h
  exact ⟨shown.push, rfl⟩

theorem pop (h : σ.Agrees) : σ.pop.Agrees := by
  obtain ⟨shown, rfl⟩ := h
  refine ⟨shown.pop, ?_⟩
  rw [Scopes.map_pop, Scopes.map_pop]
  rfl

theorem bind (h : σ.Agrees) (name : String) {text : String} {tree : Expr}
    (hreads : Reads 7 text tree) :
    Agrees ⟨σ.values.bind name text, σ.trees.bind name tree⟩ := by
  obtain ⟨shown, rfl⟩ := h
  exact ⟨shown.bind name ⟨text, tree, hreads⟩, by rw [Scopes.map_bind, Scopes.map_bind]⟩

theorem assign (h : σ.Agrees) (name : String) {text : String} {tree : Expr}
    (hreads : Reads 7 text tree) :
    Agrees ⟨σ.values.assign name text, σ.trees.assign name tree⟩ := by
  obtain ⟨shown, rfl⟩ := h
  exact ⟨shown.assign name ⟨text, tree, hreads⟩, by rw [Scopes.map_assign, Scopes.map_assign]⟩

theorem undefined_reads : Reads 7 undefinedText (.name undefinedText) :=
  (Reads.name (by decide)).mono (by decide)

/-- What stands for a name is read as what its value is. -/
theorem name (h : σ.Agrees) (n : String) : Reads 7 (σ.text (.name n)) (σ.tree (.name n)) := by
  obtain ⟨shown, rfl⟩ := h
  simp only [text, tree, Expr.render, Expr.expand, Scopes.lookup_map]
  cases shown.lookup n with
  | none => exact undefined_reads
  | some value => exact value.reads

end Snapshot.Agrees

/-! ### Expressions -/

/-- What is asked of an expression: it follows the grammar, its pieces come from a text, and no
assignment in it is directly the value of another. -/
structure Expr.Renderable (e : Expr) : Prop where
  wellFormed : e.WellFormed
  legible : ∀ l ∈ e.unparse, l.Legible
  unchained : e.isUnchained = true

namespace Expr.Renderable

variable {op : UnaryOp} {op' : BinaryOp} {target : String} {e e' : Expr}

theorem operand (h : (unary op e).Renderable) : e.Renderable :=
  ⟨h.wellFormed.2.1, fun l hl => h.legible l (by simp [unparse, hl]), h.unchained⟩

theorem inner (h : (group e).Renderable) : e.Renderable :=
  ⟨h.wellFormed, fun l hl => h.legible l (by simp [unparse, hl]), h.unchained⟩

theorem left (h : (binary op' e e').Renderable) : e.Renderable :=
  ⟨h.wellFormed.2.1, fun l hl => h.legible l (by simp [unparse, hl]),
    (Bool.and_eq_true_iff.mp h.unchained).1⟩

theorem right (h : (binary op' e e').Renderable) : e'.Renderable :=
  ⟨h.wellFormed.2.2.1, fun l hl => h.legible l (by simp [unparse, hl]),
    (Bool.and_eq_true_iff.mp h.unchained).2⟩

theorem value (h : (assign target e).Renderable) : e.Renderable ∧ 0 < e.rank := by
  obtain ⟨hassign, hunchained⟩ := Bool.and_eq_true_iff.mp h.unchained
  have hwf : e.WellFormed := h.wellFormed
  exact ⟨⟨hwf, fun l hl => h.legible l (by simp [unparse, hl]), hunchained⟩,
    hwf.rank_pos (by simpa using hassign)⟩

end Expr.Renderable

theorem Expr.self_mem_renderings {σ : Snapshot} {e : Expr} (h : e.WellFormed) :
    ⟨σ, e⟩ ∈ e.renderings σ := by
  cases e with
  | absent => exact h.elim
  | _ => simp [renderings]

/-- Rendering an expression keeps texts and trees in agreement, every text on the way is read as its
tree, and the text of the expression can stand for a name unless it is an assignment. -/
structure Expr.Tracked (σ : Snapshot) (e : Expr) : Prop where
  agrees : (σ.afterExpr e).Agrees
  tight : 0 < e.rank → Reads 7 (σ.text e) (σ.tree e)
  parts : ∀ r ∈ e.renderings σ, Reads 0 r.text r.tree

namespace Expr.Tracked

variable {σ : Snapshot} {e e' : Expr}

/-- An expression that is no assignment, after its parts. -/
theorem ofTight (parts : List Rendering) (hagrees : (σ.afterExpr e).Agrees)
    (hparts : ∀ r ∈ parts, Reads 0 r.text r.tree) (hrenderings : e.renderings σ = parts ++ [⟨σ, e⟩])
    (htight : Reads 7 (σ.text e) (σ.tree e)) : e.Tracked σ := by
  refine ⟨hagrees, fun _ => htight, ?_⟩
  rw [hrenderings]
  intro r hr
  rcases List.mem_append.mp hr with hr | hr
  · exact hparts r hr
  · rw [List.mem_singleton.mp hr]
    exact htight.mono (Nat.zero_le 7)

theorem literal {kind : LiteralKind} {text : String} (hσ : σ.Agrees)
    (h : (Expr.literal kind text).Renderable) : (Expr.literal kind text).Tracked σ :=
  ofTight [] hσ (by simp) rfl ((Reads.literal h.wellFormed h.legible).mono (by decide))

theorem name {n : String} (hσ : σ.Agrees) : (Expr.name n).Tracked σ :=
  ofTight [] hσ (by simp) rfl (hσ.name n)

theorem group (h : e.Tracked σ) (hwf : e.WellFormed) : (Expr.group e).Tracked σ := by
  have hself : Reads 0 (σ.text e) (σ.tree e) := h.parts ⟨σ, e⟩ (self_mem_renderings hwf)
  exact ofTight _ h.agrees h.parts rfl (hself.group.mono (by decide))

theorem unary {op : UnaryOp} (hop : op = .negate ∨ op = .not) (h : e.Tracked σ)
    (hrank : 0 < e.rank) : (Expr.unary op e).Tracked σ :=
  ofTight _ h.agrees h.parts rfl (((h.tight hrank).shield (by decide)).unary hop)

theorem binary {op : BinaryOp} (hop : 0 < op.rank) (h : e.Tracked σ)
    (h' : e'.Tracked (σ.afterExpr e)) (hrank : 0 < e.rank) (hrank' : 0 < e'.rank) :
    (Expr.binary op e e').Tracked σ := by
  have hparts : ∀ r ∈ e.renderings σ ++ e'.renderings (σ.afterExpr e), Reads 0 r.text r.tree := by
    intro r hr
    rcases List.mem_append.mp hr with hr | hr
    · exact h.parts r hr
    · exact h'.parts r hr
  have hrenderings : (Expr.binary op e e').renderings σ =
      e.renderings σ ++ e'.renderings (σ.afterExpr e) ++ [⟨σ, .binary op e e'⟩] := by
    rw [List.append_assoc]
    rfl
  exact ofTight _ h'.agrees hparts hrenderings
    ((Reads.binary hop (h.tight hrank) (h'.tight hrank')).mono (by decide))

theorem assign {target : String} (htarget : classify target = .identifier) (h : e.Tracked σ)
    (hrank : 0 < e.rank) : (Expr.assign target e).Tracked σ := by
  have hvalue := h.tight hrank
  refine ⟨h.agrees.assign target hvalue, nofun, ?_⟩
  intro r hr
  rcases List.mem_append.mp hr with hr | hr
  · exact h.parts r hr
  · rw [List.mem_singleton.mp hr]
    exact hvalue.assign htarget

end Expr.Tracked

theorem Expr.tracked {σ : Snapshot} {e : Expr} (hσ : σ.Agrees) (h : e.Renderable) :
    e.Tracked σ := by
  induction e generalizing σ with
  | absent => exact h.wellFormed.elim
  | literal kind text => exact .literal hσ h
  | name n => exact .name hσ
  | binary op left right ihleft ihright =>
    obtain ⟨hop, -, -, hrank, hrank'⟩ := h.wellFormed
    have hleft := ihleft hσ h.left
    exact hleft.binary hop (ihright hleft.agrees h.right) (by omega) (by omega)
  | unary op operand ih =>
    obtain ⟨hop, -, hrank⟩ := h.wellFormed
    exact (ih hσ h.operand).unary hop (by omega)
  | group inner ih => exact (ih hσ h.inner).group h.wellFormed
  | assign target value ih =>
    have htarget := (h.legible (.identifier, target) (by simp [unparse])).kind.symm
    exact (ih hσ h.value.1).assign htarget h.value.2

end Binisaya
