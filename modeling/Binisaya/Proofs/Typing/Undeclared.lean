import Binisaya.Proofs.Grammar.Completeness
import Binisaya.Proofs.Lowering.Resolution
import Binisaya.Proofs.Scoping.History

/-!
# Names that are not declared

A `Site` is a place in a program where a name is read or assigned, together with the history of the
scopes in front of it.  Whether a declaration can be seen from there is read off that history alone:
it has to stand in it, and the block that it stands in has to be open still.  Main statements: the
names that are reported as not declared are those of the sites from which no declaration can be
seen, each once and in the order of the sites; and the only sites without a say in this are those
in the initial value of a declaration that is refused.
-/

namespace Binisaya

/-! ### Visible declarations -/

section

variable {α : Type}

/-- Whether an action declares a name. -/
def ScopeAction.declares (name : String) : ScopeAction α → Bool
  | declare other _ => other == name
  | _ => false

/-- The `i`-th action declares a name, accepted or not, in a block that has been open ever since. -/
def InForce (actions : List (ScopeAction α)) (i : Nat) (name : String) : Prop :=
  (∃ a ∈ actions[i]?, a.declares name) ∧
    ∀ j ≤ actions.length, i ≤ j → openLevel (actions.take i) ≤ openLevel (actions.take j)

/-- Some declaration of a name was made in a block that is still open. -/
def Visible (actions : List (ScopeAction α)) (name : String) : Prop :=
  ∃ i < actions.length, InForce actions i name

/-- Some declaration of a name was made in the innermost block. -/
def Taken (actions : List (ScopeAction α)) (name : String) : Prop :=
  ∃ i < actions.length, InForce actions i name ∧ openLevel (actions.take i) = openLevel actions

instance (actions : List (ScopeAction α)) (i : Nat) (name : String) :
    Decidable (InForce actions i name) :=
  inferInstanceAs (Decidable (_ ∧ _))

instance (actions : List (ScopeAction α)) (name : String) : Decidable (Visible actions name) :=
  inferInstanceAs (Decidable (∃ i < actions.length, InForce actions i name))

instance (actions : List (ScopeAction α)) (name : String) : Decidable (Taken actions name) :=
  inferInstanceAs (Decidable (∃ i < actions.length,
    InForce actions i name ∧ openLevel (actions.take i) = openLevel actions))

@[simp] theorem ScopeAction.declares_push (name : String) :
    (push : ScopeAction α).declares name = false := rfl

@[simp] theorem ScopeAction.declares_pop (name : String) :
    (pop : ScopeAction α).declares name = false := rfl

theorem ScopeAction.declares_iff {name : String} {a : ScopeAction α} :
    a.declares name = true ↔ ∃ value, a = .declare name value := by
  cases a <;> simp [declares]

/-- What was declared up to some moment is declared later if the block stays open. -/
theorem Declares.of_take {actions : List (ScopeAction α)} {i j : Nat} {name : String} {value : α}
    {level : Nat} (h : Declares (actions.take j) i name value level)
    (hopen : ∀ k ≤ actions.length, j ≤ k → level ≤ openLevel (actions.take k)) :
    Declares actions i name value level := by
  obtain ⟨hlength, -⟩ := List.getElem?_eq_some_iff.mp h.action
  rw [List.length_take] at hlength
  have htake : ∀ k ≤ j, (actions.take j).take k = actions.take k := fun k hk => by
    rw [List.take_take, Nat.min_eq_left hk]
  refine ⟨?_, ?_, ?_, ?_⟩
  · rw [← List.getElem?_take_of_lt (show i < j by omega)]
    exact h.action
  · rw [← htake i (by omega)]
    exact h.accepted
  · rw [← htake i (by omega)]
    exact h.level_eq
  · intro k hik hk
    by_cases hkj : k ≤ j
    · rw [← htake k hkj]
      exact h.stillOpen k hik (by rw [List.length_take]; omega)
    · exact hopen k hk (by omega)

/-- If a declaration was refused, the one that stood in its way is in force as long as it is. -/
theorem InForce.exists_declares {actions : List (ScopeAction α)} {i : Nat} {name : String}
    (h : InForce actions i name) :
    ∃ k value, Declares actions k name value (openLevel (actions.take i)) := by
  obtain ⟨⟨a, hget, ha⟩, hopen⟩ := h
  obtain ⟨value, rfl⟩ := ScopeAction.declares_iff.mp ha
  cases hdeclare : (Scopes.after (actions.take i)).declare? name value with
  | some inside => exact ⟨i, value, hget, by simp [hdeclare], rfl, fun j hij hj => hopen j hj hij⟩
  | none =>
    -- An earlier declaration stands in the same block, which is open as long.
    obtain ⟨k, bound, hk⟩ := (Scopes.declare?_after_eq_none_iff _ name value).mp hdeclare
    exact ⟨k, bound, hk.of_take hopen⟩

theorem Declares.inForce {actions : List (ScopeAction α)} {i : Nat} {name : String} {value : α}
    {level : Nat} (h : Declares actions i name value level) :
    i < actions.length ∧ InForce actions i name ∧ openLevel (actions.take i) = level := by
  obtain ⟨hlength, -⟩ := List.getElem?_eq_some_iff.mp h.action
  refine ⟨hlength, ⟨⟨_, h.action, ?_⟩, ?_⟩, h.level_eq⟩
  · exact ScopeAction.declares_iff.mpr ⟨value, rfl⟩
  · intro j hj hij
    rw [h.level_eq]
    exact h.stillOpen j hij hj

/-- A name means nothing where no declaration of it is visible. -/
theorem Scopes.lookup_after_eq_none_iff_not_visible (actions : List (ScopeAction α))
    (name : String) : (after actions).lookup name = none ↔ ¬ Visible actions name := by
  rw [lookup_after_eq_none_iff]
  constructor
  · rintro h ⟨i, -, hi⟩
    obtain ⟨k, value, hk⟩ := hi.exists_declares
    exact h k value _ hk
  · intro h i value level hi
    apply h
    exact ⟨i, hi.inForce.1, hi.inForce.2.1⟩

/-- A declaration is refused where the name is taken. -/
theorem Scopes.declare?_after_eq_none_iff_taken (actions : List (ScopeAction α)) (name : String)
    (value : α) : (after actions).declare? name value = none ↔ Taken actions name := by
  rw [declare?_after_eq_none_iff]
  constructor
  · rintro ⟨i, bound, hi⟩
    exact ⟨i, hi.inForce⟩
  · rintro ⟨i, -, hi, hlevel⟩
    rw [← hlevel]
    exact hi.exists_declares

end

/-! ### Sites -/

/-- A place where a name is read or assigned: what has been done to the scopes before the statement
got there, and the declaration in whose initial value it stands, if it stands in one. -/
structure Site where
  before : List (ScopeAction Ty)
  initialOf : Option (String × Ty)
  name : String
  deriving DecidableEq, Repr

namespace Site

/-- What has been done to the scopes in front of a site.  A declaration is made before its initial
value is looked at. -/
def history (s : Site) : List (ScopeAction Ty) :=
  s.before ++ (s.initialOf.map fun d => ScopeAction.declare d.1 d.2).toList

/-- The site stands in the initial value of a declaration that is refused. -/
def Skipped (s : Site) : Prop := ∃ d ∈ s.initialOf, Taken s.before d.1

/-- Some declaration of the name can be seen from the site. -/
def Known (s : Site) : Prop := Visible s.history s.name

instance (s : Site) : Decidable s.Skipped :=
  inferInstanceAs (Decidable (∃ d ∈ s.initialOf, Taken s.before d.1))

instance (s : Site) : Decidable s.Known := inferInstanceAs (Decidable (Visible _ _))

/-- The name of a site that is looked at and from which no declaration of it can be seen. -/
def unknown? (s : Site) : Option String := if ¬ s.Skipped ∧ ¬ s.Known then some s.name else none

end Site

/-- The sites of an expression. -/
def Expr.sites (before : List (ScopeAction Ty)) (initialOf : Option (String × Ty)) (e : Expr) :
    List Site :=
  e.mentions.map fun n => ⟨before, initialOf, n⟩

mutual

/-- What a statement does to the scopes. -/
def Stmt.actions : Stmt → List (ScopeAction Ty)
  | .absent => []
  | .declare type name _ => [.declare name (.ofWord type)]
  | .print _ => []
  | .expression _ => []
  | .block body => [.push] ++ Stmt.allActions body ++ [.pop]
  | .ifElse _ consequent alternative => consequent.actions ++ alternative.actions
  | .whileLoop _ body => body.actions
  | .forLoop initial _ _ body => [.push] ++ initial.actions ++ body.actions ++ [.pop]

/-- What a sequence of statements does to the scopes. -/
def Stmt.allActions : List Stmt → List (ScopeAction Ty)
  | [] => []
  | s :: ss => s.actions ++ Stmt.allActions ss

end

mutual

/-- The sites of a statement, in the order in which they are met.  The increment of a counting loop
comes behind its body. -/
def Stmt.sites (before : List (ScopeAction Ty)) : Stmt → List Site
  | .absent => []
  | .declare type name initial => initial.sites before (some (name, .ofWord type))
  | .print value => value.sites before none
  | .expression value => value.sites before none
  | .block body => Stmt.allSites (before ++ [.push]) body
  | .ifElse condition consequent alternative =>
    condition.sites before none ++ consequent.sites before ++
      alternative.sites (before ++ consequent.actions)
  | .whileLoop condition body => condition.sites before none ++ body.sites before
  | .forLoop initial condition increment body =>
    let inside := before ++ [.push] ++ initial.actions
    initial.sites (before ++ [.push]) ++ condition.sites inside none ++ body.sites inside ++
      increment.sites (inside ++ body.actions) none

/-- The sites of a sequence of statements. -/
def Stmt.allSites (before : List (ScopeAction Ty)) : List Stmt → List Site
  | [] => []
  | s :: ss => s.sites before ++ Stmt.allSites (before ++ s.actions) ss

end

/-- The sites of a program. -/
def sites (p : Program) : List Site := Stmt.allSites [] p

/-! ### Every identifier is a site or declared -/

section

variable (x : String)

@[simp] theorem Lexeme.count_sign (text : String) (ls : List Lexeme) :
    (Lexeme.sign text :: ls).count (.identifier, x) = ls.count (.identifier, x) :=
  List.count_cons_of_ne (by simp [Lexeme.sign])

@[simp] theorem Lexeme.count_word (w : Keyword) (ls : List Lexeme) :
    (Lexeme.word w :: ls).count (.identifier, x) = ls.count (.identifier, x) :=
  List.count_cons_of_ne (by simp [Lexeme.word])

@[simp] theorem Lexeme.count_identifier (name : String) (ls : List Lexeme) :
    ((.identifier, name) :: ls : List Lexeme).count (.identifier, x) =
      ls.count (.identifier, x) + if name = x then 1 else 0 := by
  simp [List.count_cons]

theorem Expr.countP_sites (before : List (ScopeAction Ty)) (initialOf : Option (String × Ty))
    (e : Expr) :
    (e.sites before initialOf).countP (·.name == x) = e.unparse.count (.identifier, x) := by
  rw [sites, List.countP_map]
  induction e with
  | absent => rfl
  | literal kind text => cases kind <;> simp [mentions, unparse, literalLexemes]
  | name n => simp [mentions, unparse, List.countP_cons]
  | assign target value ih => simp [mentions, unparse, List.countP_cons, ih]
  | group inner ih => simp [mentions, unparse, ih]
  | unary op operand ih => simp [mentions, unparse, ih]
  | binary op left right ihleft ihright => simp [mentions, unparse, ihleft, ihright]

theorem Stmt.count_initialLexemes (initial : Expr) :
    (Stmt.initialLexemes initial).count (.identifier, x) =
      initial.unparse.count (.identifier, x) := by
  unfold initialLexemes
  cases initial <;> simp [Expr.isAbsent, Expr.unparse]

mutual

/-- The identifiers of a statement are its sites and what it declares. -/
theorem Stmt.count_unparse (before : List (ScopeAction Ty)) :
    (s : Stmt) → s.unparse.count (.identifier, x) =
      (s.sites before).countP (·.name == x) + s.actions.countP (·.declares x)
  | .absent => by simp [Stmt.unparse, Stmt.sites, Stmt.actions]
  | .declare type name initial => by
    rw [Stmt.unparse, Stmt.sites, Stmt.actions, Expr.countP_sites, ← Stmt.count_initialLexemes]
    simp [List.count_cons, List.countP_singleton, ScopeAction.declares]
  | .print value | .expression value => by
    simp [Stmt.unparse, Stmt.sites, Stmt.actions, Expr.countP_sites]
  | .block body => by
    simp [Stmt.unparse, Stmt.sites, Stmt.actions, Stmt.count_unparseAll (before ++ [.push]) body]
  | .ifElse condition consequent alternative => by
    have hedi : (if alternative.isAbsent then [] else
        Lexeme.word .edi :: alternative.unparse).count (.identifier, x) =
          alternative.unparse.count (.identifier, x) := by
      cases alternative <;> simp [Stmt.isAbsent, Stmt.unparse]
    rw [Stmt.unparse, Stmt.sites, Stmt.actions]
    simp only [List.cons_append, Lexeme.count_sign, Lexeme.count_word, List.count_append,
      List.countP_append, hedi, Expr.countP_sites, Stmt.count_unparse before consequent,
      Stmt.count_unparse (before ++ consequent.actions) alternative]
    omega
  | .whileLoop condition body => by
    rw [Stmt.unparse, Stmt.sites, Stmt.actions]
    simp only [Lexeme.count_sign, Lexeme.count_word, List.count_append, List.countP_append,
      Expr.countP_sites, Stmt.count_unparse before body]
    omega
  | .forLoop initial condition increment body => by
    have hclause : (if initial.isAbsent then [Lexeme.sign ";"] else
        initial.unparse).count (.identifier, x) = initial.unparse.count (.identifier, x) := by
      cases initial <;> simp [Stmt.isAbsent, Stmt.unparse]
    rw [Stmt.unparse, Stmt.sites, Stmt.actions]
    simp only [Lexeme.count_sign, Lexeme.count_word, List.count_append, List.countP_append, hclause,
      Expr.countP_sites, Stmt.count_unparse (before ++ [.push]) initial,
      Stmt.count_unparse (before ++ [.push] ++ initial.actions) body]
    simp only [List.countP_singleton, ScopeAction.declares_push, ScopeAction.declares_pop,
      Bool.false_eq_true, if_false]
    omega

theorem Stmt.count_unparseAll (before : List (ScopeAction Ty)) :
    (ss : List Stmt) → (Stmt.unparseAll ss).count (.identifier, x) =
      (Stmt.allSites before ss).countP (·.name == x) + (Stmt.allActions ss).countP (·.declares x)
  | [] => by simp [Stmt.unparseAll, Stmt.allSites, Stmt.allActions]
  | s :: ss => by
    rw [Stmt.unparseAll, Stmt.allSites, Stmt.allActions]
    simp only [List.count_append, List.countP_append, Stmt.count_unparse before s,
      Stmt.count_unparseAll (before ++ s.actions) ss]
    omega

end

end

/-! ### What checking says about sites -/

/-- The name that a problem reports as not declared. -/
def Problem.undeclared? : Problem → Option String
  | undeclared name => some name
  | _ => none

theorem Expr.undeclared_operandProblem {q : Problem} (h : q.undeclared? = none) (allowed : List Ty)
    (found : Ty) : (operandProblem allowed found q).filterMap Problem.undeclared? = [] := by
  unfold operandProblem
  split <;> simp [h]

theorem Expr.undeclared_operationProblems (op : BinaryOp) (left right : Ty) :
    (operationProblems op left right).filterMap Problem.undeclared? = [] := by
  unfold operationProblems
  split
  · split <;> rfl
  · split
    · rw [List.filterMap_append, undeclared_operandProblem rfl, undeclared_operandProblem rfl]
      rfl
    · rfl

/-- An expression reports the names that mean nothing. -/
theorem Expr.undeclared_problems (scopes : Scopes Ty) (e : Expr) :
    (e.problems scopes).filterMap Problem.undeclared? =
      e.mentions.filter fun n => (scopes.lookup n).isNone := by
  induction e with
  | absent => rfl
  | literal kind text => rfl
  | name n =>
    cases hlookup : scopes.lookup n <;> simp [problems, mentions, hlookup, Problem.undeclared?]
  | assign target value ih =>
    cases hlookup : scopes.lookup target with
    | none => simp [problems, mentions, hlookup, Problem.undeclared?, ih]
    | some declared =>
      rw [mentions, List.filter_cons_of_neg (by simp [hlookup]), ← ih]
      simp only [problems, hlookup, List.filterMap_append]
      rw [undeclared_operandProblem rfl, List.append_nil]
  | group inner ih => exact ih
  | unary op operand ih =>
    rw [mentions, ← ih]
    cases op with
    | negate | not => rw [problems, List.filterMap_append, undeclared_operandProblem rfl,
        List.append_nil]
    | other => rw [problems, List.append_nil]
  | binary op left right ihleft ihright =>
    rw [mentions, List.filter_append, ← ihleft, ← ihright, problems, List.filterMap_append,
      List.filterMap_append, undeclared_operationProblems, List.append_nil]

theorem Expr.undeclared_conditionProblems (scopes : Scopes Ty) (statement : Conditioned)
    (e : Expr) : (e.conditionProblems scopes statement).filterMap Problem.undeclared? =
      (e.problems scopes).filterMap Problem.undeclared? := by
  unfold conditionProblems
  split <;> simp [Problem.undeclared?]

/-- The unknown names of an expression that is looked at are those that it reports. -/
theorem Expr.unknown_sites {before actions : List (ScopeAction Ty)}
    {initialOf : Option (String × Ty)} (hlooked : ∀ n, ¬ (Site.mk before initialOf n).Skipped)
    (hactions : ∀ n, (Site.mk before initialOf n).history = actions) (e : Expr) :
    (e.sites before initialOf).filterMap Site.unknown? =
      (e.problems (Scopes.after actions)).filterMap Problem.undeclared? := by
  rw [Expr.undeclared_problems, sites, List.filterMap_map, ← List.filterMap_eq_filter]
  congr 1
  funext n
  simp [Site.unknown?, hlooked, Site.Known, hactions, Option.guard,
    Scopes.lookup_after_eq_none_iff_not_visible]

/-- Nothing is looked at in the initial value of a declaration that is refused. -/
theorem Expr.unknown_sites_of_taken {before : List (ScopeAction Ty)} {d : String × Ty}
    (htaken : Taken before d.1) (e : Expr) :
    (e.sites before (some d)).filterMap Site.unknown? = [] := by
  have hskipped : ∀ n, Site.Skipped ⟨before, some d, n⟩ := fun n => ⟨d, rfl, htaken⟩
  simp [sites, Site.unknown?, hskipped]

theorem Scopes.after_push (before : List (ScopeAction Ty)) :
    after (before ++ [.push]) = (after before).push := after_concat before .push

theorem Scopes.after_pop (before : List (ScopeAction Ty)) :
    after (before ++ [.pop]) = (after before).pop := after_concat before .pop

mutual

/-- The scopes behind a statement are those behind what it does. -/
theorem Stmt.check_after (before : List (ScopeAction Ty)) :
    (s : Stmt) → (s.check (Scopes.after before)).1 = Scopes.after (before ++ s.actions)
  | .absent | .print _ | .expression _ => by simp [Stmt.check, Stmt.actions]
  | .declare type name initial => by
    rw [Stmt.check, Stmt.actions, Scopes.after_concat, ScopeAction.apply]
    split <;> simp_all
  | .block body => by
    simp only [Stmt.check, Stmt.actions, ← List.append_assoc, Scopes.after_pop]
    rw [← Scopes.after_push, Stmt.checkAll_after _ body]
  | .ifElse condition consequent alternative => by
    rw [Stmt.check, Stmt.actions, Stmt.check_after before consequent,
      Stmt.check_after (before ++ consequent.actions) alternative, List.append_assoc]
  | .whileLoop condition body => by
    rw [Stmt.check, Stmt.actions, Stmt.check_after before body]
  | .forLoop initial condition increment body => by
    simp only [Stmt.check, Stmt.actions, ← List.append_assoc, Scopes.after_pop]
    rw [← Scopes.after_push, Stmt.check_after _ initial, Stmt.check_after _ body]

theorem Stmt.checkAll_after (before : List (ScopeAction Ty)) :
    (ss : List Stmt) →
      (Stmt.checkAll (Scopes.after before) ss).1 = Scopes.after (before ++ Stmt.allActions ss)
  | [] => by simp [Stmt.checkAll, Stmt.allActions]
  | s :: ss => by
    rw [Stmt.checkAll, Stmt.allActions, Stmt.check_after before s,
      Stmt.checkAll_after (before ++ s.actions) ss, List.append_assoc]

end

/-- The unknown names of a plain expression are those that it reports. -/
theorem Expr.unknown_sites_none (before : List (ScopeAction Ty)) (e : Expr) :
    (e.sites before none).filterMap Site.unknown? =
      (e.problems (Scopes.after before)).filterMap Problem.undeclared? := by
  apply unknown_sites
  · rintro n ⟨d, hd, -⟩
    cases hd
  · simp [Site.history]

mutual

/-- A statement reports the unknown names of its sites, each as often as there are such sites. -/
theorem Stmt.undeclared_check (before : List (ScopeAction Ty)) :
    (s : Stmt) → (s.check (Scopes.after before)).2.filterMap Problem.undeclared? =
      (s.sites before).filterMap Site.unknown?
  | .absent => by simp [Stmt.check, Stmt.sites]
  | .declare type name initial => by
    rw [Stmt.check, Stmt.sites]
    cases hdeclare : (Scopes.after before).declare? name (.ofWord type) with
    | none =>
      have htaken := (Scopes.declare?_after_eq_none_iff_taken before name _).mp hdeclare
      rw [Expr.unknown_sites_of_taken htaken]
      rfl
    | some inside =>
      have hfree : ¬ Taken before name := by
        rw [← Scopes.declare?_after_eq_none_iff_taken before name (.ofWord type), hdeclare]
        simp
      have hinside : inside = Scopes.after (before ++ [.declare name (.ofWord type)]) := by
        rw [Scopes.after_concat, ScopeAction.apply, hdeclare, Option.getD_some]
      have hlooked : ∀ n, ¬ (Site.mk before (some (name, .ofWord type)) n).Skipped := by
        rintro n ⟨d, hd, htaken⟩
        cases hd
        exact hfree htaken
      subst hinside
      simp only [List.filterMap_append]
      rw [Expr.undeclared_operandProblem rfl, List.append_nil]
      exact (Expr.unknown_sites hlooked (fun _ => rfl) initial).symm
  | .print value | .expression value => by
    rw [Stmt.check, Stmt.sites, Expr.unknown_sites_none]
  | .block body => by
    rw [Stmt.check, Stmt.sites, ← Stmt.undeclared_checkAll, Scopes.after_push]
  | .ifElse condition consequent alternative => by
    rw [Stmt.check, Stmt.sites]
    simp only [List.filterMap_append, Expr.undeclared_conditionProblems, Expr.unknown_sites_none,
      Stmt.check_after, Stmt.undeclared_check _ consequent, Stmt.undeclared_check _ alternative]
  | .whileLoop condition body => by
    rw [Stmt.check, Stmt.sites]
    simp only [List.filterMap_append, Expr.undeclared_conditionProblems, Expr.unknown_sites_none,
      Stmt.undeclared_check _ body]
  | .forLoop initial condition increment body => by
    have hcondition : ∀ scopes, (if condition.isAbsent then [] else
        condition.conditionProblems scopes .forLoop).filterMap Problem.undeclared? =
          (condition.problems scopes).filterMap Problem.undeclared? := by
      intro scopes
      cases condition with
      | absent => rfl
      | _ => exact Expr.undeclared_conditionProblems _ _ _
    rw [Stmt.check, Stmt.sites, ← Scopes.after_push]
    simp only [List.filterMap_append, hcondition, Expr.unknown_sites_none, Stmt.check_after,
      Stmt.undeclared_check _ initial, Stmt.undeclared_check _ body]

theorem Stmt.undeclared_checkAll (before : List (ScopeAction Ty)) :
    (ss : List Stmt) →
      (Stmt.checkAll (Scopes.after before) ss).2.filterMap Problem.undeclared? =
        (Stmt.allSites before ss).filterMap Site.unknown?
  | [] => by simp [Stmt.checkAll, Stmt.allSites]
  | s :: ss => by
    rw [Stmt.checkAll, Stmt.allSites, List.filterMap_append, List.filterMap_append,
      Stmt.undeclared_check before s, Stmt.check_after, Stmt.undeclared_checkAll _ ss]

end

/-! ### Reporting once -/

/-- What is wrong is reported, an undeclared name unless it was reported before. -/
theorem mem_reportOnce_iff (q : Problem) (reported : List String) (ps : List Problem) :
    q ∈ reportOnce reported ps ↔ q ∈ ps ∧ ∀ name, q = .undeclared name → name ∉ reported := by
  fun_induction reportOnce reported ps with
  | case1 => simp
  | case2 reported name ps hname ih =>
    rw [ih, List.mem_cons]
    constructor
    · exact fun ⟨hmem, hnew⟩ => ⟨.inr hmem, hnew⟩
    · rintro ⟨rfl | hmem, hnew⟩
      · exact absurd hname (hnew name rfl)
      · exact ⟨hmem, hnew⟩
  | case3 reported name ps hname ih =>
    rw [List.mem_cons, List.mem_cons, ih]
    by_cases hq : q = .undeclared name
    · subst hq
      simpa using hname
    · simp only [hq, false_or]
      refine and_congr_right fun _ => forall₂_congr fun other hother => ?_
      have hne : other ≠ name := by
        rintro rfl
        exact hq hother
      simp [hne]
  | case4 reported p ps hp ih =>
    rw [List.mem_cons, List.mem_cons, ih]
    constructor
    · rintro (rfl | ⟨hmem, hnew⟩)
      · exact ⟨.inl rfl, fun name hname => absurd hname (hp name)⟩
      · exact ⟨.inr hmem, hnew⟩
    · rintro ⟨hmem, hnew⟩
      exact hmem.imp_right fun hmem => ⟨hmem, hnew⟩

theorem count_reportOnce_le (x : String) (reported : List String) (ps : List Problem) :
    (reportOnce reported ps).count (.undeclared x) ≤ if x ∈ reported then 0 else 1 := by
  fun_induction reportOnce reported ps with
  | case1 => simp
  | case2 reported name ps hname ih => exact ih
  | case3 reported name ps hname ih =>
    by_cases hx : name = x
    · subst hx
      rw [List.count_cons_self, if_neg hname]
      rw [if_pos List.mem_cons_self] at ih
      omega
    · rw [List.count_cons_of_ne (by simpa using hx)]
      simpa [Ne.symm hx] using ih
  | case4 reported p ps hp ih =>
    rwa [List.count_cons_of_ne (hp x)]

/-- Which of two things comes first in a list, from its head on. -/
theorem findIdx_cons_lt_iff {β : Type} (p q : β → Bool) (b : β) (bs : List β) :
    (b :: bs).findIdx p < (b :: bs).findIdx q ↔
      q b = false ∧ (p b = true ∨ bs.findIdx p < bs.findIdx q) := by
  rw [List.findIdx_cons, List.findIdx_cons]
  cases p b <;> cases q b <;> simp

/-- Leaving out the later reports of a name keeps the order of the first ones. -/
theorem findIdx_reportOnce_lt_iff {x y : String} {reported : List String} (hx : x ∉ reported)
    (hy : y ∉ reported) (ps : List Problem) :
    (reportOnce reported ps).findIdx (·.undeclared? == some x) <
        (reportOnce reported ps).findIdx (·.undeclared? == some y) ↔
      ps.findIdx (·.undeclared? == some x) < ps.findIdx (·.undeclared? == some y) := by
  fun_induction reportOnce reported ps with
  | case1 => rfl
  | case2 reported name ps hname ih =>
    have hnx : name ≠ x := fun h => hx (h ▸ hname)
    have hny : name ≠ y := fun h => hy (h ▸ hname)
    rw [findIdx_cons_lt_iff, ih hx hy]
    simp [Problem.undeclared?, hnx, hny]
  | case3 reported name ps hname ih =>
    rw [findIdx_cons_lt_iff, findIdx_cons_lt_iff]
    -- Behind the report of `name` the question is open only if it is neither of the two.
    refine and_congr_right fun hny => or_congr_right' fun hnx => ih ?_ ?_
    · have hne : name ≠ x := by simpa [Problem.undeclared?] using hnx
      simp [hne.symm, hx]
    · have hne : name ≠ y := by simpa [Problem.undeclared?] using hny
      simp [hne.symm, hy]
  | case4 reported p ps hp ih => rw [findIdx_cons_lt_iff, findIdx_cons_lt_iff, ih hx hy]

/-- Leaving out what has no name keeps the order of the names. -/
theorem idxOf_filterMap_lt_iff {β : Type} (f : β → Option String) (bs : List β) (x y : String) :
    (bs.filterMap f).idxOf x < (bs.filterMap f).idxOf y ↔
      bs.findIdx (f · == some x) < bs.findIdx (f · == some y) := by
  induction bs with
  | nil => rfl
  | cons b bs ih =>
    rw [findIdx_cons_lt_iff, ← ih]
    cases hb : f b with
    | none => simp [hb]
    | some name =>
      rw [List.filterMap_cons_some hb, List.idxOf, List.idxOf, findIdx_cons_lt_iff]
      simp

/-! ### Messages -/

/-- How a name that is not declared is reported. -/
def notDeclared (name : String) : String := "Variable '" ++ name ++ "' not declared."

/-- How a name that is declared twice in a block is reported. -/
def alreadyDeclared (name : String) : String := "Variable '" ++ name ++ "' already declared."

/-- The messages about a program. -/
def messages (p : Program) : List String := (analyze p).map Diagnostic.message

/-- No other problem reads like an undeclared name. -/
theorem Problem.message_eq_notDeclared_iff (q : Problem) (x : String) :
    q.message = notDeclared x ↔ q = .undeclared x := by
  rw [message.eq_def, notDeclared]
  cases q with
  | undeclared name => simp
  | redeclared name =>
    -- The two texts differ near their ends.
    refine iff_of_false (fun h => ?_) nofun
    have hback := congrArg (fun text => text.toList.reverse) h
    simp at hback
  | condition statement =>
    refine iff_of_false (fun h => ?_) nofun
    have hchars := congrArg String.toList h
    cases statement <;> simp at hchars
  | _ =>
    refine iff_of_false (fun h => ?_) nofun
    have hchars := congrArg String.toList h
    simp at hchars

theorem messages_eq (p : Program) : messages p = (problems p).map Problem.message := by
  simp [messages, analyze, Problem.diagnostic]

/-- What checking a program reports as not declared, every time. -/
theorem undeclared_checkAll_initial (p : Program) :
    (Stmt.checkAll .initial p).2.filterMap Problem.undeclared? =
      (sites p).filterMap Site.unknown? :=
  Stmt.undeclared_checkAll [] p

theorem Problem.mem_undeclared_iff {ps : List Problem} {x : String} :
    .undeclared x ∈ ps ↔ x ∈ ps.filterMap Problem.undeclared? := by
  rw [List.mem_filterMap]
  constructor
  · exact fun h => ⟨_, h, rfl⟩
  · rintro ⟨q, hq, hname⟩
    cases q <;> cases hname
    exact hq

theorem Site.unknown?_eq_some_iff {s : Site} {x : String} :
    s.unknown? = some x ↔ s.name = x ∧ ¬ s.Skipped ∧ ¬ s.Known := by
  unfold unknown?
  split <;> simp_all

theorem notDeclared_mem_messages_iff (p : Program) (x : String) :
    notDeclared x ∈ messages p ↔ ∃ s ∈ sites p, s.name = x ∧ ¬ s.Skipped ∧ ¬ s.Known := by
  have hmem : notDeclared x ∈ messages p ↔ .undeclared x ∈ problems p := by
    rw [messages_eq, List.mem_map]
    simp only [Problem.message_eq_notDeclared_iff, exists_eq_right]
  rw [hmem, problems, mem_reportOnce_iff, Problem.mem_undeclared_iff, undeclared_checkAll_initial,
    List.mem_filterMap]
  simp [Site.unknown?_eq_some_iff]

/-- A problem reads like an undeclared name if it reports that name. -/
theorem Problem.message_beq_notDeclared (q : Problem) (x : String) :
    (q.message == notDeclared x) = (q.undeclared? == some x) := by
  rw [Bool.eq_iff_iff, beq_iff_eq, beq_iff_eq, message_eq_notDeclared_iff]
  cases q <;> simp [undeclared?]

theorem idxOf_notDeclared (p : Program) (x : String) :
    (messages p).idxOf (notDeclared x) = (problems p).findIdx (·.undeclared? == some x) := by
  rw [messages_eq, List.idxOf, List.findIdx_map]
  congr 1
  funext q
  exact q.message_beq_notDeclared x

theorem count_notDeclared (p : Program) (x : String) :
    (messages p).count (notDeclared x) = (problems p).count (.undeclared x) := by
  rw [messages_eq, List.count, List.countP_map]
  congr 1
  funext q
  rw [Bool.eq_iff_iff, Function.comp_apply, beq_iff_eq, beq_iff_eq]
  exact q.message_eq_notDeclared_iff x

/-- A name is reported as not declared at most once, and it is reported if and only if it is read or
assigned at some site that is not in the initial value of a refused declaration and from which no
declaration of it can be seen.  Of two names the one with the first such site is reported first. -/
theorem undeclared_reported_once (p : Program) (x : String) :
    (messages p).count (notDeclared x) ≤ 1 ∧
      (notDeclared x ∈ messages p ↔ ∃ s ∈ sites p, s.name = x ∧ ¬ s.Skipped ∧ ¬ s.Known) ∧
      ∀ y, (messages p).idxOf (notDeclared x) < (messages p).idxOf (notDeclared y) ↔
        (sites p).findIdx (·.unknown? == some x) < (sites p).findIdx (·.unknown? == some y) := by
  refine ⟨?_, notDeclared_mem_messages_iff p x, ?_⟩
  · rw [count_notDeclared]
    exact count_reportOnce_le x [] _
  · intro y
    rw [idxOf_notDeclared, idxOf_notDeclared, problems,
      findIdx_reportOnce_lt_iff List.not_mem_nil List.not_mem_nil, ← idxOf_filterMap_lt_iff,
      undeclared_checkAll_initial, idxOf_filterMap_lt_iff]

/-! ### Initial values of refused declarations -/

theorem Expr.eq_of_mem_sites {before : List (ScopeAction Ty)} {initialOf : Option (String × Ty)}
    {e : Expr} {site : Site} (h : site ∈ e.sites before initialOf) :
    site.before = before ∧ site.initialOf = initialOf := by
  obtain ⟨n, -, rfl⟩ := List.mem_map.mp h
  exact ⟨rfl, rfl⟩

theorem Expr.not_mem_sites_none {site : Site} {d : String × Ty} (hd : site.initialOf = some d)
    (before : List (ScopeAction Ty)) (e : Expr) : site ∉ e.sites before none := by
  intro h
  rw [(Expr.eq_of_mem_sites h).2] at hd
  cases hd

mutual

/-- Where an initial value is skipped, its declaration is reported. -/
theorem Stmt.redeclared_mem_check {site : Site} {d : String × Ty} (hd : site.initialOf = some d)
    (htaken : Taken site.before d.1) (before : List (ScopeAction Ty)) :
    (s : Stmt) → site ∈ s.sites before → .redeclared d.1 ∈ (s.check (Scopes.after before)).2
  | .absent, h => by simp [Stmt.sites] at h
  | .declare type name initial, h => by
    rw [Stmt.sites] at h
    obtain ⟨hbefore, hinitial⟩ := Expr.eq_of_mem_sites h
    rw [hd] at hinitial
    cases hinitial
    rw [hbefore, ← Scopes.declare?_after_eq_none_iff_taken before _ (Ty.ofWord type)] at htaken
    rw [Stmt.check, htaken]
    exact List.mem_singleton_self _
  | .print value, h | .expression value, h => by
    rw [Stmt.sites] at h
    exact absurd h (Expr.not_mem_sites_none hd before value)
  | .block body, h => by
    rw [Stmt.sites] at h
    rw [Stmt.check, ← Scopes.after_push]
    exact Stmt.redeclared_mem_checkAll hd htaken _ body h
  | .ifElse condition consequent alternative, h => by
    have hconsequent := Stmt.redeclared_mem_check hd htaken before consequent
    have halternative :=
      Stmt.redeclared_mem_check hd htaken (before ++ consequent.actions) alternative
    rw [Stmt.check, Stmt.check_after]
    simp only [Stmt.sites, List.mem_append, Expr.not_mem_sites_none hd, false_or] at h ⊢
    exact h.imp (fun h => .inr (hconsequent h)) halternative
  | .whileLoop condition body, h => by
    have hbody := Stmt.redeclared_mem_check hd htaken before body
    rw [Stmt.check]
    simp only [Stmt.sites, List.mem_append, Expr.not_mem_sites_none hd, false_or] at h ⊢
    exact .inr (hbody h)
  | .forLoop initial condition increment body, h => by
    have hinitial := Stmt.redeclared_mem_check hd htaken (before ++ [.push]) initial
    have hbody := Stmt.redeclared_mem_check hd htaken (before ++ [.push] ++ initial.actions) body
    rw [Stmt.check, ← Scopes.after_push, Stmt.check_after, Stmt.check_after]
    simp only [Stmt.sites, List.mem_append, Expr.not_mem_sites_none hd, or_false] at h ⊢
    exact h.elim (fun h => .inl (.inl (.inl (hinitial h)))) fun h => .inl (.inr (hbody h))

theorem Stmt.redeclared_mem_checkAll {site : Site} {d : String × Ty} (hd : site.initialOf = some d)
    (htaken : Taken site.before d.1) (before : List (ScopeAction Ty)) :
    (ss : List Stmt) → site ∈ Stmt.allSites before ss →
      .redeclared d.1 ∈ (Stmt.checkAll (Scopes.after before) ss).2
  | [], h => by simp [Stmt.allSites] at h
  | s :: ss, h => by
    rw [Stmt.checkAll, Stmt.check_after]
    rw [Stmt.allSites] at h
    rcases List.mem_append.mp h with h | h
    · exact List.mem_append_left _ (Stmt.redeclared_mem_check hd htaken before s h)
    · exact List.mem_append_right _ (Stmt.redeclared_mem_checkAll hd htaken _ ss h)

end

theorem alreadyDeclared_mem_messages {p : Program} {s : Site} (hs : s ∈ sites p) {d : String × Ty}
    (hd : s.initialOf = some d) (htaken : Taken s.before d.1) :
    alreadyDeclared d.1 ∈ messages p := by
  rw [messages_eq, problems]
  refine List.mem_map.mpr ⟨.redeclared d.1, ?_, rfl⟩
  rw [mem_reportOnce_iff]
  refine ⟨Stmt.redeclared_mem_checkAll hd htaken [] p hs, ?_⟩
  intro name hname
  cases hname

/-- Every identifier of a program is the name of a declaration or a site.  If no declaration of the
name can be seen from a site then the name is reported as not declared, unless all such sites are
in initial values of declarations that are refused; and of those each is reported to be refused. -/
theorem unknown_names_reported (p : Program) :
    (∀ x, (unparse p).count (.identifier, x) =
      (sites p).countP (·.name == x) + (Stmt.allActions p).countP (·.declares x)) ∧
    ∀ s ∈ sites p, ¬ s.Known →
      (¬ s.Skipped → notDeclared s.name ∈ messages p) ∧
      (∀ d ∈ s.initialOf, Taken s.before d.1 → alreadyDeclared d.1 ∈ messages p) ∧
      (notDeclared s.name ∉ messages p ↔
        ∀ t ∈ sites p, t.name = s.name → ¬ t.Known → t.Skipped) := by
  refine ⟨fun x => Stmt.count_unparseAll x [] p, ?_⟩
  intro s hs hknown
  refine ⟨?_, ?_, ?_⟩
  · intro hskipped
    rw [notDeclared_mem_messages_iff]
    exact ⟨s, hs, rfl, hskipped, hknown⟩
  · intro d hd htaken
    exact alreadyDeclared_mem_messages hs hd htaken
  · rw [notDeclared_mem_messages_iff]
    constructor
    · intro h t ht hname hunseen
      by_contra hskipped
      exact h ⟨t, ht, hname, hskipped, hunseen⟩
    · rintro h ⟨t, ht, hname, hskipped, hunseen⟩
      exact hskipped (h t ht hname hunseen)

/-- Of two unknown names the one that stands behind a second declaration of a name is left out. -/
theorem reported_beside_refused :
    let text := "tibuok x; tibuok x = y; imprenta_gawas z;".toList
    ∃ p, parse (tokenize text) = .ok p ∧ alreadyDeclared "x" ∈ messages p ∧
      notDeclared "y" ∉ messages p ∧ notDeclared "z" ∈ messages p := by
  intro text
  let p : Program :=
    [.declare "tibuok" "x" .absent, .declare "tibuok" "x" (.name "y"), .print (.name "z")]
  have hparse : parse (tokenize text) = .ok p := by
    refine parse_of_spelled ?_ ?_
    · simp only [p, WellFormed, Stmt.AllWellFormed, Stmt.WellFormed]
      decide
    · decide +kernel
  let y : Site := ⟨[.declare "x" .int], some ("x", .int), "y"⟩
  let z : Site := ⟨[.declare "x" .int, .declare "x" .int], none, "z"⟩
  obtain ⟨-, halready, hsilent⟩ := (unknown_names_reported p).2 y (by decide) (by decide)
  obtain ⟨hreported, -⟩ := (unknown_names_reported p).2 z (by decide) (by decide)
  exact ⟨p, hparse, halready _ rfl (by decide), hsilent.mpr (by decide), hreported (by decide)⟩

/-- In the initial value of a declaration that is refused an unknown name is not reported. -/
theorem unknown_name_behind_refused :
    let text := "tibuok x; tibuok x = y;".toList
    ∃ p, parse (tokenize text) = .ok p ∧
      (∃ s ∈ sites p, s.name = "y" ∧ ¬ s.Known) ∧ notDeclared "y" ∉ messages p := by
  intro text
  let p : Program := [.declare "tibuok" "x" .absent, .declare "tibuok" "x" (.name "y")]
  have hparse : parse (tokenize text) = .ok p := by
    refine parse_of_spelled ?_ ?_
    · simp only [p, WellFormed, Stmt.AllWellFormed, Stmt.WellFormed]
      decide
    · decide +kernel
  exact ⟨p, hparse, by decide, by decide⟩

end Binisaya
