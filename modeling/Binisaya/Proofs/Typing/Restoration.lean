import Binisaya.Proofs.Grammar.Completeness
import Binisaya.Proofs.Typing.Judgement
import Binisaya.Token.Lexer

/-!
# Scopes before and after a statement

What checking does to the open blocks.  `Scopes.Refines` says that the same blocks are open, that
those around the innermost are as they were, and that the innermost one still has all its bindings.
Main statement: this holds of every statement, whatever stands in it; a statement of the grammar
that is no declaration changes nothing at all, and behind a whole program the one open block binds
what the program declares outside of all blocks.
-/

namespace Binisaya

/-- A frame with at least the bindings of another one. -/
def Frame.Refines {α : Type} (t t' : Frame α) : Prop :=
  ∀ name value, t.get? name = some value → t'.get? name = some value

/-- The same open blocks, of which only the innermost may have more bindings. -/
structure Scopes.Refines {α : Type} (s s' : Scopes α) : Prop where
  depth : s'.depth = s.depth
  outer : s'.outer = s.outer
  innermost : s.innermost.Refines s'.innermost

theorem Frame.Refines.add {α : Type} {t : Frame α} {name : String} (h : t.binds name = false)
    (value : α) : t.Refines (t.add name value) := by
  intro other bound hother
  rw [Frame.get?_add]
  by_cases hname : other = name
  · subst hname
    simp [Frame.binds, hother] at h
  · rw [if_neg hname, hother]

/-! ### One statement -/

/-- A statement removes no binding and changes none. -/
theorem Stmt.check_innermost_refines (scopes : Scopes Ty) (s : Stmt) :
    scopes.innermost.Refines (s.check scopes).1.innermost := by
  cases s with
  | absent =>
    rw [Stmt.check]
    exact fun _ _ h => h
  | declare type name initial =>
    rw [Stmt.check, Scopes.declare?]
    by_cases hbinds : scopes.innermost.binds name = true
    · rw [if_pos hbinds]
      exact fun _ _ h => h
    · rw [if_neg hbinds]
      exact Frame.Refines.add (by simpa using hbinds) _
  | print value =>
    rw [Stmt.check]
    exact fun _ _ h => h
  | expression value =>
    rw [Stmt.check]
    exact fun _ _ h => h
  | block body =>
    rw [Stmt.check, Scopes.pop_of_outer (Stmt.checkAll_outer scopes.push body)]
    exact fun _ _ h => h
  | ifElse condition consequent alternative =>
    rw [Stmt.check]
    intro name value h
    apply Stmt.check_innermost_refines _ alternative
    exact Stmt.check_innermost_refines scopes consequent name value h
  | whileLoop condition body =>
    rw [Stmt.check]
    exact Stmt.check_innermost_refines scopes body
  | forLoop initial condition increment body =>
    have houter : (body.check (initial.check scopes.push).1).1.outer = scopes.frames := by
      rw [Stmt.check_outer, Stmt.check_outer, Scopes.push_outer]
    rw [Stmt.check, Scopes.pop_of_outer houter]
    exact fun _ _ h => h

theorem Stmt.check_refines (scopes : Scopes Ty) (s : Stmt) :
    scopes.Refines (s.check scopes).1 := by
  have houter := Stmt.check_outer scopes s
  refine ⟨?_, houter, Stmt.check_innermost_refines scopes s⟩
  simp only [Scopes.depth, Scopes.frames, List.length_cons, houter]

/-! ### Statements of programs -/

mutual

/-- The statements that stand in a statement, itself included. -/
def Stmt.parts : Stmt → List Stmt
  | .absent => []
  | .declare type name initial => [.declare type name initial]
  | .print value => [.print value]
  | .expression value => [.expression value]
  | .block body => .block body :: Stmt.allParts body
  | .ifElse condition consequent alternative =>
    .ifElse condition consequent alternative :: (consequent.parts ++ alternative.parts)
  | .whileLoop condition body => .whileLoop condition body :: body.parts
  | .forLoop initial condition increment body =>
    .forLoop initial condition increment body :: (initial.parts ++ body.parts)

/-- The statements that stand in a sequence of statements. -/
def Stmt.allParts : List Stmt → List Stmt
  | [] => []
  | s :: ss => s.parts ++ Stmt.allParts ss

end

mutual

/-- What stands in a statement of the grammar follows the grammar. -/
theorem Stmt.WellFormed.parts {s : Stmt} (hwf : s.WellFormed) :
    ∀ t ∈ s.parts, t.WellFormed := by
  intro t ht
  cases s with
  | absent => simp [Stmt.parts] at ht
  | declare type name initial | print value | expression value =>
    obtain rfl := List.mem_singleton.mp (by simpa [Stmt.parts] using ht)
    exact hwf
  | block body =>
    rw [Stmt.parts] at ht
    rcases List.mem_cons.mp ht with rfl | ht
    · exact hwf
    · rw [Stmt.WellFormed] at hwf
      exact Stmt.allParts_wellFormed hwf t ht
  | ifElse condition consequent alternative =>
    rw [Stmt.parts] at ht
    rcases List.mem_cons.mp ht with rfl | ht
    · exact hwf
    · rw [Stmt.WellFormed] at hwf
      obtain ⟨-, hconsequent, -, halternative⟩ := hwf
      rcases List.mem_append.mp ht with ht | ht
      · exact hconsequent.parts t ht
      · rcases halternative with rfl | ⟨halternative, -⟩
        · simp [Stmt.parts] at ht
        · exact halternative.parts t ht
  | whileLoop condition body =>
    rw [Stmt.parts] at ht
    rcases List.mem_cons.mp ht with rfl | ht
    · exact hwf
    · rw [Stmt.WellFormed] at hwf
      exact hwf.2.1.parts t ht
  | forLoop initial condition increment body =>
    rw [Stmt.parts] at ht
    rcases List.mem_cons.mp ht with rfl | ht
    · exact hwf
    · rw [Stmt.WellFormed] at hwf
      obtain ⟨hinitial, -, -, hbody, -⟩ := hwf
      rcases List.mem_append.mp ht with ht | ht
      · rcases hinitial with rfl | ⟨hinitial, -⟩
        · simp [Stmt.parts] at ht
        · exact hinitial.parts t ht
      · exact hbody.parts t ht

theorem Stmt.allParts_wellFormed {ss : List Stmt} (hwf : Stmt.AllWellFormed ss) :
    ∀ t ∈ Stmt.allParts ss, t.WellFormed := by
  intro t ht
  cases ss with
  | nil => simp [Stmt.allParts] at ht
  | cons s ss =>
    rw [Stmt.allParts] at ht
    rcases List.mem_append.mp ht with ht | ht
    · exact hwf.1.parts t ht
    · exact Stmt.allParts_wellFormed hwf.2 t ht

end

/-! ### Whole programs -/

/-- The name that a statement declares where it stands, and its type. -/
def Stmt.declared? : Stmt → Option (String × Ty)
  | .declare type name _ => some (name, .ofWord type)
  | _ => none

/-- The declarations of a sequence of statements, but not those that stand within one of them. -/
def Stmt.declarations (ss : List Stmt) : List (String × Ty) := ss.filterMap Stmt.declared?

/-- A name that is bound stays bound to the same type, another one is bound by the statement that
declares it. -/
theorem Stmt.check_get? (scopes : Scopes Ty) {s : Stmt} (hwf : s.WellFormed) (name : String) :
    (s.check scopes).1.innermost.get? name =
      (scopes.innermost.get? name).or (s.declared?.toList.lookup name) := by
  by_cases hdeclare : s.isDeclare = true
  · cases s with
    | declare type declared initial =>
      rw [Stmt.check, Scopes.declare?]
      by_cases hbinds : scopes.innermost.binds declared = true
      · rw [if_pos hbinds]
        obtain ⟨bound, hbound⟩ := Option.isSome_iff_exists.mp hbinds
        by_cases hname : name = declared
        · simp [hname, hbound]
        · simp [Stmt.declared?, List.lookup_cons, beq_eq_false_iff_ne.mpr hname]
      · rw [if_neg hbinds]
        have hfree : scopes.innermost.get? declared = none := by simpa [Frame.binds] using hbinds
        by_cases hname : name = declared
        · simp [Scopes.bind, Frame.get?_add, Stmt.declared?, hname, hfree]
        · simp [Scopes.bind, Frame.get?_add, Stmt.declared?, List.lookup_cons, hname,
            beq_eq_false_iff_ne.mpr hname]
    | _ => cases hdeclare
  · rw [Stmt.check_of_not_declare scopes s hwf (by simpa using hdeclare)]
    cases s with
    | declare => simp [Stmt.isDeclare] at hdeclare
    | _ => simp [Stmt.declared?]

/-- Behind a sequence of statements a name that was not bound has the type of its first
declaration there. -/
theorem Stmt.checkAll_get? (scopes : Scopes Ty) {ss : List Stmt} (hwf : Stmt.AllWellFormed ss)
    (name : String) :
    (Stmt.checkAll scopes ss).1.innermost.get? name =
      (scopes.innermost.get? name).or ((Stmt.declarations ss).lookup name) := by
  induction ss generalizing scopes with
  | nil => simp [Stmt.checkAll, Stmt.declarations]
  | cons s ss ih =>
    have hsplit : Stmt.declarations (s :: ss) = s.declared?.toList ++ Stmt.declarations ss := by
      cases hdeclared : s.declared? <;> simp [Stmt.declarations, hdeclared]
    rw [Stmt.checkAll, ih _ hwf.2, Stmt.check_get? scopes hwf.1, hsplit, List.lookup_append,
      Option.or_assoc]

/-- Checking a statement keeps the blocks that are open, all that is bound around the innermost one
and all that is bound in it.  In a program that has been parsed only declarations add a binding to
the block they stand in, so that behind the program there is one block, which binds each name that
is declared outside of all blocks to the type of its first declaration there. -/
theorem check_restores_scopes :
    (∀ (scopes : Scopes Ty) (s : Stmt), scopes.Refines (s.check scopes).1) ∧
    ∀ (ts : List Token) (p : Program), parse ts = .ok p →
      (∀ s ∈ Stmt.allParts p, s.isDeclare = false → ∀ scopes, (s.check scopes).1 = scopes) ∧
      (Stmt.checkAll .initial p).1.depth = 1 ∧
      ∀ name, (Stmt.checkAll .initial p).1.innermost.get? name =
        (Stmt.declarations p).lookup name := by
  refine ⟨Stmt.check_refines, fun ts p hparse => ?_⟩
  have hwf := parse_wellFormed hparse
  refine ⟨?_, ?_, ?_⟩
  · intro s hs hdeclare scopes
    exact Stmt.check_of_not_declare scopes s (Stmt.allParts_wellFormed hwf s hs) hdeclare
  · have houter := Stmt.checkAll_outer .initial p
    simp only [Scopes.depth, Scopes.frames, houter]
    rfl
  · intro name
    rw [Stmt.checkAll_get? .initial hwf name]
    rfl

/-- Behind `tibuok a; { karhan a; } alang (tibuok i = 0; i < a; ) { lutaw e; } karhan a;` there is one
block, in which `a` has the type of its first declaration and the names of inner blocks are not
bound.  The block and the loop change no scopes, although all they declare is new there. -/
theorem restored_behind_redeclaration :
    let text := "tibuok a; \x7b karhan a; \x7d alang (tibuok i = 0; i < a; ) \x7b lutaw e; \x7d karhan a;".toList
    let inner : Stmt := .block [.declare "karhan" "a" .absent]
    let loop : Stmt :=
      .forLoop (.declare "tibuok" "i" (.literal .int "0")) (.binary .less (.name "i") (.name "a"))
        .absent (.block [.declare "lutaw" "e" .absent])
    let p : Program :=
      [.declare "tibuok" "a" .absent, inner, loop, .declare "karhan" "a" .absent]
    let after := (Stmt.checkAll .initial p).1
    parse (tokenize text) = .ok p ∧ after.depth = 1 ∧ after.innermost.get? "a" = some .int ∧
      after.innermost.get? "i" = none ∧ after.innermost.get? "e" = none ∧
      ∀ scopes, (inner.check scopes).1 = scopes ∧ (loop.check scopes).1 = scopes := by
  intro text inner loop p after
  have hparse : parse (tokenize text) = .ok p := by
    refine parse_of_spelled ?_ ?_
    · simp only [p, inner, loop, WellFormed, Stmt.AllWellFormed, Stmt.WellFormed, reduceCtorEq,
        false_or]
      decide
    · simp only [text]
      decide +kernel
  obtain ⟨hsame, hdepth, hbound⟩ := check_restores_scopes.2 _ p hparse
  refine ⟨hparse, hdepth, (hbound "a").trans ?_, (hbound "i").trans ?_, (hbound "e").trans ?_, ?_⟩
  · decide
  · decide
  · decide
  · intro scopes
    have hinner : inner ∈ Stmt.allParts p := by simp [p, inner, Stmt.allParts, Stmt.parts]
    have hloop : loop ∈ Stmt.allParts p := by simp [p, loop, Stmt.allParts, Stmt.parts]
    exact ⟨hsame inner hinner rfl scopes, hsame loop hloop rfl scopes⟩

end Binisaya
