import Binisaya.Proofs.Rendering.Preservation
import Mathlib.Data.List.Forall2

/-!
# Values behind blocks and assignments

What rendering leaves behind of the values that it keeps for names.  An assignment changes the
innermost block that has the name, so a block that assigns only to names which it has declared
itself leaves the values around it as they were, and no line behind it tells that it is there.  The
value of an assigned name is the text of all that stands right of its equals sign: behind a chain of
assignments only the last name has the text of the value.
-/

namespace Binisaya

/-! ### Assignments to names of open blocks -/

/-- Whether all assignments in an expression are to names among those of some blocks. -/
def Expr.assignsWithin (known : List (List String)) : Expr → Bool
  | .absent | .literal _ _ | .name _ => true
  | .binary _ left right => left.assignsWithin known && right.assignsWithin known
  | .unary _ operand => operand.assignsWithin known
  | .group inner => inner.assignsWithin known
  | .assign target value => known.flatten.contains target && value.assignsWithin known

/-- The names of some blocks, the innermost first, after a statement in the innermost one. -/
def Stmt.extend (known : List (List String)) : Stmt → List (List String)
  | .declare _ name _ =>
    match known with
    | [] => []
    | names :: outer => (name :: names) :: outer
  | _ => known

mutual

/-- Whether all assignments in a statement are to names that have been declared before in a block
which is still open.  `known` are the names of the blocks around the statement.  A name is declared
behind its initial value, and the increment of a counting loop comes before its body. -/
def Stmt.assignsWithin (known : List (List String)) : Stmt → Bool
  | .absent => true
  | .declare _ _ initial => initial.assignsWithin known
  | .print value => value.assignsWithin known
  | .expression value => value.assignsWithin known
  | .block body => Stmt.allAssignWithin ([] :: known) body
  | .ifElse condition consequent alternative =>
    condition.assignsWithin known && consequent.assignsWithin known &&
      alternative.assignsWithin known
  | .whileLoop condition body => condition.assignsWithin known && body.assignsWithin known
  | .forLoop initial condition increment body =>
    let inside := initial.extend ([] :: known)
    initial.assignsWithin ([] :: known) && condition.assignsWithin inside &&
      increment.assignsWithin inside && body.assignsWithin inside

/-- Whether this is so in a sequence of statements. -/
def Stmt.allAssignWithin (known : List (List String)) : List Stmt → Bool
  | [] => true
  | s :: ss => s.assignsWithin known && Stmt.allAssignWithin (s.extend known) ss

end

/-! ### Blocks on top of others -/

/-- A frame binds some names. -/
def Frame.BindsAll {α : Type} (names : List String) (t : Frame α) : Prop :=
  ∀ name ∈ names, t.binds name = true

theorem Frame.BindsAll.add {α : Type} {names : List String} {t : Frame α} (h : t.BindsAll names)
    (name : String) (value : α) : (t.add name value).BindsAll (name :: names) := by
  intro other hother
  unfold Frame.binds
  rw [Frame.get?_add]
  by_cases hsame : other = name
  · rw [if_pos hsame]
    rfl
  · rw [if_neg hsame]
    exact h other ((List.mem_cons.mp hother).resolve_left hsame)

theorem Frame.BindsAll.tail {α : Type} {name : String} {names : List String} {t : Frame α}
    (h : t.BindsAll (name :: names)) : t.BindsAll names :=
  fun other hother => h other (List.mem_cons_of_mem name hother)

/-- The open blocks are some that bind at least the names of `known`, and around them are those of
`base`. -/
def Scopes.Above {α : Type} (base : Scopes α) (known : List (List String)) (s : Scopes α) : Prop :=
  ∃ inner, s.frames = inner ++ base.frames ∧ List.Forall₂ Frame.BindsAll known inner

/-- An assignment to a name that some frames bind is made in these frames. -/
theorem exists_assignIn_append {α : Type} {known : List (List String)} {inner : List (Frame α)}
    (h : List.Forall₂ Frame.BindsAll known inner) {name : String} (hname : name ∈ known.flatten)
    (value : α) (base : List (Frame α)) :
    ∃ inner', Scopes.assignIn name value (inner ++ base) = inner' ++ base ∧
      List.Forall₂ Frame.BindsAll known inner' := by
  induction h with
  | nil => cases hname
  | @cons names frame known inner hframe hinner ih =>
    by_cases hbinds : frame.binds name = true
    · refine ⟨frame.add name value :: inner, ?_, .cons (hframe.add name value).tail hinner⟩
      rw [List.cons_append, Scopes.assignIn_of_binds hbinds, List.cons_append]
    · have hbelow : name ∈ known.flatten := by
        rw [List.flatten_cons, List.mem_append] at hname
        exact hname.resolve_left fun hmem => hbinds (hframe name hmem)
      obtain ⟨inner', hassign, hinner'⟩ := ih hbelow
      have hne : inner ++ base ≠ [] := by
        cases hinner with
        | nil => cases hbelow
        | cons => exact List.cons_ne_nil _ _
      refine ⟨frame :: inner', ?_, .cons hframe hinner'⟩
      rw [List.cons_append, Scopes.assignIn_of_not_binds (by simpa using hbinds) value hne, hassign,
        List.cons_append]

namespace Scopes.Above

variable {α : Type} {base s : Scopes α} {known : List (List String)} {names : List String}

theorem refl (base : Scopes α) : Above base [] base := ⟨[], rfl, .nil⟩

theorem eq_base (h : Above base [] s) : s = base := by
  obtain ⟨inner, hframes, hinner⟩ := h
  cases hinner
  obtain ⟨hinnermost, houter⟩ := List.cons_eq_cons.mp hframes
  cases s
  cases base
  exact congrArg₂ Scopes.mk hinnermost houter

/-- What is open besides `base` begins with the innermost block. -/
theorem exists_cons (h : Above base (names :: known) s) :
    ∃ outer, s.outer = outer ++ base.frames ∧ s.innermost.BindsAll names ∧
      List.Forall₂ Frame.BindsAll known outer := by
  obtain ⟨inner, hframes, hinner⟩ := h
  cases hinner with
  | cons hframe houter =>
    obtain ⟨rfl, hrest⟩ := List.cons_eq_cons.mp hframes
    exact ⟨_, hrest, hframe, houter⟩

theorem push (h : Above base known s) : Above base ([] :: known) s.push := by
  obtain ⟨inner, hframes, hinner⟩ := h
  refine ⟨.empty :: inner, ?_, .cons nofun hinner⟩
  rw [List.cons_append, ← hframes]
  rfl

theorem pop (h : Above base (names :: known) s) : Above base known s.pop := by
  obtain ⟨outer, houter, -, hknown⟩ := h.exists_cons
  refine ⟨outer, ?_, hknown⟩
  rw [← houter]
  unfold Scopes.pop
  cases hframes : s.outer with
  | nil =>
    -- the frames of `base` are never none
    rw [hframes] at houter
    exact absurd houter.symm (List.append_ne_nil_of_right_ne_nil _ (List.cons_ne_nil _ _))
  | cons frame frames => rfl

theorem bind (h : Above base (names :: known) s) (name : String) (value : α) :
    Above base ((name :: names) :: known) (s.bind name value) := by
  obtain ⟨outer, houter, hinnermost, hknown⟩ := h.exists_cons
  refine ⟨s.innermost.add name value :: outer, ?_, .cons (hinnermost.add name value) hknown⟩
  rw [List.cons_append, ← houter]
  rfl

theorem assign (h : Above base known s) {name : String} (hname : name ∈ known.flatten) (value : α) :
    Above base known (s.assign name value) := by
  obtain ⟨inner, hframes, hinner⟩ := h
  obtain ⟨inner', hassign, hinner'⟩ := exists_assignIn_append hinner hname value base.frames
  refine ⟨inner', ?_, hinner'⟩
  rw [Scopes.frames_assign, hframes, hassign]

/-- The name that a statement declares is one more. -/
theorem of_extend {t : Stmt} (h : Above base (t.extend known) s) : Above base known s := by
  cases t with
  | declare type name initial =>
    cases known with
    | nil => exact h
    | cons names known =>
      obtain ⟨inner, hframes, hinner⟩ := h
      cases hinner with
      | cons hframe houter => exact ⟨_, hframes, .cons hframe.tail houter⟩
  | _ => exact h

end Scopes.Above

/-! ### Rendering on top of others -/

/-- An expression that assigns only to names of the blocks on top leaves those below as they are. -/
theorem Expr.render_above {base values : Values} {known : List (List String)}
    (h : base.Above known values) {e : Expr} (he : e.assignsWithin known = true) :
    base.Above known (e.render values).1 := by
  induction e generalizing values with
  | absent | literal | name => exact h
  | binary op left right ihleft ihright =>
    obtain ⟨hleft, hright⟩ := Bool.and_eq_true_iff.mp he
    exact ihright (ihleft h hleft) hright
  | unary op operand ih => exact ih h he
  | group inner ih => exact ih h he
  | assign target value ih =>
    obtain ⟨htarget, hvalue⟩ := Bool.and_eq_true_iff.mp he
    exact (ih h hvalue).assign (List.contains_iff_mem.mp htarget) _

theorem renderDeclaration_above {base values : Values} {names : List String}
    {known : List (List String)} (h : base.Above (names :: known) values) (type name : String)
    {initial : Expr} (hinitial : initial.assignsWithin (names :: known) = true) :
    base.Above ((name :: names) :: known) (renderDeclaration values type name initial).1 := by
  unfold renderDeclaration
  split
  · exact h.bind name _
  · exact (Expr.render_above h hinitial).bind name _

/-- The first clause of a counting loop. -/
theorem renderInitial_above {base values : Values} {names : List String}
    {known : List (List String)} (h : base.Above (names :: known) values) {initial : Stmt}
    (hinitial : initial.assignsWithin (names :: known) = true) :
    base.Above (initial.extend (names :: known)) (renderInitial values initial).1 := by
  cases initial with
  | declare type name value =>
    rw [Stmt.assignsWithin] at hinitial
    exact renderDeclaration_above h type name hinitial
  | expression e =>
    rw [Stmt.assignsWithin] at hinitial
    exact Expr.render_above h hinitial
  | _ => exact h

/-- There is always an innermost block. -/
theorem Stmt.exists_extend (names : List String) (known : List (List String)) (s : Stmt) :
    ∃ names', s.extend (names :: known) = names' :: known := by
  cases s with
  | declare type name initial => exact ⟨name :: names, rfl⟩
  | _ => exact ⟨names, rfl⟩

mutual

/-- So does a statement, which may declare one more name in the innermost block. -/
theorem Stmt.render_above {base values : Values} {names : List String} {known : List (List String)}
    (h : base.Above (names :: known) values) (depth : Nat) (lead : Lead) :
    (s : Stmt) → s.assignsWithin (names :: known) = true →
      base.Above (s.extend (names :: known)) (s.render values depth lead).1
  | .absent, _ => by
    rw [Stmt.render]
    exact h
  | .declare type name initial, hs => by
    rw [Stmt.assignsWithin] at hs
    rw [Stmt.render]
    exact renderDeclaration_above h type name hs
  | .print value, hs | .expression value, hs => by
    rw [Stmt.assignsWithin] at hs
    rw [Stmt.render]
    exact Expr.render_above h hs
  | .block body, hs => by
    rw [Stmt.assignsWithin] at hs
    rw [Stmt.render]
    obtain ⟨names', hbody⟩ := Stmt.renderAll_above h.push (depth + 1) body hs
    exact hbody.pop
  | .ifElse condition consequent alternative, hs => by
    rw [Stmt.assignsWithin] at hs
    simp only [Bool.and_eq_true] at hs
    obtain ⟨⟨hcondition, hconsequent⟩, halternative⟩ := hs
    rw [Stmt.render_ifElse]
    have htest := Expr.render_above h hcondition
    -- a declaration is no arm of a parsed conditional, and what it would declare is left out here
    have hfirst := fun depth lead =>
      (Stmt.render_above htest depth lead consequent hconsequent).of_extend
    exact (Stmt.render_above (hfirst _ _) _ _ alternative halternative).of_extend
  | .whileLoop condition body, hs => by
    rw [Stmt.assignsWithin] at hs
    obtain ⟨hcondition, hbody⟩ := Bool.and_eq_true_iff.mp hs
    rw [Stmt.render]
    exact (Stmt.render_above (Expr.render_above h hcondition) _ _ body hbody).of_extend
  | .forLoop initial condition increment body, hs => by
    rw [Stmt.assignsWithin] at hs
    simp only [Bool.and_eq_true] at hs
    obtain ⟨⟨⟨hinitial, hcondition⟩, hincrement⟩, hbody⟩ := hs
    rw [Stmt.render]
    simp only [Expr.renderOptional_values]
    have hbefore := renderInitial_above h.push hinitial
    obtain ⟨inside, hinside⟩ := Stmt.exists_extend [] (names :: known) initial
    rw [hinside] at hcondition hincrement hbody hbefore
    have hstep := Expr.render_above (Expr.render_above hbefore hcondition) hincrement
    exact (Stmt.render_above hstep _ _ body hbody).of_extend.pop

/-- So does a sequence of statements, which may declare several. -/
theorem Stmt.renderAll_above {base values : Values} {names : List String}
    {known : List (List String)} (h : base.Above (names :: known) values) (depth : Nat) :
    (ss : List Stmt) → Stmt.allAssignWithin (names :: known) ss = true →
      ∃ names', base.Above (names' :: known) (Stmt.renderAll values depth ss).1
  | [], _ => by
    rw [Stmt.renderAll]
    exact ⟨names, h⟩
  | s :: ss, hss => by
    rw [Stmt.allAssignWithin] at hss
    obtain ⟨hs, hss⟩ := Bool.and_eq_true_iff.mp hss
    rw [Stmt.renderAll]
    have hfirst := Stmt.render_above h depth .plain s hs
    obtain ⟨names', hnames'⟩ := s.exists_extend names known
    rw [hnames'] at hss hfirst
    exact Stmt.renderAll_above hfirst depth ss hss

end

/-! ### Behind a block -/

/-- Behind a block that assigns only to its own names all values are as they were in front. -/
theorem Stmt.render_block_values (values : Values) (depth : Nat) (lead : Lead) {body : List Stmt}
    (h : Stmt.allAssignWithin [[]] body = true) :
    ((Stmt.block body).render values depth lead).1 = values := by
  rw [Stmt.render]
  obtain ⟨names, hbody⟩ := Stmt.renderAll_above (Scopes.Above.refl values).push (depth + 1) body h
  exact hbody.pop.eq_base

theorem Stmt.renderAll_append (values : Values) (depth : Nat) (ss ss' : List Stmt) :
    let first := Stmt.renderAll values depth ss
    let second := Stmt.renderAll first.1 depth ss'
    Stmt.renderAll values depth (ss ++ ss') = (second.1, first.2 ++ second.2) := by
  induction ss generalizing values with
  | nil => simp only [Stmt.renderAll, List.nil_append]
  | cons s ss ih => simp only [Stmt.renderAll, List.cons_append, ih, List.append_assoc]

/-- A block that assigns only to names which it has declared itself leaves no trace: its lines, from
one brace to the other, stand between those of what is in front of it and of what is behind, and
without the block these would be the same lines. -/
theorem block_leaves_no_trace (before after : Program) {body : List Stmt}
    (h : Stmt.allAssignWithin [[]] body = true) :
    ∃ inside rest,
      let own := "\x7b" :: inside ++ ["\x7d"]
      renderLines (before ++ [.block body]) = renderLines before ++ own ∧
      renderLines (before ++ after) = renderLines before ++ rest ∧
      renderLines (before ++ [.block body] ++ after) = renderLines before ++ own ++ rest := by
  let values := (Stmt.renderAll .initial 0 before).1
  let inside := (Stmt.renderAll values.push 1 body).2
  have hvalues := Stmt.render_block_values values 0 .plain h
  have hlines : ((Stmt.block body).render values 0 .plain).2 = "\x7b" :: inside ++ ["\x7d"] := by
    rw [Stmt.render]
    rfl
  have hblock : Stmt.renderAll values 0 [.block body] = (values, "\x7b" :: inside ++ ["\x7d"]) := by
    simp only [Stmt.renderAll, List.append_nil, hvalues, hlines]
  refine ⟨inside, (Stmt.renderAll values 0 after).2, ?_, ?_, ?_⟩
  · unfold renderLines
    rw [Stmt.renderAll_append, hblock]
  · unfold renderLines
    rw [Stmt.renderAll_append]
  · unfold renderLines
    rw [List.append_assoc, Stmt.renderAll_append, Stmt.renderAll_append, hblock]
    exact (List.append_assoc _ _ _).symm

/-- The block assigns to its own `a`, also from within the loop in it, and the outer `a`, which
gives the inner one its first value, keeps its own. -/
theorem shadowed_value_behind_block :
    let before : Program := [.declare "tibuok" "a" (.literal .int "1")]
    let loop : Stmt :=
      .forLoop (.declare "tibuok" "i" (.name "a")) (.binary .less (.name "i") (.name "a"))
        (.assign "a" (.name "i"))
        (.block [.expression (.assign "i" (.unary .negate (.literal .int "3")))])
    let body : List Stmt :=
      [.declare "tibuok" "a" (.unary .negate (.name "a")),
        .expression (.assign "a" (.literal .int "2")), loop]
    let after : Program := [.print (.name "a")]
    let text := ("tibuok a = 1; \x7b tibuok a = -a; a = 2; " ++
      "alang (tibuok i = a; i < a; a = i) \x7b i = -3; \x7d \x7d imprenta_gawas a;").toList
    parse (tokenize text) = .ok (before ++ [.block body] ++ after) ∧
      Stmt.allAssignWithin [[]] body = true ∧
      renderLines (before ++ [.block body] ++ after) =
        ["tibuok a = 1;", "\x7b", "    tibuok a = -1;", "    a = 2;",
          "    for (tibuok i = 2; (2 < 2); a = 2) \x7b", "        i = -3;", "    \x7d", "\x7d",
          "print(1);"] := by
  intro before loop body after text
  have hparse : parse (tokenize text) = .ok (before ++ [.block body] ++ after) := by
    refine parse_of_spelled ?_ ?_
    · simp only [before, body, loop, after, List.cons_append, List.nil_append, WellFormed,
        Stmt.AllWellFormed, Stmt.WellFormed, reduceCtorEq, false_or]
      decide
    · simp only [text]
      decide +kernel
  have hown : Stmt.allAssignWithin [[]] body = true := by decide
  obtain ⟨inside, rest, hblock, hwithout, hlines⟩ := block_leaves_no_trace before after hown
  have hrest : rest = ["print(1);"] :=
    List.append_cancel_left (hwithout.symm.trans (by decide +kernel))
  refine ⟨hparse, hown, ?_⟩
  rw [hlines, ← hblock, hrest]
  decide +kernel

/-! ### Behind a chain of assignments -/

/-- The assignment of a value to some names, the first of which gets it last. -/
def Expr.chain (targets : List String) (value : Expr) : Expr := targets.foldr Expr.assign value

/-- The text of such an assignment. -/
def chainText (targets : List String) (text : String) : String :=
  targets.foldr (fun target rest => target ++ " = " ++ rest) text

theorem Expr.render_chain (values : Values) (targets : List String) (value : Expr) :
    ((Expr.chain targets value).render values).2 = chainText targets (value.render values).2 := by
  induction targets with
  | nil => rfl
  | cons target targets ih => exact congrArg (target ++ " = " ++ ·) ih

/-- Every name has the text of what stands behind its own equals sign. -/
theorem Expr.lookup_chain (values : Values) {targets : List String} (hdistinct : targets.Nodup)
    (value : Expr) {k : Nat} {target : String} (hk : targets[k]? = some target) :
    ((Expr.chain targets value).render values).1.lookup target =
      some (chainText (targets.drop (k + 1)) (value.render values).2) := by
  induction targets generalizing k with
  | nil => cases hk
  | cons first targets ih =>
    have hassign : ((Expr.chain (first :: targets) value).render values).1 =
        ((Expr.chain targets value).render values).1.assign first
          ((Expr.chain targets value).render values).2 := rfl
    obtain ⟨hfirst, hdistinct⟩ := List.nodup_cons.mp hdistinct
    rw [hassign, Scopes.lookup_assign]
    cases k with
    | zero =>
      obtain rfl : first = target := Option.some.inj hk
      rw [if_pos rfl, render_chain]
      rfl
    | succ k =>
      have hlater : targets[k]? = some target := hk
      -- the assignment to the first name, which is made last, changes no other
      have hother : target ≠ first := by
        rintro rfl
        exact hfirst (List.mem_of_getElem? hlater)
      rw [if_neg hother]
      exact ih hdistinct hlater

theorem length_le_chainText (targets : List String) (text : String) :
    text.length + targets.length ≤ (chainText targets text).length := by
  induction targets with
  | nil => exact Nat.le_refl _
  | cons target targets ih =>
    have hcons : chainText (target :: targets) text = target ++ " = " ++ chainText targets text :=
      rfl
    have hsign : " = ".length = 3 := rfl
    rw [hcons, String.length_append, String.length_append, List.length_cons, hsign]
    omega

theorem chainText_eq_self_iff {targets : List String} {text : String} :
    chainText targets text = text ↔ targets = [] := by
  constructor
  · intro hsame
    have hle := length_le_chainText targets text
    rw [hsame] at hle
    exact List.eq_nil_of_length_eq_zero (by omega)
  · rintro rfl
    rfl

/-- Behind a chain of assignments to distinct names each of them has the text of the rest of the
chain, from the next name on, and a name that is printed there is printed as this text.  It is the
text of the value for the last name only. -/
theorem chained_names_repeat_chain (values : Values) (depth : Nat) {targets : List String}
    (hdistinct : targets.Nodup) (value : Expr) {k : Nat} {target : String}
    (hk : targets[k]? = some target) :
    let chained := Stmt.expression (.chain targets value)
    let text := (value.render values).2
    let rest := chainText (targets.drop (k + 1)) text
    (chained.render values depth .plain).1.lookup target = some rest ∧
      (Stmt.renderAll values depth [chained, .print (.name target)]).2 =
        [indentedLine depth (chainText targets text ++ ";"),
          indentedLine depth ("print(" ++ rest ++ ");")] ∧
      (rest = text ↔ k + 1 = targets.length) := by
  intro chained text rest
  have hlookup : ((Expr.chain targets value).render values).1.lookup target = some rest :=
    Expr.lookup_chain values hdistinct value hk
  refine ⟨?_, ?_, ?_⟩
  · simp only [chained, Stmt.render]
    exact hlookup
  · simp only [chained, Stmt.renderAll, Stmt.render, Expr.render, Expr.render_chain, hlookup,
      Option.getD_some]
    rfl
  · obtain ⟨hlt, -⟩ := List.getElem?_eq_some_iff.mp hk
    rw [chainText_eq_self_iff, List.drop_eq_nil_iff]
    omega

/-- Behind `x = y = z = -x` the names `y`, of an outer block, and `z` are printed differently. -/
theorem chained_names_across_blocks :
    let outer : Values := (Scopes.initial.bind "x" "7").bind "y" "undefined"
    let values := (outer.push.bind "x" "8").bind "z" "undefined"
    let chained : Stmt := .expression (.chain ["x", "y", "z"] (.unary .negate (.name "x")))
    (Stmt.renderAll values 1 [chained, .print (.name "y")]).2 =
        ["    x = y = z = -8;", "    print(z = -8);"] ∧
      (Stmt.renderAll values 1 [chained, .print (.name "z")]).2 =
        ["    x = y = z = -8;", "    print(-8);"] := by
  intro outer values chained
  have hdistinct : ["x", "y", "z"].Nodup := by decide
  obtain ⟨-, hsecond, -⟩ :=
    chained_names_repeat_chain values 1 hdistinct (.unary .negate (.name "x")) (k := 1) rfl
  obtain ⟨-, hthird, -⟩ :=
    chained_names_repeat_chain values 1 hdistinct (.unary .negate (.name "x")) (k := 2) rfl
  exact ⟨hsecond.trans (by decide), hthird.trans (by decide)⟩

/-- Behind `x = y = 1` the name `x` is printed as an assignment to `y`, not as the value `1`. -/
theorem chained_value_not_shared :
    let p : Program :=
      [.declare "tibuok" "x" .absent, .declare "tibuok" "y" .absent,
        .expression (.chain ["x", "y"] (.literal .int "1")), .print (.name "x")]
    let after := (Stmt.renderAll .initial 0 p).1
    parse (tokenize "tibuok x; tibuok y; x = y = 1; imprenta_gawas x;".toList) = .ok p ∧
      renderLines p = ["tibuok x;", "tibuok y;", "x = y = 1;", "print(y = 1);"] ∧
      after.lookup "x" = some "y = 1" ∧ after.lookup "y" = some "1" := by
  intro p after
  refine ⟨parse_of_spelled ?_ ?_, ?_, ?_, ?_⟩
  · simp only [p, WellFormed, Stmt.AllWellFormed, Stmt.WellFormed]
    decide
  all_goals decide +kernel

end Binisaya
