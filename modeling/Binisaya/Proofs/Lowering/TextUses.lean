import Binisaya.Proofs.Grammar.Literals
import Binisaya.Proofs.Lowering.Availability

/-!
# Where the addresses of texts are used

A text that is written in a program gets a place of its own in the module, and the value of the
literal is its address.  `textUses p` tells where the code of a program uses such values, each with
the number of texts that are written before it; only the sites, which depend on the other code, are
taken from lowering.  Main statement: the module uses the addresses of texts there and nowhere else.
-/

namespace Binisaya

namespace Llvm

/-- Where an operand is used: in an instruction, or at the end of a block. -/
inductive Site where
  | instr (place : Place)
  | ending (block : Nat)
  deriving DecidableEq, Repr

/-- The operands that are used at a site. -/
def Module.operandsAt (m : Module) : Site → List Operand
  | .instr place => ((m.instr? place).map Instr.operands).getD []
  | .ending block => (((m.blocks[block]?).bind Block.terminator).map Terminator.operands).getD []

/-- The use of the address of a text at a site. -/
structure TextUse where
  site : Site
  index : Nat
  size : Nat
  deriving DecidableEq, Repr

/-- The use of an operand at a site, if it is the address of a text. -/
def Operand.textUse? (site : Site) : Operand → Option TextUse
  | .text index size => some ⟨site, index, size⟩
  | _ => none

/-- An operand, if it is the address of a text. -/
def Operand.address? : Operand → Option Operand
  | .text index size => some (.text index size)
  | _ => none

/-- The uses of addresses of texts among the operands at a site. -/
def textUsesAt (site : Site) (operands : List Operand) : List TextUse :=
  operands.filterMap (Operand.textUse? site)

theorem mem_textUsesAt {site : Site} {operands : List Operand} {u : TextUse} :
    u ∈ textUsesAt site operands ↔ u.site = site ∧ .text u.index u.size ∈ operands := by
  simp only [textUsesAt, List.mem_filterMap]
  constructor
  · rintro ⟨o, ho, huse⟩
    cases o with
    | text index size =>
      cases huse
      exact ⟨rfl, ho⟩
    | _ => cases huse
  · rintro ⟨rfl, ho⟩
    exact ⟨_, ho, rfl⟩

theorem textUsesAt_address? (site : Site) (o : Operand) :
    textUsesAt site o.address?.toList = textUsesAt site [o] := by
  cases o <;> rfl

theorem textUsesAt_of_address? {site : Site} {operands : List Operand}
    (h : ∀ o ∈ operands, o.address? = none) : textUsesAt site operands = [] := by
  refine List.filterMap_eq_nil_iff.mpr fun o ho => ?_
  have haddress := h o ho
  cases o with
  | text index size => cases haddress
  | _ => rfl

end Llvm

open Llvm

namespace Lowering

/-- What there is to say about the state behind some steps, if they succeed. -/
def along {α β : Type} (f : Lower α) (b : Builder) (k : α → Builder → List β) : List β :=
  match f b with
  | .ok (a, b') => k a b'
  | .error _ => []

theorem along_of_ok {α β : Type} {f : Lower α} {b b' : Builder} {a : α} (h : f b = .ok (a, b'))
    (k : α → Builder → List β) : along f b k = k a b' := by
  rw [along, h]

/-- The site of the next instruction. -/
def Builder.nextSite (b : Builder) : Site := .instr (b.endOf b.current)

/-- The end of the block that is being filled. -/
def Builder.endSite (b : Builder) : Site := .ending b.current

/-- Adds the blocks of a loop, and goes on in the first of them. -/
def startLoop (condition : Role) (others : List Role) : Lower Unit := do
  let condBlock ← addBlock condition
  others.forM fun role => do
    let _ ← addBlock role
  leave .unlessEnded (.jump condBlock) condBlock

end Lowering

open Lowering

/-- The address that is the value of an expression, where `n` texts are written before it.  The value
of an assignment is the value that is assigned; all other values are no addresses of texts or are
loaded. -/
def Expr.address? (n : Nat) : Expr → Option Operand
  | .literal .string text => some (.text n (textSize text))
  | .group inner => inner.address? n
  | .assign _ value => value.address? n
  | _ => none

/-- The use of the value of an expression, at a site behind its code, if it is the address of a
text. -/
def Expr.valueUses (site : Builder → Site) (env : Environment) (n : Nat) (b : Builder) (e : Expr) :
    List TextUse :=
  along (e.lower env) b fun _ b' => textUsesAt (site b') (e.address? n).toList

/-- The uses of addresses of texts in the code of an expression that begins in state `b`, where `n`
texts are written before it. -/
def Expr.textUses (env : Environment) (n : Nat) (b : Builder) : Expr → List TextUse
  | .assign _ value => value.textUses env n b ++ value.valueUses Builder.nextSite env n b
  | .group inner => inner.textUses env n b
  | .unary _ operand => operand.textUses env n b
  | .binary _ left right =>
    left.textUses env n b ++ along (left.lower env) b fun _ mid =>
      right.textUses env (n + (left.literals .string).length) mid
  | _ => []

/-- The uses in the code of an expression and the use of its value. -/
def Expr.textUsesWith (site : Builder → Site) (env : Environment) (n : Nat) (b : Builder)
    (e : Expr) : List TextUse :=
  e.textUses env n b ++ e.valueUses site env n b

mutual

/-- The uses of addresses of texts in the code of a statement. -/
def Stmt.textUses (env : Environment) (n : Nat) (b : Builder) : Stmt → List TextUse
  | .absent => []
  | .declare type _ initial =>
    along (reserve (Ty.ofWord type).valueType) b fun _ mid =>
      initial.textUsesWith Builder.nextSite env n mid
  | .print value => value.textUsesWith Builder.nextSite env n b
  | .expression value => value.textUses env n b
  | .block body => Stmt.allTextUses env n b body
  | .ifElse condition consequent alternative =>
    condition.textUsesWith Builder.endSite env n b ++
      along (openArms env condition (!alternative.isAbsent)) b fun arms b₁ =>
        let n₁ := n + (condition.literals .string).length
        consequent.textUses env n₁ b₁ ++
          along (consequent.lower env) b₁ fun between b₂ =>
            along (leave .unlessEnded (.jump arms.endBlock) arms.elseBlock) b₂ fun _ b₃ =>
              alternative.textUses between (n₁ + (consequent.literals .string).length) b₃
  | .whileLoop condition body =>
    along (startLoop .whileCond [.whileBody, .whileEnd]) b
        (fun _ mid => condition.textUsesWith Builder.endSite env n mid) ++
      along (openWhile env condition) b fun _ b₁ =>
        body.textUses env (n + (condition.literals .string).length) b₁
  | .forLoop initial condition increment body =>
    initial.textUses env n b ++
      along (if initial.isAbsent then pure env else initial.lower env) b fun inner b₁ =>
        let n₁ := n + (initial.literals .string).length
        along (startLoop .forCond [.forBody, .forInc, .forEnd]) b₁
            (fun _ mid => condition.textUsesWith Builder.endSite inner n₁ mid) ++
          along (openFor inner condition) b₁ fun rounds b₂ =>
            let n₂ := n₁ + (condition.literals .string).length
            body.textUses inner n₂ b₂ ++
              along (body.lower inner) b₂ fun after b₃ =>
                along (leave .unlessEnded (.jump rounds.incBlock) rounds.incBlock) b₃ fun _ b₄ =>
                  increment.textUses after (n₂ + (body.literals .string).length) b₄

/-- The uses of addresses of texts in the code of a sequence of statements. -/
def Stmt.allTextUses (env : Environment) (n : Nat) (b : Builder) : List Stmt → List TextUse
  | [] => []
  | s :: ss =>
    s.textUses env n b ++ along (s.lower env) b fun after b₁ =>
      Stmt.allTextUses after (n + (s.literals .string).length) b₁ ss

end

/-- The uses of addresses of texts in the code of a program. -/
def textUses (p : Program) : List TextUse := Stmt.allTextUses [] 0 .initial p

/-! ### The texts that are used -/

theorem Expr.exists_literal_of_address? {n : Nat} {e : Expr} {o : Operand}
    (h : e.address? n = some o) :
    ∃ text, e.literals .string = [text] ∧ o = .text n (textSize text) := by
  induction e with
  | literal kind text =>
    cases kind with
    | string =>
      cases h
      exact ⟨text, rfl, rfl⟩
    | _ => cases h
  | group inner ih => exact ih h
  | assign target value ih => exact ih h
  | _ => cases h

/-- All uses are of texts in a list of which `n` is the first number. -/
def Numbered (n : Nat) (texts : List String) (uses : List TextUse) : Prop :=
  ∀ u ∈ uses, ∃ i text, u.index = n + i ∧ texts[i]? = some text ∧ u.size = textSize text

namespace Numbered

variable {n : Nat} {texts texts' : List String} {uses uses' : List TextUse}

theorem nil : Numbered n texts [] := nofun

theorem append (h : Numbered n texts uses) (h' : Numbered (n + texts.length) texts' uses') :
    Numbered n (texts ++ texts') (uses ++ uses') := by
  intro u hu
  rcases List.mem_append.mp hu with hu | hu
  · obtain ⟨i, text, hindex, htext, hsize⟩ := h u hu
    have hi := (List.getElem?_eq_some_iff.mp htext).1
    exact ⟨i, text, hindex, by rwa [List.getElem?_append_left hi], hsize⟩
  · obtain ⟨i, text, hindex, htext, hsize⟩ := h' u hu
    refine ⟨texts.length + i, text, by omega, ?_, hsize⟩
    rwa [List.getElem?_append_right (Nat.le_add_right _ _), Nat.add_sub_cancel_left]

theorem both (h : Numbered n texts uses) (h' : Numbered n texts uses') :
    Numbered n texts (uses ++ uses') := by
  intro u hu
  exact (List.mem_append.mp hu).elim (h u) (h' u)

theorem along {α : Type} {f : Lower α} {b : Builder} {k : α → Builder → List TextUse}
    (h : ∀ a b', Numbered n texts (k a b')) : Numbered n texts (Lowering.along f b k) := by
  unfold Lowering.along
  split
  · exact h _ _
  · exact nil

theorem value (site : Site) (n : Nat) (e : Expr) :
    Numbered n (e.literals .string) (textUsesAt site (e.address? n).toList) := by
  cases haddress : e.address? n with
  | none => exact nil
  | some o =>
    obtain ⟨text, htext, rfl⟩ := Expr.exists_literal_of_address? haddress
    intro u hu
    obtain rfl := List.mem_singleton.mp hu
    exact ⟨0, text, rfl, by rw [htext]; rfl, rfl⟩

end Numbered

theorem Expr.textUses_numbered (env : Environment) (n : Nat) (b : Builder) (e : Expr) :
    Numbered n (e.literals .string) (e.textUses env n b) := by
  induction e generalizing n b with
  | absent | literal | name => exact .nil
  | assign target value ih => exact (ih n b).both (.along fun _ _ => .value _ n value)
  | group inner ih => exact ih n b
  | unary op operand ih => exact ih n b
  | binary op left right ihleft ihright => exact (ihleft n b).append (.along fun _ _ => ihright _ _)

theorem Expr.textUsesWith_numbered (site : Builder → Site) (env : Environment) (n : Nat)
    (b : Builder) (e : Expr) : Numbered n (e.literals .string) (e.textUsesWith site env n b) :=
  (e.textUses_numbered env n b).both (.along fun _ _ => .value _ n e)

mutual

theorem Stmt.textUses_numbered (env : Environment) (n : Nat) (b : Builder) :
    (s : Stmt) → Numbered n (s.literals .string) (s.textUses env n b)
  | .absent => by
    rw [Stmt.textUses]
    exact .nil
  | .declare type name initial => by
    rw [Stmt.literals, Stmt.textUses]
    exact .along fun _ _ => initial.textUsesWith_numbered _ _ _ _
  | .print value => by
    rw [Stmt.literals, Stmt.textUses]
    exact value.textUsesWith_numbered _ _ _ _
  | .expression value => by
    rw [Stmt.literals, Stmt.textUses]
    exact value.textUses_numbered _ _ _
  | .block body => by
    rw [Stmt.literals, Stmt.textUses]
    exact Stmt.allTextUses_numbered env n b body
  | .ifElse condition consequent alternative => by
    rw [Stmt.literals, Stmt.textUses]
    refine (condition.textUsesWith_numbered _ _ _ _).append (.along fun arms b₁ => ?_)
    exact (Stmt.textUses_numbered _ _ _ consequent).append (.along fun between _ =>
      .along fun _ b₃ => Stmt.textUses_numbered between _ b₃ alternative)
  | .whileLoop condition body => by
    rw [Stmt.literals, Stmt.textUses]
    exact (Numbered.along fun _ _ => condition.textUsesWith_numbered _ _ _ _).append
      (.along fun _ b₁ => Stmt.textUses_numbered env _ b₁ body)
  | .forLoop initial condition increment body => by
    rw [Stmt.literals, Stmt.textUses]
    refine (Stmt.textUses_numbered env n b initial).append (.along fun inner b₁ => ?_)
    refine (Numbered.along fun _ _ => condition.textUsesWith_numbered _ _ _ _).append
      (.along fun rounds b₂ => ?_)
    exact (Stmt.textUses_numbered inner _ b₂ body).append (.along fun after _ =>
      .along fun _ b₄ => increment.textUses_numbered after _ b₄)

theorem Stmt.allTextUses_numbered (env : Environment) (n : Nat) (b : Builder) :
    (ss : List Stmt) → Numbered n (Stmt.allLiterals .string ss) (Stmt.allTextUses env n b ss)
  | [] => by
    rw [Stmt.allTextUses]
    exact .nil
  | s :: ss => by
    rw [Stmt.allLiterals, Stmt.allTextUses]
    exact (Stmt.textUses_numbered env n b s).append (.along fun after b₁ =>
      Stmt.allTextUses_numbered after _ b₁ ss)

end

namespace Lowering

/-! ### Steps -/

/-- What has been added from one state to another: texts, and uses of addresses of texts. -/
structure Puts (b : Builder) (texts : List String) (uses : List TextUse) (b' : Builder) : Prop where
  texts : b'.texts = b.texts ++ texts
  uses : ∀ u : TextUse, .text u.index u.size ∈ b'.module.operandsAt u.site ↔
    .text u.index u.size ∈ b.module.operandsAt u.site ∨ u ∈ uses

namespace Puts

variable {b b' b'' : Builder} {texts texts' : List String} {uses uses' : List TextUse}

theorem refl (b : Builder) : Puts b [] [] b := ⟨by simp, by simp⟩

theorem trans (h : Puts b texts uses b') (h' : Puts b' texts' uses' b'') :
    Puts b (texts ++ texts') (uses ++ uses') b'' where
  texts := by rw [h'.texts, h.texts, List.append_assoc]
  uses u := by rw [h'.uses, h.uses, List.mem_append, or_assoc]

/-- Steps that add nothing change nothing. -/
theorem quiet (h : Puts b texts uses b') (h' : Puts b' [] [] b'') : Puts b texts uses b'' := by
  simpa using h.trans h'

theorem length_eq (h : Puts b texts uses b') :
    b'.texts.length = b.texts.length + texts.length := by
  rw [h.texts, List.length_append]

/-- At a site where nothing was used, some operands are. -/
theorem of_site {site : Site} {operands : List Operand} (htexts : b'.texts = b.texts)
    (hfree : b.module.operandsAt site = [])
    (h : ∀ s, b'.module.operandsAt s = if s = site then operands else b.module.operandsAt s) :
    Puts b [] (textUsesAt site operands) b' := by
  refine ⟨by rw [htexts, List.append_nil], fun u => ?_⟩
  rw [h, mem_textUsesAt]
  by_cases hsite : u.site = site
  · simp [hsite, hfree]
  · simp [hsite]

theorem of_same (htexts : b'.texts = b.texts)
    (h : ∀ s, b'.module.operandsAt s = b.module.operandsAt s) : Puts b [] [] b' :=
  ⟨by rw [htexts, List.append_nil], fun u => by simp [h]⟩

end Puts

variable {b b' : Builder}

theorem instr?_endOf_eq_none (b : Builder) (n : Nat) : b.module.instr? (b.endOf n) = none := by
  refine Option.eq_none_iff_forall_not_mem.mpr fun i hi => ?_
  exact Nat.lt_irrefl _ (Builder.lt_length_of_instr? hi)

/-- An instruction is added at the end of a block. -/
theorem add_puts {n : Nat} (hn : n < b.blocks.length) (i : Instr) :
    Puts b [] (textUsesAt (.instr (b.endOf n)) i.operands)
      { b with blocks := b.blocks.modify n (Block.add i) } := by
  refine .of_site rfl ?_ fun site => ?_
  · rw [Module.operandsAt, instr?_endOf_eq_none]
    rfl
  · cases site with
    | instr place =>
      by_cases hplace : place = b.endOf n
      · rw [hplace, if_pos rfl, Module.operandsAt, Builder.module, instr?_endOf hn]
        rfl
      · rw [if_neg (by simpa using hplace), Module.operandsAt, Module.operandsAt]
        have hgrows : Grows b.module ⟨b.texts, b.blocks.modify n (Block.add i)⟩ :=
          .modify _ _ _ fun _ => List.prefix_append _ _
        have hsame : Module.instr? ⟨b.texts, b.blocks.modify n (Block.add i)⟩ place =
            b.module.instr? place := by
          refine Option.ext fun j => ⟨fun hj => ?_, fun hj => hgrows.instr? hj⟩
          exact (instr?_modify_add hj).resolve_right fun h => hplace h.1
        rw [Builder.module, hsame]
    | ending block =>
      rw [if_neg (by simp), Module.operandsAt, Module.operandsAt, Builder.module, Builder.module,
        getElem?_modify_block]
      cases b.blocks[block]? with
      | none => rfl
      | some x => by_cases hblock : n = block <;> simp [hblock, Block.add]

theorem perform_puts (hopen : b.IsOpen) {i : Instr} {u : Unit} (h : perform i b = .ok (u, b')) :
    Puts b [] (textUsesAt b.nextSite i.operands) b' := by
  cases h
  exact add_puts hopen.current_lt i

theorem emit_puts (hopen : b.IsOpen) {i : Instr} {type : ValueType} {v : Operand}
    (h : emit i type b = .ok (v, b')) :
    Puts b [] (textUsesAt b.nextSite i.operands) b' ∧ v.address? = none := by
  cases h
  exact ⟨add_puts hopen.current_lt i, rfl⟩

theorem reserve_puts (hopen : b.IsOpen) {type : ValueType} {slot : Operand}
    (h : reserve type b = .ok (slot, b')) : Puts b [] [] b' ∧ slot.address? = none := by
  cases h
  exact ⟨add_puts hopen.length_pos (.alloca type), rfl⟩

theorem addText_puts {text : String} {v : Operand} (h : addText text b = .ok (v, b')) :
    Puts b [text] [] b' ∧ v = .text b.texts.length (textSize text) := by
  cases h
  refine ⟨⟨rfl, fun u => ?_⟩, rfl⟩
  rw [List.mem_nil_iff, or_false]
  cases u.site <;> rfl

theorem bind_getElem?_concat {β : Type} (blocks : List Block) (x : Block) {f : Block → Option β}
    (hf : f x = none) (n : Nat) : ((blocks ++ [x])[n]?).bind f = (blocks[n]?).bind f := by
  by_cases hn : n < blocks.length
  · rw [List.getElem?_append_left hn]
  · rw [List.getElem?_append_right (Nat.le_of_not_lt hn), List.getElem?_singleton,
      List.getElem?_eq_none (Nat.le_of_not_lt hn)]
    split
    · exact hf
    · rfl

theorem addBlock_puts {role : Role} {n : Nat} (h : addBlock role b = .ok (n, b')) :
    Puts b [] [] b' := by
  cases h
  refine .of_same rfl fun site => ?_
  cases site with
  | instr place =>
    simp only [Module.operandsAt, Module.instr?, Builder.module]
    rw [bind_getElem?_concat _ _ rfl]
  | ending block =>
    simp only [Module.operandsAt, Builder.module]
    rw [bind_getElem?_concat _ _ rfl]

/-- The block that is being filled ends. -/
theorem finish_puts (hopen : b.IsOpen) {g : Guard} {t : Terminator} {u : Unit}
    (h : finish g t b = .ok (u, b')) : Puts b [] (textUsesAt b.endSite t.operands) b' := by
  cases h
  obtain ⟨x, hx, hend⟩ := hopen
  unfold Builder.endSite
  refine .of_site rfl ?_ fun site => ?_
  · simp [Module.operandsAt, Builder.module, hx, hend]
  · cases site with
    | instr place =>
      rw [if_neg (by simp)]
      simp only [Module.operandsAt, Module.instr?, Builder.module, getElem?_modify_block]
      cases b.blocks[place.block]? with
      | none => rfl
      | some y => by_cases hblock : b.current = place.block <;> simp [hblock]
    | ending block =>
      by_cases hblock : block = b.current
      · subst hblock
        simp [Module.operandsAt, Builder.module, hx, Block.finish_of_open hend]
      · rw [if_neg (by simpa using hblock)]
        simp only [Module.operandsAt, Builder.module, getElem?_modify_block]
        cases b.blocks[block]? with
        | none => rfl
        | some y => simp [Ne.symm hblock]

theorem leave_puts (hopen : b.IsOpen) {g : Guard} {t : Terminator} {next : Nat} {u : Unit}
    (h : leave g t next b = .ok (u, b')) : Puts b [] (textUsesAt b.endSite t.operands) b' := by
  obtain ⟨_, mid, hfinish, hnext⟩ := Lower.bind_eq_ok h
  cases hnext
  obtain ⟨htexts, huses⟩ := finish_puts hopen hfinish
  exact ⟨htexts, fun u => by rw [← huses]; cases u.site <;> rfl⟩

/-! ### Code for expressions -/

/-- What is known of a value: the address of a text that it is, if it is one. -/
structure Typed.Holds (v : Typed) (a : Option Operand) : Prop where
  address : v.operand.address? = a
  type : a.isSome = true → v.type = .string

theorem Typed.Holds.eq_none {v : Typed} {a : Option Operand} (h : v.Holds a)
    (htype : v.type ≠ .string) : a = none := by
  cases a with
  | none => rfl
  | some o => exact absurd (h.type rfl) htype

theorem Typed.Holds.address_eq_none {v : Typed} {a : Option Operand} (h : v.Holds a)
    (htype : v.type ≠ .string) : v.operand.address? = none :=
  h.address.trans (h.eq_none htype)

/-- Steps that add no text and use no address of one. -/
def Quiet {α : Type} (f : Lower α) (done : α → Prop) : Prop :=
  ∀ b a b', b.IsOpen → f b = .ok (a, b') → b'.IsOpen ∧ Puts b [] [] b' ∧ done a

namespace Quiet

variable {α β : Type}

theorem pure {a : α} {done : α → Prop} (h : done a) : Quiet (Pure.pure a) done := by
  intro b _ b' hopen hrun
  cases hrun
  exact ⟨hopen, .refl b, h⟩

theorem stop {e : LoweringFailure} {done : α → Prop} : Quiet (throw e) done := by
  intro b _ b' _ hrun
  cases hrun

theorem bind {f : Lower α} {g : α → Lower β} {first : α → Prop} {second : β → Prop}
    (hf : Quiet f first) (hg : ∀ a, first a → Quiet (g a) second) : Quiet (f >>= g) second := by
  intro b c b' hopen hrun
  obtain ⟨a, mid, hfirst, hsecond⟩ := Lower.bind_eq_ok hrun
  obtain ⟨hopen₁, hputs₁, ha⟩ := hf b a mid hopen hfirst
  obtain ⟨hopen₂, hputs₂, hc⟩ := hg a ha mid c b' hopen₁ hsecond
  exact ⟨hopen₂, hputs₁.trans hputs₂, hc⟩

theorem emit {i : Instr} (type : ValueType) (h : ∀ o ∈ i.operands, o.address? = none) :
    Quiet (Lowering.emit i type) fun v => v.address? = none := by
  intro b v b' hopen hrun
  obtain ⟨hputs, hv⟩ := emit_puts hopen hrun
  rw [textUsesAt_of_address? h] at hputs
  exact ⟨(emit_straight i type b v b' hopen hrun).1.isOpen, hputs, hv⟩

theorem perform {i : Instr} (h : ∀ o ∈ i.operands, o.address? = none) :
    Quiet (Lowering.perform i) fun _ => True := by
  intro b u b' hopen hrun
  have hputs := perform_puts hopen hrun
  rw [textUsesAt_of_address? h] at hputs
  exact ⟨(perform_straight i b u b' hopen hrun).1.isOpen, hputs, trivial⟩

end Quiet

theorem widen_quiet {v : Typed} {a : Option Operand} (hv : v.Holds a) (target : Ty) :
    Quiet (widen v target) fun w => w.address? = a := by
  have hconvert : ∀ (op : Conversion) (type : ValueType), v.type ≠ .string →
      Quiet (emit (.convert op v.operand type) type) fun w => w.address? = a := by
    intro op type htype
    rw [hv.eq_none htype]
    exact .emit _ (by simpa [Instr.operands] using hv.address_eq_none htype)
  unfold widen
  split
  · next htype => exact hconvert _ _ (by simp [htype])
  · next htype => exact hconvert _ _ (by simp [htype])
  · next htype => exact hconvert _ _ (by simp [htype])
  · exact .pure hv.address

theorem compute_quiet (op : Operation) {left right : Operand} (type : Ty)
    (hleft : left.address? = none) (hright : right.address? = none) :
    Quiet (compute op left right type) fun v => v.Holds none :=
  (Quiet.emit _ (by simp [Instr.operands, hleft, hright])).bind fun _ hv => .pure ⟨hv, nofun⟩

theorem unary_quiet (op : UnaryOp) {v : Typed} {a : Option Operand} (hv : v.Holds a) :
    Quiet (unary op v) fun w => w.Holds none := by
  unfold unary
  split
  · next htype => exact compute_quiet _ _ (hv.address_eq_none (by simp [htype])) rfl
  · next htype => exact compute_quiet _ _ rfl (hv.address_eq_none (by simp [htype]))
  · next htype => exact compute_quiet _ _ rfl (hv.address_eq_none (by simp [htype]))
  · exact .stop

theorem arithmetic_quiet (op : BinaryOp) {left right : Typed} {a c : Option Operand}
    (hleft : left.Holds a) (hright : right.Holds c) :
    Quiet (arithmetic op left right) fun w => w.Holds none := by
  unfold arithmetic
  split
  · exact .stop
  · next heq =>
    split
    · next hoperation =>
      have htype : left.type ≠ .string := by
        intro h
        rw [h] at hoperation
        cases hoperation
      have hright' := hright.address_eq_none (Decidable.not_not.mp heq ▸ htype)
      exact compute_quiet _ _ (hleft.address_eq_none htype) hright'
    · exact .stop

theorem test_quiet {i : Operand → Operand → Instr} (hi : Instr.IsTest i) {l r : Operand}
    (hl : l.address? = none) (hr : r.address? = none) :
    Quiet (do let v ← emit (i l r) .i1; pure (⟨v, .bool⟩ : Typed)) fun w => w.Holds none :=
  (Quiet.emit _ (by simp [hi.operands, hl, hr])).bind fun _ hv => .pure ⟨hv, nofun⟩

theorem widenedTest_quiet {i : Operand → Operand → Instr} (hi : Instr.IsTest i) (target : Ty)
    {left right : Typed} (hleft : left.Holds none) (hright : right.Holds none) :
    Quiet (do
      let l ← widen left target
      let r ← widen right target
      let v ← emit (i l r) .i1
      pure (⟨v, .bool⟩ : Typed)) fun w => w.Holds none :=
  (widen_quiet hleft target).bind fun _ hl => (widen_quiet hright target).bind fun _ hr =>
    test_quiet hi hl hr

theorem ne_string_of_isNumeric {t : Ty} (h : t.isNumeric = true) : t ≠ .string := by
  rintro rfl
  cases h

theorem compare_quiet (how : Comparison) {left right : Typed} {a c : Option Operand}
    (hleft : left.Holds a) (hright : right.Holds c) :
    Quiet (compare how left right) fun w => w.Holds none := by
  have hicmp : Instr.IsTest (.icmp how) :=
    ⟨fun _ _ => rfl, fun _ _ => rfl, fun _ _ => rfl, fun _ _ => rfl⟩
  have hfcmp : Instr.IsTest (.fcmp how) :=
    ⟨fun _ _ => rfl, fun _ _ => rfl, fun _ _ => rfl, fun _ _ => rfl⟩
  have hnumeric : left.type.isNumeric = true ∧ right.type.isNumeric = true →
      left.Holds none ∧ right.Holds none := by
    rintro ⟨hl, hr⟩
    exact ⟨hleft.eq_none (ne_string_of_isNumeric hl) ▸ hleft,
      hright.eq_none (ne_string_of_isNumeric hr) ▸ hright⟩
  unfold compare
  split
  · split
    · next h => exact widenedTest_quiet hfcmp .float (hnumeric h).1 (hnumeric h).2
    · exact .stop
  · split
    · exact .stop
    · next hstring =>
      rw [not_or] at hstring
      split
      · exact test_quiet hicmp (hleft.address_eq_none hstring.1) (hright.address_eq_none hstring.2)
      · split
        · next h => exact widenedTest_quiet hicmp .int (hnumeric h).1 (hnumeric h).2
        · exact .stop

theorem binary_quiet (op : BinaryOp) {left right : Typed} {a c : Option Operand}
    (hleft : left.Holds a) (hright : right.Holds c) :
    Quiet (binary op left right) fun w => w.Holds none := by
  unfold binary
  split
  · exact compare_quiet _ hleft hright
  · split
    · exact arithmetic_quiet _ hleft hright
    · split
      · next hl hr _ _ =>
        exact compute_quiet _ _ (hleft.address_eq_none (by simp [hl]))
          (hright.address_eq_none (by simp [hr]))
      · next hl hr _ _ =>
        exact compute_quiet _ _ (hleft.address_eq_none (by simp [hl]))
          (hright.address_eq_none (by simp [hr]))
      · exact .stop

/-- All variables have slots of their types, which are no texts. -/
def Environment.Slotted (env : Environment) : Prop :=
  ∀ e ∈ env, e.2.slot.address? = none ∧ e.2.slot.type = .pointer e.2.type.valueType

theorem resolve_slotted {env : Environment} (henv : env.Slotted) {name : String} {v : Variable}
    (h : resolve env name b = .ok (v, b')) :
    b' = b ∧ v.slot.address? = none ∧ v.slot.type = .pointer v.type.valueType := by
  unfold resolve at h
  cases hlookup : env.lookup name with
  | none =>
    rw [hlookup] at h
    cases h
  | some x =>
    rw [hlookup] at h
    cases h
    obtain ⟨newer, older, rfl, -⟩ := List.lookup_eq_some_iff.mp hlookup
    exact ⟨rfl, henv (name, v) (by simp)⟩

theorem literal_quiet {kind : LiteralKind} (hkind : kind ≠ .string) (text : String) :
    Quiet (literal kind text) fun v => v.Holds none := by
  have hplain : ∀ {o : Operand} (t : Ty), o.address? = none →
      Quiet (pure (⟨o, t⟩ : Typed)) fun v => v.Holds none := fun t ho => .pure ⟨ho, nofun⟩
  cases kind with
  | int =>
    unfold literal
    cases readInt 32 text with
    | ok n => exact hplain _ rfl
    | error reason => exact .stop
  | float =>
    unfold literal
    cases readDouble text with
    | ok x => exact hplain _ rfl
    | error reason => exact .stop
  | bool => exact hplain _ rfl
  | string => exact absurd rfl hkind
  | other => exact .stop

theorem eq_string_of_valueType {t : Ty} (h : t.valueType = .text) : t = .string := by
  cases t <;> first | rfl | cases h

theorem store_eq_ok {value slot : Operand} {u : Unit} (h : store value slot b = .ok (u, b')) :
    slot.type = .pointer value.type ∧ perform (.store value slot) b = .ok (u, b') := by
  unfold store at h
  split at h
  · next htype => exact ⟨htype, h⟩
  · cases h

/-- The address of a text is stored by the next instruction: it is not widened. -/
theorem store_widened_puts (hopen : b.IsOpen) {v : Typed} {a : Option Operand} (hv : v.Holds a)
    {target : Ty} {slot w : Operand} (hslot : slot.address? = none) {mid : Builder} {u : Unit}
    (hwiden : widen v target b = .ok (w, mid)) (hstore : store w slot mid = .ok (u, b')) :
    Puts b [] (textUsesAt b.nextSite a.toList) b' ∧ w.address? = a ∧
      slot.type = .pointer w.type := by
  obtain ⟨hopen₁, hputs₁, hw⟩ := widen_quiet hv target b w mid hopen hwiden
  obtain ⟨htype, hperform⟩ := store_eq_ok hstore
  refine ⟨?_, hw, htype⟩
  cases a with
  | none =>
    have hquiet : Quiet (perform (.store w slot)) fun _ => True :=
      .perform (by simp [Instr.operands, hw, hslot])
    exact hputs₁.trans (hquiet mid u b' hopen₁ hperform).2.1
  | some o =>
    have hsame : widen v target = pure v.operand := by
      unfold widen
      rw [hv.type rfl]
    rw [hsame] at hwiden
    cases hwiden
    have huses : textUsesAt b.nextSite (Instr.store v.operand slot).operands =
        textUsesAt b.nextSite (some o).toList := by
      rw [← hw, textUsesAt_address?]
      have hempty : textUsesAt b.nextSite [slot] = [] :=
        textUsesAt_of_address? (by simpa using hslot)
      calc textUsesAt b.nextSite ([v.operand] ++ [slot])
        _ = textUsesAt b.nextSite [v.operand] ++ textUsesAt b.nextSite [slot] :=
          List.filterMap_append
        _ = textUsesAt b.nextSite [v.operand] := by rw [hempty, List.append_nil]
    rw [← huses]
    exact perform_puts hopen hperform

theorem Expr.textUsesWith_of_lower {env : Environment} {e : Expr} {v : Typed}
    (h : e.lower env b = .ok (v, b')) (site : Builder → Site) (n : Nat) :
    e.textUsesWith site env n b =
      e.textUses env n b ++ textUsesAt (site b') (e.address? n).toList := by
  rw [Expr.textUsesWith, Expr.valueUses, along_of_ok h]

/-- The code of an expression adds the texts that are written in it, and the value of one is its
address. -/
theorem lower_puts {env : Environment} (henv : env.Slotted) {e : Expr} {v : Typed}
    (hopen : b.IsOpen) (h : e.lower env b = .ok (v, b')) :
    Puts b (e.literals .string) (e.textUses env b.texts.length b) b' ∧
      v.Holds (e.address? b.texts.length) := by
  induction e generalizing b b' v with
  | absent => cases h
  | literal kind text =>
    cases kind with
    | string =>
      obtain ⟨address, mid, htext, hpure⟩ := Lower.bind_eq_ok h
      cases hpure
      obtain ⟨hputs, rfl⟩ := addText_puts htext
      exact ⟨hputs, rfl, fun _ => rfl⟩
    | int | float | bool | other => exact (literal_quiet (by simp) text b v b' hopen h).2
  | name n =>
    obtain ⟨x, b₁, hresolve, h⟩ := Lower.bind_eq_ok h
    obtain ⟨w, b₂, hload, hpure⟩ := Lower.bind_eq_ok h
    cases hpure
    obtain ⟨rfl, hslot, -⟩ := resolve_slotted henv hresolve
    obtain ⟨-, hputs, hw⟩ :=
      Quiet.emit _ (by simpa [Instr.operands] using hslot) _ _ _ hopen hload
    exact ⟨hputs, hw, by simp [Expr.address?]⟩
  | assign target value ih =>
    obtain ⟨x, b₁, hresolve, h⟩ := Lower.bind_eq_ok h
    obtain ⟨given, b₂, hvalue, h⟩ := Lower.bind_eq_ok h
    obtain ⟨w, b₃, hwiden, h⟩ := Lower.bind_eq_ok h
    obtain ⟨u, b₄, hstore, hpure⟩ := Lower.bind_eq_ok h
    cases hpure
    obtain ⟨rfl, hslot, hslotType⟩ := resolve_slotted henv hresolve
    obtain ⟨hputs, hgiven⟩ := ih hopen hvalue
    have hopen₂ := (lower_straight env value _ _ _ hopen hvalue).1.isOpen
    obtain ⟨hstored, hw, htype⟩ := store_widened_puts hopen₂ hgiven hslot hwiden hstore
    refine ⟨?_, hw, fun hsome => eq_string_of_valueType ?_⟩
    · have huses := Expr.textUsesWith_of_lower hvalue Builder.nextSite b₁.texts.length
      rw [Expr.textUses, ← Expr.textUsesWith, huses]
      simpa [Expr.literals] using hputs.trans hstored
    · have hvalueType : x.type.valueType = w.type := by
        rw [hslotType] at htype
        exact ValueType.pointer.inj htype
      rw [hvalueType]
      cases w with
      | text index size => rfl
      | _ => simp [← hw, Operand.address?, Expr.address?] at hsome
  | group inner ih => exact ih hopen h
  | unary op operand ih =>
    obtain ⟨w, mid, hoperand, h⟩ := Lower.bind_eq_ok h
    obtain ⟨hputs, hw⟩ := ih hopen hoperand
    have hmid := (lower_straight env operand _ _ _ hopen hoperand).1.isOpen
    obtain ⟨-, hquiet, hv⟩ := unary_quiet op hw mid v b' hmid h
    exact ⟨hputs.quiet hquiet, hv⟩
  | binary op left right ihleft ihright =>
    obtain ⟨l, b₁, hleft, h⟩ := Lower.bind_eq_ok h
    obtain ⟨r, b₂, hright, h⟩ := Lower.bind_eq_ok h
    obtain ⟨hputs₁, hl⟩ := ihleft hopen hleft
    have hopen₁ := (lower_straight env left _ _ _ hopen hleft).1.isOpen
    obtain ⟨hputs₂, hr⟩ := ihright hopen₁ hright
    have hopen₂ := (lower_straight env right _ _ _ hopen₁ hright).1.isOpen
    obtain ⟨-, hquiet, hv⟩ := binary_quiet op hl hr b₂ v b' hopen₂ h
    refine ⟨?_, hv⟩
    rw [hputs₁.length_eq] at hputs₂
    rw [Expr.textUses, along_of_ok hleft]
    exact (hputs₁.trans hputs₂).quiet hquiet

/-! ### Code for statements -/

theorem print_puts (hopen : b.IsOpen) {v : Typed} {a : Option Operand} (hv : v.Holds a) {u : Unit}
    (h : print v b = .ok (u, b')) : Puts b [] (textUsesAt b.nextSite a.toList) b' := by
  have hcall : ∀ (helper : Helper), perform (.call helper v.operand) b = .ok (u, b') →
      Puts b [] (textUsesAt b.nextSite a.toList) b' := by
    intro helper hcall
    rw [← hv.address, textUsesAt_address?]
    exact perform_puts hopen hcall
  unfold print at h
  cases htype : v.type with
  | bool =>
    have hnone : v.operand.address? = none := hv.address_eq_none (by simp [htype])
    have hquiet : Quiet (do
        let n ← emit (.convert .zext v.operand .i32) .i32
        perform (.call .printInt n)) fun _ => True :=
      (Quiet.emit _ (by simpa [Instr.operands] using hnone)).bind fun n hn =>
        .perform (by simpa [Instr.operands] using hn)
    rw [htype] at h
    rw [hv.eq_none (by simp [htype])]
    exact (hquiet b u b' hopen h).2.1
  | int | float | string | char =>
    rw [htype] at h
    exact hcall _ h
  | unknown =>
    rw [htype] at h
    cases h

theorem address?_zero (type : Ty) : type.zero.address? = none := by
  cases type <;> rfl

theorem declaration_puts {env env' : Environment} (henv : env.Slotted) (hopen : b.IsOpen)
    {type : Ty} {name : String} {initial : Expr}
    (h : declaration env type name initial b = .ok (env', b')) :
    Puts b (initial.literals .string)
        (along (reserve type.valueType) b fun _ mid =>
          initial.textUsesWith Builder.nextSite env b.texts.length mid) b' ∧
      env'.Slotted := by
  obtain ⟨slot, b₁, hreserve, h⟩ := Lower.bind_eq_ok h
  obtain ⟨value, b₂, hvalue, h⟩ := Lower.bind_eq_ok h
  obtain ⟨u, b₃, hstore, hpure⟩ := Lower.bind_eq_ok h
  cases hpure
  obtain ⟨hputs₁, hslot⟩ := reserve_puts hopen hreserve
  have hopen₁ := (reserve_straight _ _ _ _ hopen hreserve).1.isOpen
  have hlength : b.texts.length = b₁.texts.length := by simpa using hputs₁.length_eq.symm
  refine ⟨?_, ?_⟩
  · rw [along_of_ok hreserve, hlength]
    unfold initialValue at hvalue
    split at hvalue
    · next habsent =>
      cases hvalue
      obtain rfl := Expr.eq_absent_of_isAbsent habsent
      have hquiet : Quiet (perform (.store type.zero slot)) fun _ => True :=
        .perform (by simp [Instr.operands, address?_zero, hslot])
      exact hputs₁.trans (hquiet _ _ _ hopen₁ (store_eq_ok hstore).2).2.1
    · obtain ⟨given, mid, hgiven, hwiden⟩ := Lower.bind_eq_ok hvalue
      obtain ⟨hputs₂, hholds⟩ := lower_puts henv hopen₁ hgiven
      have hopen₂ := (lower_straight env initial _ _ _ hopen₁ hgiven).1.isOpen
      have hputs₃ := (store_widened_puts hopen₂ hholds hslot hwiden hstore).1
      rw [Expr.textUsesWith_of_lower hgiven]
      simpa using (hputs₁.trans hputs₂).trans hputs₃
  · rintro e (_ | ⟨_, he⟩)
    · cases hreserve
      exact ⟨rfl, rfl⟩
    · exact henv e he

/-- The condition of a branch is used at the end of the block that it ends. -/
theorem condition_puts {env : Environment} (henv : env.Slotted) (hopen : b.IsOpen) {e : Expr}
    {v : Typed} {mid b₁ : Builder} {whenTrue whenFalse next : Nat} {u : Unit}
    (h : e.lower env b = .ok (v, mid)) (hpads : Puts mid [] [] b₁) (hopen₁ : b₁.IsOpen)
    (hcurrent : b₁.current = mid.current)
    (hleave : leave .always (.branch v.operand whenTrue whenFalse) next b₁ = .ok (u, b')) :
    Puts b (e.literals .string) (e.textUsesWith Builder.endSite env b.texts.length b) b' := by
  obtain ⟨hputs, hv⟩ := lower_puts henv hopen h
  have hbranch := leave_puts hopen₁ hleave
  have hsite : b₁.endSite = mid.endSite := by rw [Builder.endSite, Builder.endSite, hcurrent]
  rw [Terminator.operands, ← textUsesAt_address?, hv.address, hsite] at hbranch
  rw [Expr.textUsesWith_of_lower h]
  simpa using (hputs.quiet hpads).trans hbranch

theorem branchOn_puts {env : Environment} (henv : env.Slotted) (hopen : b.IsOpen) {e : Expr}
    {whenTrue whenFalse : Nat} {u : Unit} (h : branchOn env e whenTrue whenFalse b = .ok (u, b')) :
    Puts b (e.literals .string) (e.textUsesWith Builder.endSite env b.texts.length b) b' := by
  obtain ⟨v, mid, hcondition, hleave⟩ := Lower.bind_eq_ok h
  have hmid := (lower_straight env e _ _ _ hopen hcondition).1.isOpen
  exact condition_puts henv hopen hcondition (.refl mid) hmid rfl hleave

theorem branchOnOptional_puts {env : Environment} (henv : env.Slotted) (hopen : b.IsOpen)
    {e : Expr} {whenTrue whenFalse : Nat} {u : Unit}
    (h : branchOnOptional env e whenTrue whenFalse b = .ok (u, b')) :
    Puts b (e.literals .string) (e.textUsesWith Builder.endSite env b.texts.length b) b' := by
  unfold branchOnOptional at h
  split at h
  · next habsent =>
    obtain rfl := Expr.eq_absent_of_isAbsent habsent
    exact leave_puts hopen h
  · exact branchOn_puts henv hopen h

theorem evaluateOptional_puts {env : Environment} (henv : env.Slotted) (hopen : b.IsOpen)
    {e : Expr} {u : Unit} (h : evaluateOptional env e b = .ok (u, b')) :
    Puts b (e.literals .string) (e.textUses env b.texts.length b) b' := by
  unfold evaluateOptional at h
  split at h
  · next habsent =>
    obtain rfl := Expr.eq_absent_of_isAbsent habsent
    cases h
    exact .refl b
  · obtain ⟨v, mid, he, hpure⟩ := Lower.bind_eq_ok h
    cases hpure
    exact (lower_puts henv hopen he).1

theorem openArms_puts {env : Environment} (henv : env.Slotted) (hopen : b.IsOpen) {e : Expr}
    {hasAlternative : Bool} {arms : Arms} (h : openArms env e hasAlternative b = .ok (arms, b')) :
    Puts b (e.literals .string) (e.textUsesWith Builder.endSite env b.texts.length b) b' := by
  obtain ⟨v, mid, hcondition, h⟩ := Lower.bind_eq_ok h
  obtain ⟨thenBlock, b₁, hthen, h⟩ := Lower.bind_eq_ok h
  obtain ⟨endBlock, b₂, hend, h⟩ := Lower.bind_eq_ok h
  obtain ⟨elseBlock, b₃, helse, h⟩ := Lower.bind_eq_ok h
  obtain ⟨u, b₄, hleave, hpure⟩ := Lower.bind_eq_ok h
  cases hpure
  have hmid := (lower_straight env e _ _ _ hopen hcondition).1.isOpen
  have hpads₁ := (addBlock_pads hmid hthen).1
  have hpads₂ := (addBlock_pads hpads₁.advance.isOpen hend).1
  have helse' : Pads b₂ b₃ ∧ Puts b₂ [] [] b₃ := by
    split at helse
    · exact ⟨(addBlock_pads hpads₂.advance.isOpen helse).1, addBlock_puts helse⟩
    · cases helse
      exact ⟨.refl hpads₂.advance.isOpen, .refl _⟩
  have hpads := (hpads₁.trans hpads₂).trans helse'.1
  exact condition_puts henv hopen hcondition
    (((addBlock_puts hthen).trans (addBlock_puts hend)).trans helse'.2) hpads.advance.isOpen
    hpads.current hleave

theorem addBlocks_pads (hopen : b.IsOpen) {roles : List Role} {u : Unit}
    (h : (roles.forM fun role => do let _ ← addBlock role : Lower Unit) b = .ok (u, b')) :
    Pads b b' ∧ Puts b [] [] b' := by
  induction roles generalizing b with
  | nil =>
    cases h
    exact ⟨.refl hopen, .refl _⟩
  | cons role roles ih =>
    obtain ⟨_, mid, hfirst, hothers⟩ := Lower.bind_eq_ok h
    obtain ⟨n, _, hblock, hpure⟩ := Lower.bind_eq_ok hfirst
    cases hpure
    have hpads := (addBlock_pads hopen hblock).1
    obtain ⟨hpads', hputs⟩ := ih hpads.advance.isOpen hothers
    exact ⟨hpads.trans hpads', (addBlock_puts hblock).trans hputs⟩

theorem startLoop_puts (hopen : b.IsOpen) {condition : Role} {others : List Role} {u : Unit}
    (h : startLoop condition others b = .ok (u, b')) : Puts b [] [] b' ∧ b'.IsOpen := by
  obtain ⟨n, b₁, hcond, h⟩ := Lower.bind_eq_ok h
  obtain ⟨_, b₂, hothers, hleave⟩ := Lower.bind_eq_ok h
  obtain ⟨hpads₁, rfl, hempty₁⟩ := addBlock_pads hopen hcond
  obtain ⟨hpads₂, hputs₂⟩ := addBlocks_pads hpads₁.advance.isOpen hothers
  have hpads := hpads₁.trans hpads₂
  have hleaves := leave_leaves hpads.advance.isOpen hleave
  have hcurrent : b.blocks.length ≠ b₂.current := by
    rw [hpads.current]
    exact Nat.ne_of_gt hopen.current_lt
  obtain ⟨x, hx, -, hend⟩ := hleaves.isEmpty (hpads₂.isEmpty hempty₁) hcurrent
  exact ⟨((addBlock_puts hcond).trans hputs₂).trans (leave_puts hpads.advance.isOpen hleave),
    x, hleaves.current ▸ hx, hend⟩

theorem openWhile_puts {env : Environment} (henv : env.Slotted) (hopen : b.IsOpen) {e : Expr}
    {rounds : Rounds} (h : openWhile env e b = .ok (rounds, b')) :
    Puts b (e.literals .string)
      (along (startLoop .whileCond [.whileBody, .whileEnd]) b fun _ mid =>
        e.textUsesWith Builder.endSite env b.texts.length mid) b' := by
  obtain ⟨condBlock, b₁, hcond, h⟩ := Lower.bind_eq_ok h
  obtain ⟨bodyBlock, b₂, hbody, h⟩ := Lower.bind_eq_ok h
  obtain ⟨endBlock, b₃, hend, h⟩ := Lower.bind_eq_ok h
  obtain ⟨u, mid, hleave, h⟩ := Lower.bind_eq_ok h
  obtain ⟨u', b₄, hbranch, hpure⟩ := Lower.bind_eq_ok h
  cases hpure
  have hstart : startLoop .whileCond [.whileBody, .whileEnd] b = .ok (u, mid) := by
    cases hcond
    cases hbody
    cases hend
    exact hleave
  obtain ⟨hputs, hmid⟩ := startLoop_puts hopen hstart
  have hcondition := branchOn_puts henv hmid hbranch
  rw [along_of_ok hstart, show b.texts.length = mid.texts.length by simpa using hputs.length_eq.symm]
  exact hputs.trans hcondition

theorem openFor_puts {env : Environment} (henv : env.Slotted) (hopen : b.IsOpen) {e : Expr}
    {rounds : Rounds} (h : openFor env e b = .ok (rounds, b')) :
    Puts b (e.literals .string)
      (along (startLoop .forCond [.forBody, .forInc, .forEnd]) b fun _ mid =>
        e.textUsesWith Builder.endSite env b.texts.length mid) b' := by
  obtain ⟨condBlock, b₁, hcond, h⟩ := Lower.bind_eq_ok h
  obtain ⟨bodyBlock, b₂, hbody, h⟩ := Lower.bind_eq_ok h
  obtain ⟨incBlock, b₃, hinc, h⟩ := Lower.bind_eq_ok h
  obtain ⟨endBlock, b₄, hend, h⟩ := Lower.bind_eq_ok h
  obtain ⟨u, mid, hleave, h⟩ := Lower.bind_eq_ok h
  obtain ⟨u', b₅, hbranch, hpure⟩ := Lower.bind_eq_ok h
  cases hpure
  have hstart : startLoop .forCond [.forBody, .forInc, .forEnd] b = .ok (u, mid) := by
    cases hcond
    cases hbody
    cases hinc
    cases hend
    exact hleave
  obtain ⟨hputs, hmid⟩ := startLoop_puts hopen hstart
  have hcondition := branchOnOptional_puts henv hmid hbranch
  rw [along_of_ok hstart, show b.texts.length = mid.texts.length by simpa using hputs.length_eq.symm]
  exact hputs.trans hcondition

end Lowering

mutual

/-- The code of a statement adds the texts that are written in it, and uses their addresses where the
statement uses their values. -/
theorem Stmt.lower_puts {env env' : Environment} (henv : env.Slotted) {b b' : Builder}
    (hopen : b.IsOpen) : (s : Stmt) → s.lower env b = .ok (env', b') →
    Puts b (s.literals .string) (s.textUses env b.texts.length b) b' ∧ env'.Slotted
  | .absent, h => by
    rw [Stmt.lower] at h
    cases h
  | .declare type name initial, h => by
    rw [Stmt.lower] at h
    rw [Stmt.literals, Stmt.textUses]
    exact declaration_puts henv hopen h
  | .print value, h => by
    rw [Stmt.lower] at h
    obtain ⟨v, mid, hvalue, h⟩ := Lower.bind_eq_ok h
    obtain ⟨u, b₁, hprint, hpure⟩ := Lower.bind_eq_ok h
    cases hpure
    obtain ⟨hputs, hv⟩ := Lowering.lower_puts henv hopen hvalue
    have hmid := (lower_straight env value _ _ _ hopen hvalue).1.isOpen
    refine ⟨?_, henv⟩
    rw [Stmt.literals, Stmt.textUses, Expr.textUsesWith_of_lower hvalue]
    simpa using hputs.trans (print_puts hmid hv hprint)
  | .expression value, h => by
    rw [Stmt.lower] at h
    obtain ⟨v, mid, hvalue, hpure⟩ := Lower.bind_eq_ok h
    cases hpure
    rw [Stmt.literals, Stmt.textUses]
    exact ⟨(Lowering.lower_puts henv hopen hvalue).1, henv⟩
  | .block body, h => by
    rw [Stmt.lower] at h
    obtain ⟨inner, mid, hbody, hpure⟩ := Lower.bind_eq_ok h
    cases hpure
    rw [Stmt.literals, Stmt.textUses]
    exact ⟨(Stmt.lowerAll_puts henv hopen body hbody).1, henv⟩
  | .ifElse condition consequent alternative, h => by
    rw [Stmt.lower] at h
    obtain ⟨arms, b₁, harms, h⟩ := Lower.bind_eq_ok h
    obtain ⟨between, b₂, hconsequent, h⟩ := Lower.bind_eq_ok h
    obtain ⟨u, b₃, hleave, h⟩ := Lower.bind_eq_ok h
    obtain ⟨hopened, -⟩ := openArms_opens hopen harms
    have hfirst := Stmt.lower_advances hopened.advance.isOpen consequent hconsequent
    have hleaves := leave_leaves hfirst.isOpen hleave
    obtain ⟨hbetween, -, hend⟩ := hopened.between hopen hfirst hleaves
    have hputs₁ := openArms_puts henv hopen harms
    obtain ⟨hputs₂, henv₂⟩ := Stmt.lower_puts henv hopened.advance.isOpen consequent hconsequent
    have hputs₃ := leave_puts hfirst.isOpen hleave
    rw [hputs₁.length_eq] at hputs₂
    simp only [Stmt.literals, Stmt.textUses, along_of_ok harms, along_of_ok hconsequent,
      along_of_ok hleave]
    have hputs := hputs₁.trans (hputs₂.quiet hputs₃)
    cases habsent : alternative.isAbsent with
    | true =>
      rw [habsent, if_pos rfl] at h
      cases h
      obtain rfl := Stmt.eq_absent_of_isAbsent habsent
      rw [Stmt.literals, Stmt.textUses]
      exact ⟨by simpa using hputs, henv₂⟩
    | false =>
      rw [habsent, if_neg (by simp)] at h
      obtain ⟨after, b₄, halternative, h⟩ := Lower.bind_eq_ok h
      obtain ⟨u', b₅, hleave', hpure⟩ := Lower.bind_eq_ok h
      cases hpure
      obtain ⟨hputs₄, henv₄⟩ := Stmt.lower_puts henv₂ hbetween.isOpen alternative halternative
      have hsecond := Stmt.lower_advances hbetween.isOpen alternative halternative
      have hputs₅ := leave_puts hsecond.isOpen hleave'
      rw [hputs.length_eq, List.length_append, ← Nat.add_assoc] at hputs₄
      exact ⟨by simpa using hputs.trans (hputs₄.quiet hputs₅), henv₄⟩
  | .whileLoop condition body, h => by
    rw [Stmt.lower] at h
    obtain ⟨rounds, b₁, hrounds, h⟩ := Lower.bind_eq_ok h
    obtain ⟨after, b₂, hbody, h⟩ := Lower.bind_eq_ok h
    obtain ⟨u, b₃, hleave, hpure⟩ := Lower.bind_eq_ok h
    cases hpure
    obtain ⟨mid, hloop⟩ := openWhile_opens hopen hrounds
    have hadvance := Stmt.lower_advances hloop.advance.isOpen body hbody
    have hputs₁ := openWhile_puts henv hopen hrounds
    obtain ⟨hputs₂, henv₂⟩ := Stmt.lower_puts henv hloop.advance.isOpen body hbody
    have hputs₃ := leave_puts hadvance.isOpen hleave
    rw [hputs₁.length_eq] at hputs₂
    rw [Stmt.literals, Stmt.textUses, along_of_ok hrounds]
    exact ⟨hputs₁.trans (hputs₂.quiet hputs₃), henv₂⟩
  | .forLoop initial condition increment body, h => by
    rw [Stmt.lower] at h
    obtain ⟨inner, b₀, hinitial, h⟩ := Lower.bind_eq_ok h
    obtain ⟨rounds, b₁, hrounds, h⟩ := Lower.bind_eq_ok h
    obtain ⟨after, b₂, hbody, h⟩ := Lower.bind_eq_ok h
    obtain ⟨u, b₃, hleave, h⟩ := Lower.bind_eq_ok h
    obtain ⟨u', b₄, hincrement, h⟩ := Lower.bind_eq_ok h
    obtain ⟨u'', b₅, hleave', hpure⟩ := Lower.bind_eq_ok h
    cases hpure
    have hstart : Advances b b₀ ∧
        Puts b (initial.literals .string) (initial.textUses env b.texts.length b) b₀ ∧
        inner.Slotted := by
      split at hinitial
      · next habsent =>
        cases hinitial
        obtain rfl := Stmt.eq_absent_of_isAbsent habsent
        rw [Stmt.literals, Stmt.textUses]
        exact ⟨.refl hopen, .refl b, henv⟩
      · exact ⟨Stmt.lower_advances hopen initial hinitial,
          Stmt.lower_puts henv hopen initial hinitial⟩
    obtain ⟨hadvance₀, hputs₀, hinner⟩ := hstart
    have hopen₀ := hadvance₀.isOpen
    obtain ⟨⟨mid, hloop⟩, hinc, hnewInc, hincBody, hincEnd⟩ := openFor_opens hopen₀ hrounds
    have hadvance := Stmt.lower_advances hloop.advance.isOpen body hbody
    have hleaves := leave_leaves hadvance.isOpen hleave
    obtain ⟨hbetween, -⟩ := hloop.leave hopen₀ hadvance hinc hincBody hnewInc hleaves
    have hafter := evaluateOptional_straight after increment _ _ _ hbetween.isOpen hincrement
    have hputs₁ := hputs₀.trans (hputs₀.length_eq ▸ openFor_puts hinner hopen₀ hrounds)
    obtain ⟨hputs₂, henv₂⟩ := Stmt.lower_puts hinner hloop.advance.isOpen body hbody
    have hputs₃ := leave_puts hadvance.isOpen hleave
    have hputs₄ := evaluateOptional_puts henv₂ hbetween.isOpen hincrement
    have hputs₅ := leave_puts hafter.1.isOpen hleave'
    rw [hputs₁.length_eq, List.length_append, ← Nat.add_assoc] at hputs₂
    have hputs := hputs₁.trans (hputs₂.quiet hputs₃)
    rw [hputs.length_eq, List.length_append, List.length_append, ← Nat.add_assoc,
      ← Nat.add_assoc] at hputs₄
    simp only [Stmt.literals, Stmt.textUses, along_of_ok hinitial, along_of_ok hrounds,
      along_of_ok hbody, along_of_ok hleave]
    exact ⟨by simpa using hputs.trans (hputs₄.quiet hputs₅), henv⟩

theorem Stmt.lowerAll_puts {env env' : Environment} (henv : env.Slotted) {b b' : Builder}
    (hopen : b.IsOpen) : (ss : List Stmt) → Stmt.lowerAll env ss b = .ok (env', b') →
    Puts b (Stmt.allLiterals .string ss) (Stmt.allTextUses env b.texts.length b ss) b' ∧
      env'.Slotted
  | [], h => by
    rw [Stmt.lowerAll] at h
    cases h
    rw [Stmt.allLiterals, Stmt.allTextUses]
    exact ⟨.refl b, henv⟩
  | s :: ss, h => by
    rw [Stmt.lowerAll] at h
    obtain ⟨between, mid, hfirst, hothers⟩ := Lower.bind_eq_ok h
    have hmid := (Stmt.lower_advances hopen s hfirst).isOpen
    obtain ⟨hputs₁, henv₁⟩ := Stmt.lower_puts henv hopen s hfirst
    obtain ⟨hputs₂, henv₂⟩ := Stmt.lowerAll_puts henv₁ hmid ss hothers
    rw [hputs₁.length_eq] at hputs₂
    rw [Stmt.allLiterals, Stmt.allTextUses, along_of_ok hfirst]
    exact ⟨hputs₁.trans hputs₂, henv₂⟩

end

end Binisaya
