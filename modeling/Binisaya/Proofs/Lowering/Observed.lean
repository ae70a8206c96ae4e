import Binisaya.Proofs.Lowering.Growth

/-!
# Lowering with an observer

`lowerObserved o p` lowers a program and gives an observer notice of what happens on the way: which
values are computed, what is done to the blocks, and where names are declared and met.  The steps are
those of any monad that can take the steps of lowering; what comes of a notice is up to the observer.
Main statements: where no notice makes a difference, observed lowering is lowering; and the parts of
it that only give notices of a kind that an observer ignores are the plain ones.
-/

namespace Binisaya

open Llvm

namespace Lowering

/-! ### Notices -/

/-- What is done to the blocks. -/
inductive BlockNotice where
  /-- A statement begins or has just been lowered. -/
  | boundary
  /-- An empty block has been added. -/
  | added (block : Nat)
  /-- The block that is being filled is about to be ended, whether or not it has been ended
  before. -/
  | ending (t : Terminator)
  /-- A block is about to be filled. -/
  | filling (block : Nat)

/-- What is done about names. -/
inductive NameNotice where
  /-- A scope begins. -/
  | opened
  /-- A scope ends. -/
  | closed
  /-- A slot has been reserved for a variable. -/
  | declared (name : String) (v : Variable)
  /-- An expression is about to be lowered, as the initial value of a declaration of the given name
  or as no initial value. -/
  | met (env : Environment) (declared : Option String) (e : Expr)

/-- Something that happens while a program is lowered. -/
inductive Notice where
  /-- The value of an expression has been computed. -/
  | value (e : Expr) (v : Typed)
  | block (what : BlockNotice)
  | name (what : NameNotice)

/-- What is done about each notice. -/
abbrev Observer (m : Type → Type) := Notice → m Unit

end Lowering

open Lowering

variable {m : Type → Type} [Monad m] [MonadLiftT Lower m] (o : Observer m)

/-! ### Steps -/

namespace Lowering.Observed

/-- Tells of the value of an expression. -/
def yield (e : Expr) (v : Typed) : m Typed := do
  o (.value e v)
  pure v

/-- A statement between its two boundaries. -/
def within {α : Type} (f : m α) : m α := do
  o (.block .boundary)
  let a ← f
  o (.block .boundary)
  pure a

/-- Adds an empty block at the end, and answers with its index. -/
def addBlock (role : Role) : m Nat := do
  let n ← Lowering.addBlock role
  o (.block (.added n))
  pure n

/-- Ends the block that is being filled. -/
def finish (g : Guard) (t : Terminator) : m Unit := do
  o (.block (.ending t))
  Lowering.finish g t

/-- Ends the block that is being filled, and goes on with filling another. -/
def leave (g : Guard) (t : Terminator) (next : Nat) : m Unit := do
  finish o g t
  o (.block (.filling next))
  continueIn next

end Lowering.Observed

/-- Code for an expression. -/
def Expr.lowerObserved (env : Environment) : Expr → m Typed
  | .absent => liftM (Lowering.fail .absentExpression : Lower Typed)
  | .literal kind text => do
    let v ← Lowering.literal kind text
    Observed.yield o (.literal kind text) v
  | .name n => do
    let v ← (Expr.name n).lower env
    Observed.yield o (.name n) v
  | .assign target value => do
    let v ← resolve env target
    let given ← value.lowerObserved env
    let widened ← widen given v.type
    store widened v.slot
    Observed.yield o (.assign target value) ⟨widened, v.type⟩
  | .group inner => do
    let v ← inner.lowerObserved env
    Observed.yield o (.group inner) v
  | .unary op operand => do
    let v ← operand.lowerObserved env
    let result ← Lowering.unary op v
    Observed.yield o (.unary op operand) result
  | .binary op left right => do
    let l ← left.lowerObserved env
    let r ← right.lowerObserved env
    let result ← Lowering.binary op l r
    Observed.yield o (.binary op left right) result

namespace Lowering.Observed

/-- The value that a variable of the given type first holds. -/
def initialValue (env : Environment) (type : Ty) (initial : Expr) : m Operand :=
  if initial.isAbsent then pure type.zero
  else do
    let given ← initial.lowerObserved o env
    widen given type

/-- Code for a declaration. -/
def declaration (env : Environment) (type : Ty) (name : String) (initial : Expr) :
    m Environment := do
  let slot ← reserve type.valueType
  -- the checker knows the name from here on, the environment only behind the initial value
  o (.name (.declared name ⟨slot, type⟩))
  o (.name (.met env (some name) initial))
  let value ← initialValue o env type initial
  store value slot
  pure ((name, ⟨slot, type⟩) :: env)

/-- Ends the block that is being filled by a condition. -/
def branchOn (env : Environment) (condition : Expr) (whenTrue whenFalse : Nat) : m Unit := do
  let v ← condition.lowerObserved o env
  leave o .always (.branch v.operand whenTrue whenFalse) whenTrue

/-- Ends the block that is being filled by the condition of a counting loop. -/
def branchOnOptional (env : Environment) (condition : Expr) (whenTrue whenFalse : Nat) : m Unit :=
  if condition.isAbsent then leave o .always (.jump whenTrue) whenTrue
  else branchOn o env condition whenTrue whenFalse

/-- Code for an expression whose value is not used, if there is one. -/
def evaluateOptional (env : Environment) (e : Expr) : m Unit :=
  if e.isAbsent then pure ()
  else do
    let _ ← e.lowerObserved o env
    pure ()

/-- Code for the condition of a conditional. -/
def openArms (env : Environment) (condition : Expr) (hasAlternative : Bool) : m Arms := do
  let v ← condition.lowerObserved o env
  let thenBlock ← addBlock o .ifThen
  let endBlock ← addBlock o .ifEnd
  let elseBlock ← (if hasAlternative then addBlock o .ifElse else pure endBlock)
  leave o .always (.branch v.operand thenBlock elseBlock) thenBlock
  pure ⟨thenBlock, elseBlock, endBlock⟩

/-- Code for the condition of a loop. -/
def openWhile (env : Environment) (condition : Expr) : m Rounds := do
  let condBlock ← addBlock o .whileCond
  let bodyBlock ← addBlock o .whileBody
  let endBlock ← addBlock o .whileEnd
  leave o .unlessEnded (.jump condBlock) condBlock
  branchOn o env condition bodyBlock endBlock
  pure ⟨condBlock, condBlock, endBlock⟩

/-- Code for the condition of a counting loop. -/
def openFor (env : Environment) (condition : Expr) : m Rounds := do
  let condBlock ← addBlock o .forCond
  let bodyBlock ← addBlock o .forBody
  let incBlock ← addBlock o .forInc
  let endBlock ← addBlock o .forEnd
  leave o .unlessEnded (.jump condBlock) condBlock
  branchOnOptional o env condition bodyBlock endBlock
  pure ⟨condBlock, incBlock, endBlock⟩

end Lowering.Observed

/-! ### Statements and programs -/

mutual

/-- Code for a statement. -/
def Stmt.lowerObserved (env : Environment) : Stmt → m Environment
  | .absent => Observed.within o (liftM (Lowering.fail .absentStatement : Lower Environment))
  | .declare type name initial =>
    Observed.within o (Observed.declaration o env (.ofWord type) name initial)
  | .print value => Observed.within o do
    o (.name (.met env none value))
    let v ← value.lowerObserved o env
    Lowering.print v
    pure env
  | .expression value => Observed.within o do
    o (.name (.met env none value))
    let _ ← value.lowerObserved o env
    pure env
  | .block body => Observed.within o do
    o (.name .opened)
    let _ ← Stmt.lowerAllObserved env body
    o (.name .closed)
    pure env
  | .ifElse condition consequent alternative => Observed.within o do
    o (.name (.met env none condition))
    let arms ← Observed.openArms o env condition (!alternative.isAbsent)
    let between ← consequent.lowerObserved env
    Observed.leave o .unlessEnded (.jump arms.endBlock) arms.elseBlock
    if alternative.isAbsent then pure between
    else
      let after ← alternative.lowerObserved between
      Observed.leave o .unlessEnded (.jump arms.endBlock) arms.endBlock
      pure after
  | .whileLoop condition body => Observed.within o do
    o (.name (.met env none condition))
    let rounds ← Observed.openWhile o env condition
    let after ← body.lowerObserved env
    Observed.leave o .unlessEnded (.jump rounds.condBlock) rounds.endBlock
    pure after
  | .forLoop initial condition increment body => Observed.within o do
    o (.name .opened)
    let inner ← (if initial.isAbsent then pure env else initial.lowerObserved env)
    o (.name (.met inner none condition))
    let rounds ← Observed.openFor o inner condition
    let after ← body.lowerObserved inner
    Observed.leave o .unlessEnded (.jump rounds.incBlock) rounds.incBlock
    o (.name (.met after none increment))
    Observed.evaluateOptional o after increment
    Observed.leave o .unlessEnded (.jump rounds.condBlock) rounds.endBlock
    o (.name .closed)
    pure env

/-- Code for a sequence of statements. -/
def Stmt.lowerAllObserved (env : Environment) : List Stmt → m Environment
  | [] => pure env
  | s :: ss => do
    let after ← s.lowerObserved env
    Stmt.lowerAllObserved after ss

end

/-- Code for a program. -/
def lowerObserved (p : Program) : m Unit := do
  let _ ← Stmt.lowerAllObserved o [] p
  Observed.finish o .unlessEnded .ret

theorem lower_eq (p : Program) :
    lower p = ((Stmt.lowerAll [] p >>= fun _ => finish .unlessEnded .ret) Builder.initial).map
      (·.2.module) := by
  unfold lower
  cases (Stmt.lowerAll [] p >>= fun _ => finish .unlessEnded .ret) Builder.initial <;> rfl

/-! ### Erasing what is observed -/

namespace Lowering

/-- A relation of observed steps to plain ones to which no notice makes a difference. -/
structure Erasure (R : ∀ α : Type, m α → Lower α → Prop) : Prop where
  pure : ∀ {α} (a : α), R α (pure a) (pure a)
  lift : ∀ {α} (f : Lower α), R α (liftM f) f
  bind : ∀ {α β} {g : m α} {f : Lower α} {k : α → m β} {h : α → Lower β}, R α g f →
    (∀ a, R β (k a) (h a)) → R β (g >>= k) (f >>= h)
  notice : ∀ what, R Unit (o what) (Pure.pure ())

namespace Erasure

variable {o} {R : ∀ α : Type, m α → Lower α → Prop} (hR : Erasure o R)
include hR

/-- A notice in front of the steps makes no difference. -/
theorem skip {α : Type} {g : m α} {f : Lower α} (what : Notice) (h : R α g f) :
    R α (o what >>= fun _ => g) f := hR.bind (hR.notice what) fun _ => h

/-- Nor does one of their result. -/
theorem tap {α : Type} {g : m α} {f : Lower α} (what : α → Notice) (h : R α g f) :
    R α (g >>= fun a => o (what a) >>= fun _ => Pure.pure a) f := by
  have hpure : f = f >>= Pure.pure := (bind_pure f).symm
  rw [hpure]
  exact hR.bind h fun a => hR.skip _ (hR.pure a)

theorem within {α : Type} {g : m α} {f : Lower α} (h : R α g f) : R α (Observed.within o g) f :=
  hR.skip _ (hR.tap (fun _ => .block .boundary) h)

theorem addBlock (role : Role) : R Nat (Observed.addBlock o role) (addBlock role) :=
  hR.tap (fun n => .block (.added n)) (hR.lift _)

theorem finish (g : Guard) (t : Terminator) : R Unit (Observed.finish o g t) (finish g t) :=
  hR.skip _ (hR.lift _)

theorem leave (g : Guard) (t : Terminator) (next : Nat) :
    R Unit (Observed.leave o g t next) (leave g t next) :=
  hR.bind (hR.finish g t) fun _ => hR.skip _ (hR.lift _)

theorem expr (env : Environment) (e : Expr) : R Typed (e.lowerObserved o env) (e.lower env) := by
  induction e with
  | absent => exact hR.lift _
  | literal kind text => exact hR.tap (fun v => .value (.literal kind text) v) (hR.lift _)
  | name n => exact hR.tap (fun v => .value (.name n) v) (hR.lift _)
  | assign target value ih =>
    exact hR.bind (hR.lift _) fun v => hR.bind ih fun given => hR.bind (hR.lift _) fun widened =>
      hR.bind (hR.lift _) fun _ => hR.skip _ (hR.pure _)
  | group inner ih => exact hR.tap (fun v => .value (.group inner) v) ih
  | unary op operand ih =>
    exact hR.bind ih fun v => hR.tap (fun result => .value (.unary op operand) result) (hR.lift _)
  | binary op left right ihleft ihright =>
    exact hR.bind ihleft fun l => hR.bind ihright fun r =>
      hR.tap (fun result => .value (.binary op left right) result) (hR.lift _)

theorem initialValue (env : Environment) (type : Ty) (initial : Expr) :
    R Operand (Observed.initialValue o env type initial) (initialValue env type initial) := by
  unfold Observed.initialValue Lowering.initialValue
  split
  · exact hR.pure _
  · exact hR.bind (hR.expr env initial) fun _ => hR.lift _

theorem declaration (env : Environment) (type : Ty) (name : String) (initial : Expr) :
    R Environment (Observed.declaration o env type name initial)
      (declaration env type name initial) := by
  refine hR.bind (hR.lift _) fun slot => hR.skip _ (hR.skip _ ?_)
  exact hR.bind (hR.initialValue env type initial) fun _ => hR.bind (hR.lift _) fun _ => hR.pure _

theorem branchOn (env : Environment) (condition : Expr) (whenTrue whenFalse : Nat) :
    R Unit (Observed.branchOn o env condition whenTrue whenFalse)
      (branchOn env condition whenTrue whenFalse) :=
  hR.bind (hR.expr env condition) fun _ => hR.leave _ _ _

theorem branchOnOptional (env : Environment) (condition : Expr) (whenTrue whenFalse : Nat) :
    R Unit (Observed.branchOnOptional o env condition whenTrue whenFalse)
      (branchOnOptional env condition whenTrue whenFalse) := by
  unfold Observed.branchOnOptional Lowering.branchOnOptional
  split
  · exact hR.leave _ _ _
  · exact hR.branchOn env condition whenTrue whenFalse

theorem evaluateOptional (env : Environment) (e : Expr) :
    R Unit (Observed.evaluateOptional o env e) (evaluateOptional env e) := by
  unfold Observed.evaluateOptional Lowering.evaluateOptional
  split
  · exact hR.pure _
  · exact hR.bind (hR.expr env e) fun _ => hR.pure _

theorem openArms (env : Environment) (condition : Expr) (hasAlternative : Bool) :
    R Arms (Observed.openArms o env condition hasAlternative)
      (openArms env condition hasAlternative) := by
  refine hR.bind (hR.expr env condition) fun _ => hR.bind (hR.addBlock _) fun _ =>
    hR.bind (hR.addBlock _) fun endBlock => hR.bind ?_ fun _ =>
    hR.bind (hR.leave _ _ _) fun _ => hR.pure _
  split
  · exact hR.addBlock _
  · exact hR.pure _

theorem openWhile (env : Environment) (condition : Expr) :
    R Rounds (Observed.openWhile o env condition) (openWhile env condition) :=
  hR.bind (hR.addBlock _) fun _ => hR.bind (hR.addBlock _) fun _ => hR.bind (hR.addBlock _) fun _ =>
    hR.bind (hR.leave _ _ _) fun _ => hR.bind (hR.branchOn env condition _ _) fun _ => hR.pure _

theorem openFor (env : Environment) (condition : Expr) :
    R Rounds (Observed.openFor o env condition) (openFor env condition) :=
  hR.bind (hR.addBlock _) fun _ => hR.bind (hR.addBlock _) fun _ => hR.bind (hR.addBlock _) fun _ =>
    hR.bind (hR.addBlock _) fun _ => hR.bind (hR.leave _ _ _) fun _ =>
    hR.bind (hR.branchOnOptional env condition _ _) fun _ => hR.pure _

mutual

theorem stmt (env : Environment) :
    (s : Stmt) → R Environment (s.lowerObserved o env) (s.lower env)
  | .absent => by
    rw [Stmt.lowerObserved, Stmt.lower]
    exact hR.within (hR.lift _)
  | .declare type name initial => by
    rw [Stmt.lowerObserved, Stmt.lower]
    exact hR.within (hR.declaration env _ name initial)
  | .print value => by
    rw [Stmt.lowerObserved, Stmt.lower]
    refine hR.within (hR.skip _ ?_)
    exact hR.bind (hR.expr env value) fun _ => hR.bind (hR.lift _) fun _ => hR.pure _
  | .expression value => by
    rw [Stmt.lowerObserved, Stmt.lower]
    exact hR.within (hR.skip _ (hR.bind (hR.expr env value) fun _ => hR.pure _))
  | .block body => by
    rw [Stmt.lowerObserved, Stmt.lower]
    refine hR.within (hR.skip _ ?_)
    exact hR.bind (stmts env body) fun _ => hR.skip _ (hR.pure _)
  | .ifElse condition consequent alternative => by
    rw [Stmt.lowerObserved, Stmt.lower]
    refine hR.within (hR.skip _ (hR.bind (hR.openArms env condition _) fun arms =>
      hR.bind (stmt env consequent) fun between => hR.bind (hR.leave _ _ _) fun _ => ?_))
    split
    · exact hR.pure _
    · exact hR.bind (stmt between alternative) fun _ => hR.bind (hR.leave _ _ _) fun _ => hR.pure _
  | .whileLoop condition body => by
    rw [Stmt.lowerObserved, Stmt.lower]
    refine hR.within (hR.skip _ ?_)
    exact hR.bind (hR.openWhile env condition) fun _ => hR.bind (stmt env body) fun _ =>
      hR.bind (hR.leave _ _ _) fun _ => hR.pure _
  | .forLoop initial condition increment body => by
    rw [Stmt.lowerObserved, Stmt.lower]
    have hinitial : R Environment
        (if initial.isAbsent then Pure.pure env else initial.lowerObserved o env)
        (if initial.isAbsent then Pure.pure env else initial.lower env) := by
      split
      · exact hR.pure _
      · exact stmt env initial
    refine hR.within (hR.skip _ (hR.bind hinitial fun inner => hR.skip _ ?_))
    refine hR.bind (hR.openFor inner condition) fun _ => hR.bind (stmt inner body) fun after =>
      hR.bind (hR.leave _ _ _) fun _ => hR.skip _ ?_
    exact hR.bind (hR.evaluateOptional after increment) fun _ => hR.bind (hR.leave _ _ _) fun _ =>
      hR.skip _ (hR.pure _)

theorem stmts (env : Environment) :
    (ss : List Stmt) → R Environment (Stmt.lowerAllObserved o env ss) (Stmt.lowerAll env ss)
  | [] => by
    rw [Stmt.lowerAllObserved, Stmt.lowerAll]
    exact hR.pure _
  | s :: ss => by
    rw [Stmt.lowerAllObserved, Stmt.lowerAll]
    exact hR.bind (stmt env s) fun after => stmts after ss

end

/-- But for what is observed, observed lowering is lowering. -/
theorem program (p : Program) :
    R Unit (lowerObserved o p) (Stmt.lowerAll [] p >>= fun _ => Lowering.finish .unlessEnded .ret) :=
  hR.bind (hR.stmts [] p) fun _ => hR.finish _ _

end Erasure

/-! ### Observers that ignore a kind of notice -/

/-- Nothing is done about values. -/
def Observer.IgnoresValues : Prop := ∀ e v, o (.value e v) = pure ()

/-- Nothing is done about blocks. -/
def Observer.IgnoresBlocks : Prop := ∀ what, o (.block what) = pure ()

/-- Nothing is done about names. -/
def Observer.IgnoresNames : Prop := ∀ what, o (.name what) = pure ()

variable {o} [LawfulMonad m]

namespace Observer.IgnoresBlocks

variable (hblocks : o.IgnoresBlocks)
include hblocks

omit [MonadLiftT Lower m] in
theorem within_eq {α : Type} (f : m α) : Observed.within o f = f := by
  simp [Observed.within, hblocks _]

theorem addBlock_eq (role : Role) : Observed.addBlock o role = liftM (addBlock role) := by
  simp [Observed.addBlock, hblocks _]

theorem finish_eq (g : Guard) (t : Terminator) : Observed.finish o g t = liftM (finish g t) := by
  simp [Observed.finish, hblocks _]

theorem leave_eq [LawfulMonadLiftT Lower m] (g : Guard) (t : Terminator) (next : Nat) :
    Observed.leave o g t next = liftM (leave g t next) := by
  simp [Observed.leave, hblocks.finish_eq, hblocks _, leave]

end Observer.IgnoresBlocks

namespace Observer.IgnoresValues

variable [LawfulMonadLiftT Lower m] (hvalues : o.IgnoresValues)
include hvalues

theorem expr_eq (env : Environment) (e : Expr) :
    e.lowerObserved o env = liftM (e.lower env) := by
  induction e with
  | absent => rfl
  | literal kind text => simp [Expr.lowerObserved, Expr.lower, Observed.yield, hvalues _ _]
  | name n => simp [Expr.lowerObserved, Expr.lower, Observed.yield, hvalues _ _]
  | assign target value ih =>
    simp [Expr.lowerObserved, Expr.lower, Observed.yield, hvalues _ _, ih]
  | group inner ih => simp [Expr.lowerObserved, Expr.lower, Observed.yield, hvalues _ _, ih]
  | unary op operand ih =>
    simp [Expr.lowerObserved, Expr.lower, Observed.yield, hvalues _ _, ih]
  | binary op left right ihleft ihright =>
    simp [Expr.lowerObserved, Expr.lower, Observed.yield, hvalues _ _, ihleft, ihright]

theorem initialValue_eq (env : Environment) (type : Ty) (initial : Expr) :
    Observed.initialValue o env type initial = liftM (initialValue env type initial) := by
  unfold Observed.initialValue initialValue
  split <;> simp [hvalues.expr_eq]

theorem evaluateOptional_eq (env : Environment) (e : Expr) :
    Observed.evaluateOptional o env e = liftM (evaluateOptional env e) := by
  unfold Observed.evaluateOptional evaluateOptional
  split <;> simp [hvalues.expr_eq]

theorem declaration_eq (hnames : o.IgnoresNames) (env : Environment) (type : Ty) (name : String)
    (initial : Expr) :
    Observed.declaration o env type name initial = liftM (declaration env type name initial) := by
  simp [Observed.declaration, declaration, hnames _, hvalues.initialValue_eq]

variable (hblocks : o.IgnoresBlocks)
include hblocks

theorem branchOn_eq (env : Environment) (condition : Expr) (whenTrue whenFalse : Nat) :
    Observed.branchOn o env condition whenTrue whenFalse =
      liftM (branchOn env condition whenTrue whenFalse) := by
  simp [Observed.branchOn, branchOn, hvalues.expr_eq, hblocks.leave_eq]

theorem openArms_eq (env : Environment) (condition : Expr) (hasAlternative : Bool) :
    Observed.openArms o env condition hasAlternative =
      liftM (openArms env condition hasAlternative) := by
  cases hasAlternative <;>
    simp [Observed.openArms, openArms, hvalues.expr_eq, hblocks.leave_eq, hblocks.addBlock_eq]

theorem openWhile_eq (env : Environment) (condition : Expr) :
    Observed.openWhile o env condition = liftM (openWhile env condition) := by
  simp [Observed.openWhile, openWhile, hvalues.branchOn_eq hblocks, hblocks.leave_eq,
    hblocks.addBlock_eq]

theorem openFor_eq (env : Environment) (condition : Expr) :
    Observed.openFor o env condition = liftM (openFor env condition) := by
  have hbranch : ∀ whenTrue whenFalse,
      Observed.branchOnOptional o env condition whenTrue whenFalse =
        liftM (branchOnOptional env condition whenTrue whenFalse) := by
    intro whenTrue whenFalse
    unfold Observed.branchOnOptional branchOnOptional
    split <;> simp [hvalues.branchOn_eq hblocks, hblocks.leave_eq]
  simp [Observed.openFor, openFor, hbranch, hblocks.leave_eq, hblocks.addBlock_eq]

end Observer.IgnoresValues

end Lowering

end Binisaya
