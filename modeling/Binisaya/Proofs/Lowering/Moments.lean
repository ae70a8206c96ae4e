import Binisaya.Proofs.Lowering.Observed

/-!
# Lowering with a record

`lowerRecorded p` lowers a program and keeps a record of what happens to the blocks on the way: each
time that a block is ended, and, before and after each statement, the whole main function so far
together with the blocks that the enclosing statements are still to fill.  Main statement: but for
the record it does what lowering does.
-/

namespace Binisaya

open Llvm

namespace Lowering

/-- Something that happens while a program is lowered. -/
inductive Moment where
  /-- A statement begins or has just been lowered.  The blocks in `waiting` are those that the
  statements around it are still to fill. -/
  | boundary (b : Builder) (waiting : List Nat)
  /-- A block is ended, whether or not it has been ended before. -/
  | ending (block : Nat) (t : Terminator)
  deriving DecidableEq, Repr

/-- The blocks that have been ended, each as often as that has happened, and the ends that they were
to get. -/
def endings (record : List Moment) : List (Nat × Terminator) :=
  record.filterMap fun
    | .ending block t => some (block, t)
    | .boundary _ _ => none

/-- What has happened so far, and the blocks that have been added and not been filled yet, the latest
first. -/
structure Record where
  moments : List Moment
  waiting : List Nat

/-- Steps of lowering with a record. -/
abbrev Recorded (α : Type) := StateT Record Lower α

namespace Record

/-- Enters a moment. -/
def note (r : Record) (what : Moment) : Record := { r with moments := r.moments ++ [what] }

/-- The record after a notice in the given state. -/
def after (b : Builder) (r : Record) : BlockNotice → Record
  | .boundary => r.note (.boundary b r.waiting)
  | .added n => { r with waiting := n :: r.waiting }
  | .ending t => r.note (.ending b.current t)
  | .filling n => { r with waiting := r.waiting.erase n }

end Record

/-- Keeps the record. -/
def recorder : Observer Recorded
  | .value _ _ => pure ()
  | .block what => fun r b => .ok (((), r.after b what), b)
  | .name _ => pure ()

theorem recorder_ignoresValues : recorder.IgnoresValues := fun _ _ => rfl

theorem recorder_ignoresNames : recorder.IgnoresNames := fun _ => rfl

end Lowering

open Lowering

/-- The main function of a program when lowering ends, and the record. -/
def lowerRecorded (p : Program) : Except LoweringFailure (Builder × List Moment) :=
  (lowerObserved recorder p ⟨[], []⟩ .initial).map fun x => (x.2, x.1.2.moments)

/-! ### The record changes nothing -/

namespace Lowering.Recorded

variable {α β : Type}

theorem bind_run (g : Recorded α) (k : α → Recorded β) (r : Record) (b : Builder) :
    (g >>= k) r b = (g r b).bind fun x => k x.1.1 x.1.2 x.2 := rfl

theorem lift_run (f : Lower α) (r : Record) (b : Builder) :
    (liftM f : Recorded α) r b = (f b).map fun x => ((x.1, r), x.2) := by
  rw [show (liftM f : Recorded α) r b = (f >>= fun a => Pure.pure (a, r)) b from rfl,
    Lower.bind_run]
  cases f b <;> rfl

/-- But for the record, these steps are those. -/
def Erases (α : Type) (g : Recorded α) (f : Lower α) : Prop :=
  ∀ r b, (g r b).map (fun x => (x.1.1, x.2)) = f b

theorem erasure : Erasure recorder Erases where
  pure _ _ _ := rfl
  lift f r b := by
    rw [lift_run]
    cases f b <;> rfl
  bind := by
    intro α β g f k h hg hk r b
    have hfirst := hg r b
    rw [bind_run]
    cases hrun : g r b with
    | error e =>
      rw [hrun] at hfirst
      exact (Lower.bind_of_error hfirst.symm h).symm
    | ok x =>
      rw [hrun] at hfirst
      rw [Lower.bind_of_ok hfirst.symm]
      exact hk x.1.1 x.1.2 x.2
  notice what _ _ := by cases what <;> rfl

end Lowering.Recorded

/-- But for the record, lowering with a record is lowering. -/
theorem lowerRecorded_module (p : Program) :
    (lowerRecorded p).map (fun x => x.1.module) = lower p := by
  rw [lower_eq, ← Recorded.erasure.program p ⟨[], []⟩ .initial]
  unfold lowerRecorded
  cases lowerObserved recorder p ⟨[], []⟩ Builder.initial <;> rfl

end Binisaya
