namespace Bwuhos.Data

/-! # Labelled transition systems

Invariants of a program over whole runs are proved in two goals: the initial
states satisfy the invariant, and every step keeps it.
-/

structure TransitionSystem (State : Type u) (Label : Type v) where
  initial : State → Prop
  step : State → Label → State → Prop

namespace TransitionSystem

variable {State : Type u} {Label : Type v} {system : TransitionSystem State Label}

inductive Reachable (system : TransitionSystem State Label) : State → Prop
  | initial {state : State} (starts : system.initial state) : Reachable system state
  | step {before after : State} {label : Label} (reached : Reachable system before)
      (taken : system.step before label after) : Reachable system after

theorem Reachable.invariant {state : State} (reached : system.Reachable state) (invariant : State → Prop)
    (base : ∀ state, system.initial state → invariant state)
    (preserved : ∀ before label after, system.Reachable before → invariant before →
      system.step before label after → invariant after) :
    invariant state := by
  induction reached with
  | initial starts => exact base _ starts
  | step reached taken ih => exact preserved _ _ _ reached ih taken

inductive Run (system : TransitionSystem State Label) : State → List Label → State → Prop
  | nil (state : State) : Run system state [] state
  | cons {first middle last : State} {label : Label} {labels : List Label}
      (taken : system.step first label middle) (rest : Run system middle labels last) :
      Run system first (label :: labels) last

theorem Reachable.run {first last : State} {labels : List Label} (reached : system.Reachable first)
    (run : system.Run first labels last) : system.Reachable last := by
  induction run with
  | nil => exact reached
  | cons taken _ ih => exact ih (.step reached taken)

theorem Run.invariant {first last : State} {labels : List Label} (run : system.Run first labels last)
    (invariant : State → Prop) (start : invariant first)
    (preserved : ∀ before label after, invariant before → system.step before label after → invariant after) :
    invariant last := by
  induction run with
  | nil => exact start
  | cons taken _ ih => exact ih (preserved _ _ _ start taken)

def restrict (system : TransitionSystem State Label) (allowed : State → Label → Prop) :
    TransitionSystem State Label where
  initial := system.initial
  step before label after := system.step before label after ∧ allowed before label

theorem Reachable.of_restrict {allowed : State → Label → Prop} {state : State}
    (reached : (system.restrict allowed).Reachable state) : system.Reachable state := by
  induction reached with
  | initial starts => exact .initial starts
  | step _ taken ih => exact .step ih taken.1

end TransitionSystem

end Bwuhos.Data
