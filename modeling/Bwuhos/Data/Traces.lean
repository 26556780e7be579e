import Bwuhos.Data.Transition
import Mathlib.Tactic.Common

namespace Bwuhos.Data.TransitionSystem

/-! # Traces

A system some of whose steps are seen from outside.  One system refines another when every
trace of it is a trace of the other, which a forward simulation shows.
-/

section

variable {State : Type u} {Label : Type v} {system : TransitionSystem State Label} {first middle last : State}
  {labels others : List Label}

theorem Run.single {label : Label} (taken : system.step first label last) : system.Run first [label] last :=
  .cons taken (.nil last)

theorem Run.append (before : system.Run first labels middle) (after : system.Run middle others last) :
    system.Run first (labels ++ others) last := by
  induction before with
  | nil => exact after
  | cons taken _ ih => exact .cons taken (ih after)

end

section

variable {Event : Type w}

/-- What is seen of some steps. -/
def visible (labels : List (Option Event)) : List Event := labels.filterMap id

theorem visible_cons (label : Option Event) (labels : List (Option Event)) :
    visible (label :: labels) = label.toList ++ visible labels := by
  cases label with
  | none => rfl
  | some event => rfl

theorem visible_append (labels others : List (Option Event)) :
    visible (labels ++ others) = visible labels ++ visible others := List.filterMap_append

variable {Concrete : Type u} {Abstract : Type v} {concrete : TransitionSystem Concrete (Option Event)}
  {abstract : TransitionSystem Abstract (Option Event)} {trace : List Event}

def Trace (system : TransitionSystem Concrete (Option Event)) (trace : List Event) : Prop :=
  ∃ first labels last, system.initial first ∧ system.Run first labels last ∧ visible labels = trace

/-- Every step of the concrete system is answered by a run of the abstract one. -/
structure Simulates (concrete : TransitionSystem Concrete (Option Event))
    (abstract : TransitionSystem Abstract (Option Event)) (related : Concrete → Abstract → Prop) : Prop where
  initial : ∀ first, concrete.initial first → ∃ start, abstract.initial start ∧ related first start
  step : ∀ before label after state, related before state → concrete.step before label after →
    ∃ labels next, abstract.Run state labels next ∧ visible labels = label.toList ∧ related after next

variable {related : Concrete → Abstract → Prop}

/-- The three ways to answer a step: not at all, by one like it, or by one that is not seen. -/
theorem answer_stutter {label : Option Event} (silent : label = none) {after : Concrete} {state : Abstract}
    (kept : related after state) :
    ∃ labels next, abstract.Run state labels next ∧ visible labels = label.toList ∧ related after next :=
  ⟨[], state, .nil state, by rw [silent]; rfl, kept⟩

theorem answer_same {label : Option Event} {after : Concrete} {state next : Abstract}
    (taken : abstract.step state label next) (kept : related after next) :
    ∃ labels next, abstract.Run state labels next ∧ visible labels = label.toList ∧ related after next :=
  ⟨[label], next, .single taken, by rw [visible_cons, visible]; exact List.append_nil _, kept⟩

theorem Simulates.run (simulates : Simulates concrete abstract related) {first last : Concrete}
    {labels : List (Option Event)} {start : Abstract} (begins : related first start)
    (run : concrete.Run first labels last) :
    ∃ others state, abstract.Run start others state ∧ visible others = visible labels ∧ related last state := by
  induction run generalizing start with
  | nil => exact ⟨[], start, .nil start, rfl, begins⟩
  | cons taken _ ih =>
      obtain ⟨answer, next, answered, seen, kept⟩ := simulates.step _ _ _ start begins taken
      obtain ⟨others, state, rest, same, ends⟩ := ih kept
      exact ⟨answer ++ others, state, answered.append rest, by rw [visible_append, visible_cons, seen, same], ends⟩

theorem Simulates.traces (simulates : Simulates concrete abstract related) (traced : concrete.Trace trace) :
    abstract.Trace trace := by
  obtain ⟨first, labels, last, starts, run, rfl⟩ := traced
  obtain ⟨start, begins, kept⟩ := simulates.initial first starts
  obtain ⟨others, state, ran, same, _⟩ := simulates.run kept run
  exact ⟨start, others, state, begins, ran, same⟩

/-- An invariant of the states of a system with what has been seen so far. -/
theorem Run.seen {first last : Concrete} {labels : List (Option Event)} (run : concrete.Run first labels last)
    (invariant : List Event → Concrete → Prop) {before : List Event} (start : invariant before first)
    (preserved : ∀ seen before label after, invariant seen before → concrete.step before label after →
      invariant (seen ++ label.toList) after) : invariant (before ++ visible labels) last := by
  induction run generalizing before with
  | nil =>
      rw [visible, List.filterMap_nil, List.append_nil]
      exact start
  | cons taken _ ih =>
      rw [visible_cons, ← List.append_assoc]
      exact ih (preserved before _ _ _ start taken)

end

end Bwuhos.Data.TransitionSystem
