import Bwuhos.Data.LinkedList
import Bwuhos.Data.Nested

namespace Bwuhos.Data.Program

/-! # Programs without locks

What such a program does alone it also does as part of a critical section, in any company.
-/

section

variable {Lock Fault State Inner Part Result Answer Next Carried Item : Type}

def LockFree : {Result : Type} → Program Lock Fault State Result → Prop
  | _, .lock _ | _, .unlock _ => False
  | _, .ret _ | _, .stop _ | _, .act _ => True
  | _, .andThen first second => LockFree first ∧ ∀ value, LockFree (second value)
  | _, .repeating body _ => ∀ carried, LockFree (body carried)

variable [DecidableEq Lock] {rank : Lock → Nat} {level : Nat}

/-- What a program does alone, from one state to another. -/
def Computes (timeout : Fault) (fuel : Nat) (program : Program Lock Fault State Result) (state : State)
    (result : Result) (final : State) : Prop :=
  ∀ held, program.run timeout fuel held state = .returned result held final

namespace Computes

variable {timeout : Fault} {fuel : Nat} {state middle final : State} {result : Result}

theorem pure (result : Result) (state : State) :
    Computes timeout fuel (Pure.pure result : Program Lock Fault State Result) state result state := fun _ => rfl

theorem get (view : State → Result) (state : State) :
    Computes timeout fuel (.get view : Program Lock Fault State Result) state (view state) state := fun _ => rfl

theorem modify (change : State → State) (state : State) :
    Computes timeout fuel (.modify change : Program Lock Fault State Unit) state () (change state) := fun _ => rfl

theorem act {step : State → Except Fault (Result × State)} (stepped : step state = .ok (result, final)) :
    Computes timeout fuel (.act step : Program Lock Fault State Result) state result final := by
  intro held
  simp only [run, Locked.act, stepped]

theorem bind {first : Program Lock Fault State Part} {second : Part → Program Lock Fault State Result} {value : Part}
    (begins : Computes timeout fuel first state value middle)
    (ends : Computes timeout fuel (second value) middle result final) :
    Computes timeout fuel (first >>= second) state result final := by
  intro held
  change Locked.andThen (first.run timeout fuel) _ held state = _
  rw [Locked.andThen, begins held]
  exact ends held

theorem zoom {view : State → Inner} {put : Inner → State → State} {program : Program Lock Fault Inner Result}
    {part : Inner} (lens : Lens view put) (computes : Computes timeout fuel program (view state) result part) :
    Computes timeout fuel (program.zoom view put) state result (put part state) := by
  intro held
  rw [run_zoom lens, Locked.zoom, computes held]

/-- The rest of a sequence starts where its first part ends. -/
theorem bind_run {first : Program Lock Fault State Part} {value : Part}
    (computes : Computes timeout fuel first state value middle) (rest : Part → Program Lock Fault State Result)
    (held : Lock → Bool) :
    (first >>= rest).run timeout fuel held state = (rest value).run timeout fuel held middle := by
  change Locked.andThen (first.run timeout fuel) _ held state = _
  rw [Locked.andThen, computes held]

theorem more {more : Nat} {program : Program Lock Fault State Result} (less : fuel ≤ more)
    (computes : Computes timeout fuel program state result final) :
    Computes timeout more program state result final := fun held => run_more less (computes held)

/-- A round of a loop that goes on, and the rounds after it. -/
theorem repeating_next {body : Carried → Program Lock Fault State (Carried ⊕ Result)} {carried next : Carried}
    {more : Nat} (round : Computes timeout fuel (body carried) state (.inl next) middle)
    (rest : Computes timeout more (.repeating body next) middle result final) :
    Computes timeout (max fuel more + 1) (.repeating body carried) state result final := by
  intro held
  change Locked.andThen ((body carried).run timeout (max fuel more + 1)) _ held state = _
  rw [Locked.andThen, round.more (Nat.le_succ_of_le (Nat.le_max_left _ _)) held]
  refine repeating_mono (fun carried _ _ _ _ _ => run_more ?_) (Nat.le_max_right fuel more) (rest held)
  exact Nat.le_succ_of_le (Nat.le_max_right fuel more)

theorem repeating_done {body : Carried → Program Lock Fault State (Carried ⊕ Result)} {carried : Carried}
    (round : Computes timeout fuel (body carried) state (.inr result) final) :
    Computes timeout (fuel + 1) (.repeating body carried) state result final := by
  intro held
  change Locked.andThen ((body carried).run timeout (fuel + 1)) _ held state = _
  rw [Locked.andThen, round.more (Nat.le_succ fuel) held]
  rfl

end Computes

theorem lock_run {timeout : Fault} {fuel : Nat} {mutex : Lock} {held : Lock → Bool} {state : State}
    (free : held mutex = false) (rest : Unit → Program Lock Fault State Result) :
    (.lock mutex >>= rest).run timeout fuel held state =
      (rest ()).run timeout fuel (Function.update held mutex true) state := by
  change Locked.andThen (.lock mutex) _ held state = _
  rw [Locked.andThen, Locked.lock, free]
  rfl

theorem unlock_run {timeout : Fault} {fuel : Nat} {mutex : Lock} {held : Lock → Bool} {state : State}
    (free : held mutex = false) :
    (.unlock mutex : Program Lock Fault State Unit).run timeout fuel (Function.update held mutex true) state =
      .returned () held state := by
  rw [run_unlock, Locked.unlock, Function.update_self, if_pos rfl, Function.update_idem, ← free,
    Function.update_eq_self]

variable {program : Program Lock Fault Part Result} {guard : Lock} {view : State → Part} {put : Part → State → State}
  {effect : Part → Answer → Part → Prop} {timeout : Fault} {fuel : Nat} {part last first : Part} {result : Result}
  {held after : Lock → Bool}

theorem LockFree.follows (free : LockFree program) (lens : Lens view put)
    (returned : program.run timeout fuel held part = .returned result after last) :
    Follows (sectionRules guard view effect) (program.zoom view put) (.inside first part) fun value stage =>
      value = result ∧ stage = .inside first last := by
  induction program generalizing held after part last with
  | ret value =>
      cases returned
      exact ⟨rfl, rfl⟩
  | stop fault => trivial
  | lock mutex => exact free.elim
  | unlock mutex => exact free.elim
  | act step =>
      intro state value final stepped current
      obtain ⟨⟨answer, next⟩, outcome, same⟩ := map_eq_ok stepped
      cases same
      rw [current] at outcome
      have ran := Locked.act_returned returned
      rw [outcome] at ran
      cases ran
      exact ⟨rfl, by rw [lens.view_put]⟩
  | andThen first second first_ih second_ih =>
      obtain ⟨value, between, middle, begins, ends⟩ := Locked.bind_returned returned
      refine (first_ih free.1 begins).mono fun value stage reached => ?_
      obtain ⟨rfl, rfl⟩ := reached
      exact second_ih value (free.2 value) ends
  | repeating body carried ih =>
      -- The rounds that are left give the result.
      refine ⟨fun carried stage => ∃ count held now, stage = .inside first now ∧
        Locked.repeating timeout (fun carried => run timeout fuel (body carried)) count carried held now =
          .returned result after last, ⟨fuel, held, part, rfl, returned⟩, ?_⟩
      intro carried stage holds
      obtain ⟨count, held, now, rfl, returned⟩ := holds
      cases count with
      | zero => cases returned
      | succ count =>
          obtain ⟨outcome, between, middle, round, rest⟩ := Locked.bind_returned returned
          refine (ih carried (free carried) round).mono fun value stage reached => ?_
          obtain ⟨rfl, rfl⟩ := reached
          cases value with
          | inl next => exact ⟨count, between, middle, rfl, rest⟩
          | inr value =>
              cases rest
              exact ⟨rfl, rfl⟩

theorem Computes.follows (computes : Computes timeout fuel program part result last) (free : LockFree program)
    (lens : Lens view put) (first : Part) :
    Follows (sectionRules guard view effect) (program.zoom view put) (.inside first part) fun value stage =>
      value = result ∧ stage = .inside first last :=
  free.follows lens (computes fun _ => false)

/-- What such a program has returned inside a section it returns alone, with enough rounds for its loops. -/
theorem LockFree.returns (free : LockFree program) (lens : Lens view put) (timeout : Fault) (first part : Part) :
    Follows (sectionRules guard view effect) (program.zoom view put) (.inside first part) fun value stage =>
      ∃ fuel last, Computes timeout fuel program part value last ∧ stage = .inside first last := by
  induction program generalizing part with
  | ret value => exact ⟨0, part, fun _ => rfl, rfl⟩
  | stop fault => trivial
  | lock mutex => exact free.elim
  | unlock mutex => exact free.elim
  | act step =>
      intro state value final stepped current
      obtain ⟨⟨answer, next⟩, outcome, same⟩ := map_eq_ok stepped
      cases same
      rw [current] at outcome
      exact ⟨0, next, .act outcome, by rw [lens.view_put]⟩
  | andThen first second first_ih second_ih =>
      refine (first_ih free.1 part).mono fun value stage reached => ?_
      obtain ⟨fuel, middle, begins, rfl⟩ := reached
      refine (second_ih value (free.2 value) middle).mono fun result stage reached => ?_
      obtain ⟨more, last, ends, rfl⟩ := reached
      exact ⟨max fuel more, last, .bind (begins.more (Nat.le_max_left _ _)) (ends.more (Nat.le_max_right _ _)), rfl⟩
  | repeating body carried ih =>
      -- What the rounds that are left compute, the whole loop does.
      refine ⟨fun next stage => ∃ now, stage = .inside first now ∧ ∀ fuel value last,
        Computes timeout fuel (.repeating body next) now value last →
          ∃ fuel, Computes timeout fuel (.repeating body carried) part value last,
        ⟨part, rfl, fun fuel _ _ computes => ⟨fuel, computes⟩⟩, ?_⟩
      intro next stage holds
      obtain ⟨now, rfl, rest⟩ := holds
      refine (ih next (free next) now).mono fun outcome stage reached => ?_
      obtain ⟨fuel, last, round, rfl⟩ := reached
      cases outcome with
      | inl again => exact ⟨last, rfl, fun more value final ends => rest _ value final (.repeating_next round ends)⟩
      | inr value =>
          obtain ⟨fuel, computes⟩ := rest _ value last (.repeating_done round)
          exact ⟨fuel, last, computes, rfl⟩

/-- A program without locks is nested at any level. -/
theorem LockFree.nested {program : Program Lock Fault State Result} (free : LockFree program) :
    Nested rank level (fun _ _ => True) program := by
  unfold Nested
  generalize ([] : List Lock) = locks
  induction program with
  | ret result => rfl
  | stop fault => trivial
  | lock mutex => exact free.elim
  | unlock mutex => exact free.elim
  | act step => exact fun state result final stepped => ⟨trivial, rfl⟩
  | andThen first second first_ih second_ih =>
      refine Follows.bind ((first_ih free.1).mono fun value reached same => ?_)
      subst same
      exact second_ih value (free.2 value)
  | repeating body carried ih =>
      refine ⟨fun _ reached => reached = locks, rfl, fun carried reached same => ?_⟩
      subst same
      refine Follows.mono (ih carried (free carried)) fun outcome reached same => ?_
      cases outcome with
      | inl next => exact same
      | inr result => exact same

end

section

variable {Lock Fault State Ptr Result : Type} [DecidableEq Lock] [DecidableEq Ptr]

/-- What a walk gives, or that it has run out of fuel. -/
def walked (timeout : Fault) (held : Lock → Bool) (state : State) : Option Result → LockOutcome Lock Fault State Result
  | none => .stopped timeout
  | some result => .returned result held state

variable {timeout : Fault} {fuel : Nat} {held : Lock → Bool} {state : State} {next : Ptr → Ptr} {null : Ptr}
  {visit : Ptr → Option (Option Result)} {done : Result} {body : Ptr → Program Lock Fault State (Ptr ⊕ Result)}

/-- A loop that visits one node in each round walks over the list. -/
theorem repeating_scan
    (ends : (body null).run timeout fuel held state = .returned (.inr done) held state)
    (visits : ∀ node, node ≠ null → (body node).run timeout fuel held state =
      walked timeout held state ((visit node).map fun found => found.elim (.inl (next node)) .inr)) (ptr : Ptr) :
    (repeating body ptr).run timeout fuel held state =
      walked timeout held state (LinkedList.scan next null visit done fuel ptr) := by
  have rounds (count : Nat) (ptr : Ptr) : Locked.repeating timeout (fun node => (body node).run timeout fuel) count ptr
      held state = walked timeout held state (LinkedList.scan next null visit done count ptr) := by
    induction count generalizing ptr with
    | zero => rfl
    | succ count ih =>
        change Locked.andThen ((body ptr).run timeout fuel) _ held state = _
        rw [LinkedList.scan]
        split
        · next last =>
            rw [Locked.andThen, last, ends]
            rfl
        · next more =>
            rw [Locked.andThen, visits ptr more]
            cases visit ptr with
            | none => rfl
            | some found =>
                cases found with
                | none => exact ih (next ptr)
                | some result => rfl
  exact rounds fuel ptr

end

end Bwuhos.Data.Program
