import Mathlib.Tactic.Common

namespace Bwuhos.Data

/-! # Loops

A loop repeats a body until the body gives a result.  The body may fail; a loop that
does not end within its fuel fails with `timeout`.
-/

theorem bind_eq_ok {Value : Type u} {Result : Type u} {Fault : Type v} {first : Except Fault Value}
    {second : Value → Except Fault Result} {result : Result} (returned : first >>= second = .ok result) :
    ∃ value, first = .ok value ∧ second value = .ok result := by
  cases first with
  | error fault => cases returned
  | ok value => exact ⟨value, rfl, returned⟩

/-- What is evaluated of a computation, seen from its result. -/
theorem ok_of_map_toOption {Value : Type u} {Result : Type v} {Fault : Type w} {first : Except Fault Value}
    {second : Value → Result} {result : Result} (evaluated : first.toOption.map second = some result) :
    ∃ value, first = .ok value ∧ second value = result := by
  cases first with
  | error fault => cases evaluated
  | ok value => exact ⟨value, rfl, Option.some.inj evaluated⟩

theorem map_eq_ok {Value : Type u} {Result : Type v} {Fault : Type w} {first : Except Fault Value}
    {second : Value → Result} {result : Result} (returned : first.map second = .ok result) :
    ∃ value, first = .ok value ∧ second value = result := by
  cases first with
  | error fault => cases returned
  | ok value => exact ⟨value, rfl, Except.ok.inj returned⟩

section

variable {State : Type u} {Result : Type v} {Fault : Type w}

def loop (timeout : Fault) (body : State → Except Fault (State ⊕ Result)) : Nat → State → Except Fault Result
  | 0, _ => .error timeout
  | fuel + 1, state =>
      match body state with
      | .error fault => .error fault
      | .ok (.inl next) => loop timeout body fuel next
      | .ok (.inr result) => .ok result

variable {timeout : Fault} {body : State → Except Fault (State ⊕ Result)} {state next : State} {result : Result}
  {fuel : Nat}

theorem loop_next (again : body state = .ok (.inl next)) :
    loop timeout body (fuel + 1) state = loop timeout body fuel next := by
  rw [loop, again]

theorem loop_done (ends : body state = .ok (.inr result)) : loop timeout body (fuel + 1) state = .ok result := by
  rw [loop, ends]

theorem loop_stopped {fault : Fault} (stops : body state = .error fault) :
    loop timeout body (fuel + 1) state = .error fault := by
  rw [loop, stops]

/-- A loop fails as its rounds do, or for want of fuel. -/
theorem loop_fails {faults : Fault → Prop} (expires : faults timeout)
    (fails : ∀ state fault, body state = .error fault → faults fault) {fault : Fault}
    (failed : loop timeout body fuel state = .error fault) : faults fault := by
  induction fuel generalizing state with
  | zero =>
      cases failed
      exact expires
  | succ fuel ih =>
      cases round : body state with
      | error reason =>
          rw [loop_stopped round] at failed
          obtain rfl : reason = fault := Except.error.inj failed
          exact fails state reason round
      | ok outcome =>
          cases outcome with
          | inl next => exact ih (loop_next round ▸ failed)
          | inr result =>
              rw [loop_done round] at failed
              cases failed

/-- A loop whose rounds all go on does not end. -/
theorem loop_endless (again : ∀ state, ∃ next, body state = .ok (.inl next)) :
    loop timeout body fuel state = .error timeout := by
  induction fuel generalizing state with
  | zero => rfl
  | succ fuel ih =>
      obtain ⟨next, round⟩ := again state
      rw [loop_next round, ih]

/-- A loop whose rounds are counted. -/
theorem loop_counted (states : Nat → State) {count : Nat}
    (again : ∀ done < count, body (states done) = .ok (.inl (states (done + 1))))
    (ends : body (states count) = .ok (.inr result)) (enough : count < fuel) :
    loop timeout body fuel (states 0) = .ok result := by
  induction count generalizing states fuel with
  | zero =>
      obtain ⟨fuel, rfl⟩ := Nat.exists_eq_add_one.mpr enough
      exact loop_done ends
  | succ count ih =>
      obtain ⟨fuel, rfl⟩ := Nat.exists_eq_add_one.mpr (Nat.zero_lt_of_lt enough)
      rw [loop_next (again 0 (Nat.succ_pos count))]
      exact ih (fun done => states (done + 1)) (fun done bound => again (done + 1) (Nat.succ_lt_succ bound)) ends
        (Nat.lt_of_succ_lt_succ enough)

/-- What holds whenever a loop returns, if every round keeps the invariant. -/
theorem loop_partial (invariant : State → Prop) (post : Result → Prop)
    (kept : ∀ state next, invariant state → body state = .ok (.inl next) → invariant next)
    (ends : ∀ state result, invariant state → body state = .ok (.inr result) → post result)
    (start : invariant state) (returned : loop timeout body fuel state = .ok result) : post result := by
  induction fuel generalizing state with
  | zero => cases returned
  | succ fuel ih =>
      cases round : body state with
      | error fault =>
          rw [loop, round] at returned
          cases returned
      | ok outcome =>
          cases outcome with
          | inl next =>
              rw [loop_next round] at returned
              exact ih (kept state next start round) returned
          | inr value =>
              rw [loop_done round] at returned
              cases returned
              exact ends _ _ start round

/-- A computation that gives `result` from some fuel on, and runs out of any less. -/
def Settles (timeout : Fault) (run : Nat → Except Fault Result) (result : Result) : Prop :=
  ∃ needed, ∀ fuel, run fuel = if needed ≤ fuel then .ok result else .error timeout

theorem Settles.now : Settles timeout (fun _ => .ok result) result :=
  ⟨0, fun fuel => (if_pos (Nat.zero_le fuel)).symm⟩

theorem Settles.returns {run : Nat → Except Fault Result} (settles : Settles timeout run result) :
    ∃ fuel, run fuel = .ok result := by
  obtain ⟨needed, runs⟩ := settles
  exact ⟨needed, (runs needed).trans (if_pos (Nat.le_refl needed))⟩

theorem Settles.unique {run : Nat → Except Fault Result} {other : Result} (settles : Settles timeout run result)
    (returned : run fuel = .ok other) : other = result := by
  obtain ⟨needed, runs⟩ := settles
  rw [runs fuel] at returned
  split at returned
  case isTrue => exact (Except.ok.inj returned).symm
  case isFalse => cases returned

theorem settles_loop_done (ends : body state = .ok (.inr result)) :
    Settles timeout (fun fuel => loop timeout body fuel state) result := by
  refine ⟨1, fun fuel => ?_⟩
  cases fuel with
  | zero => rfl
  | succ fuel => exact (loop_done ends).trans (if_pos (Nat.succ_le_succ (Nat.zero_le fuel))).symm

theorem settles_loop_next (again : body state = .ok (.inl next))
    (settles : Settles timeout (fun fuel => loop timeout body fuel next) result) :
    Settles timeout (fun fuel => loop timeout body fuel state) result := by
  obtain ⟨needed, runs⟩ := settles
  refine ⟨needed + 1, fun fuel => ?_⟩
  cases fuel with
  | zero => rfl
  | succ fuel =>
      refine (loop_next again).trans ((runs fuel).trans ?_)
      simp only [Nat.succ_le_succ_iff]

/-- Some rounds of a loop, none of which is its last. -/
inductive Rounds (body : State → Except Fault (State ⊕ Result)) : State → State → Prop
  | refl (state : State) : Rounds body state state
  | next {state next after : State} (again : body state = .ok (.inl next)) (rest : Rounds body next after) :
      Rounds body state after

theorem Rounds.settles {after : State} (rounds : Rounds body state after)
    (settles : Settles timeout (fun fuel => loop timeout body fuel after) result) :
    Settles timeout (fun fuel => loop timeout body fuel state) result := by
  induction rounds with
  | refl => exact settles
  | next again _ ih => exact settles_loop_next again (ih settles)

theorem Rounds.returned {after : State} (rounds : Rounds body state after)
    (returned : loop timeout body fuel state = .ok result) : ∃ left, loop timeout body left after = .ok result := by
  induction rounds generalizing fuel with
  | refl => exact ⟨fuel, returned⟩
  | next again _ ih =>
      cases fuel with
      | zero => cases returned
      | succ fuel => exact ih (loop_next again ▸ returned)

end

theorem Settles.bind {Value Result : Type u} {Fault : Type v} {timeout : Fault} {first : Nat → Except Fault Value}
    {value : Value} {second : Nat → Value → Except Fault Result} {result : Result}
    (settles : Settles timeout first value)
    (rest : Settles timeout (fun fuel => second fuel value) result) :
    Settles timeout (fun fuel => first fuel >>= second fuel) result := by
  obtain ⟨before, firstRuns⟩ := settles
  obtain ⟨after, secondRuns⟩ := rest
  refine ⟨max before after, fun fuel => ?_⟩
  simp only [firstRuns fuel, Nat.max_le]
  by_cases enough : before ≤ fuel
  · rw [if_pos enough]
    exact (secondRuns fuel).trans (by simp only [enough, true_and])
  · rw [if_neg enough, if_neg fun both => enough both.1]
    rfl

end Bwuhos.Data
