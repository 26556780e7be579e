import Bwuhos.Data.Locks

namespace Bwuhos.Data

/-! # Programs

Computations with locks that processors run step by step, so that between any two steps of
one the others may take theirs.
-/

inductive Program (Lock Fault State : Type) : Type → Type 1 where
  | ret {Result : Type} (result : Result) : Program Lock Fault State Result
  | stop {Result : Type} (fault : Fault) : Program Lock Fault State Result
  | lock (mutex : Lock) : Program Lock Fault State Unit
  | unlock (mutex : Lock) : Program Lock Fault State Unit
  /-- One access to the state, which no other comes between. -/
  | act {Result : Type} (step : State → Except Fault (Result × State)) : Program Lock Fault State Result
  | andThen {Part Result : Type} (first : Program Lock Fault State Part)
      (second : Part → Program Lock Fault State Result) : Program Lock Fault State Result
  /-- A loop, whose body goes on with what it carries or gives a result. -/
  | repeating {Carried Result : Type} (body : Carried → Program Lock Fault State (Carried ⊕ Result))
      (carried : Carried) : Program Lock Fault State Result

namespace Program

variable {Lock Fault State Inner Part Result Next Carried Item : Type}

instance : Monad (Program Lock Fault State) where
  pure := ret
  bind := andThen

def get (view : State → Result) : Program Lock Fault State Result := act fun state => .ok (view state, state)

def modify (change : State → State) : Program Lock Fault State Unit := act fun state => .ok ((), change state)

def forEach (body : Item → Program Lock Fault State Unit) : List Item → Program Lock Fault State Unit
  | [] => ret ()
  | item :: rest => do
      body item
      forEach body rest

/-- A program on a part of the state. -/
def zoom (view : State → Inner) (put : Inner → State → State) :
    {Result : Type} → Program Lock Fault Inner Result → Program Lock Fault State Result
  | _, .ret result => .ret result
  | _, .stop fault => .stop fault
  | _, .lock mutex => .lock mutex
  | _, .unlock mutex => .unlock mutex
  | _, .act step => .act fun state => (step (view state)).map fun result => (result.1, put result.2 state)
  | _, .andThen first second => .andThen (zoom view put first) fun value => zoom view put (second value)
  | _, .repeating body carried => .repeating (fun carried => zoom view put (body carried)) carried

section

variable [DecidableEq Lock]

/-- The program with no other beside it, and with so many rounds for each loop. -/
def run (timeout : Fault) (fuel : Nat) :
    {Result : Type} → Program Lock Fault State Result → Locked Lock Fault State Result
  | _, .ret result => .ret result
  | _, .stop fault => .stop fault
  | _, .lock mutex => .lock mutex
  | _, .unlock mutex => .unlock mutex
  | _, .act step => .act step
  | _, .andThen first second => .andThen (run timeout fuel first) fun value => run timeout fuel (second value)
  | _, .repeating body carried => .repeating timeout (fun carried => run timeout fuel (body carried)) fuel carried

variable {timeout : Fault} {fuel : Nat}

@[simp] theorem run_pure (result : Result) :
    (pure result : Program Lock Fault State Result).run timeout fuel = pure result := rfl

@[simp] theorem run_bind (first : Program Lock Fault State Result) (second : Result → Program Lock Fault State Next) :
    (first >>= second).run timeout fuel = first.run timeout fuel >>= fun value => (second value).run timeout fuel := rfl

@[simp] theorem run_stop (fault : Fault) :
    (stop fault : Program Lock Fault State Result).run timeout fuel = .stop fault := rfl

@[simp] theorem run_lock (mutex : Lock) :
    (lock mutex : Program Lock Fault State Unit).run timeout fuel = .lock mutex := rfl

@[simp] theorem run_unlock (mutex : Lock) :
    (unlock mutex : Program Lock Fault State Unit).run timeout fuel = .unlock mutex := rfl

@[simp] theorem run_act (step : State → Except Fault (Result × State)) :
    (act step : Program Lock Fault State Result).run timeout fuel = .act step := rfl

@[simp] theorem run_get (view : State → Result) :
    (get view : Program Lock Fault State Result).run timeout fuel = .get view := rfl

@[simp] theorem run_modify (change : State → State) :
    (modify change : Program Lock Fault State Unit).run timeout fuel = .modify change := rfl

@[simp] theorem run_repeating (body : Carried → Program Lock Fault State (Carried ⊕ Result)) (carried : Carried) :
    (repeating body carried).run timeout fuel =
      .repeating timeout (fun carried => (body carried).run timeout fuel) fuel carried := rfl

@[simp] theorem run_ite (condition : Prop) [Decidable condition] (one other : Program Lock Fault State Result) :
    (if condition then one else other).run timeout fuel =
      if condition then one.run timeout fuel else other.run timeout fuel := by
  split <;> rfl

@[simp] theorem run_forEach (body : Item → Program Lock Fault State Unit) (items : List Item) :
    (forEach body items).run timeout fuel = .forEach (fun item => (body item).run timeout fuel) items := by
  induction items with
  | nil => rfl
  | cons item rest ih =>
      simp only [forEach, Locked.forEach, run_bind, ih]

omit [DecidableEq Lock] in
theorem bind_assoc_locked (call : Locked Lock Fault State Part) (second : Part → Locked Lock Fault State Result)
    (third : Result → Locked Lock Fault State Next) :
    call >>= second >>= third = call >>= fun value => second value >>= third := by
  funext held state
  simp only [bind, Locked.andThen]
  cases call held state <;> rfl

omit [DecidableEq Lock] in
theorem repeating_mono {body wider : Carried → Locked Lock Fault State (Carried ⊕ Result)} {count rounds : Nat}
    (agree : ∀ carried held state outcome after final, body carried held state = .returned outcome after final →
      wider carried held state = .returned outcome after final) (less : count ≤ rounds) {carried : Carried}
    {held after : Lock → Bool} {state final : State} {result : Result}
    (returned : Locked.repeating timeout body count carried held state = .returned result after final) :
    Locked.repeating timeout wider rounds carried held state = .returned result after final := by
  induction count generalizing carried held state rounds with
  | zero => cases returned
  | succ count ih =>
      obtain ⟨rounds, rfl⟩ := Nat.exists_eq_succ_of_ne_zero (Nat.ne_zero_of_lt less)
      obtain ⟨outcome, between, middle, round, rest⟩ := Locked.bind_returned returned
      change Locked.andThen (wider carried) _ held state = _
      rw [Locked.andThen, agree _ _ _ _ _ _ round]
      cases outcome with
      | inl next => exact ih (Nat.le_of_succ_le_succ less) rest
      | inr result => exact rest

/-- More rounds for the loops change nothing of what has returned. -/
theorem run_more {program : Program Lock Fault State Result} {more : Nat} (less : fuel ≤ more)
    {held after : Lock → Bool} {state final : State} {result : Result}
    (returned : program.run timeout fuel held state = .returned result after final) :
    program.run timeout more held state = .returned result after final := by
  induction program generalizing held state after final with
  | ret result => exact returned
  | stop fault => exact returned
  | lock mutex => exact returned
  | unlock mutex => exact returned
  | act step => exact returned
  | andThen first second first_ih second_ih =>
      obtain ⟨value, between, middle, begins, ends⟩ := Locked.bind_returned returned
      change Locked.andThen (first.run timeout more) _ held state = _
      rw [Locked.andThen, first_ih begins]
      exact second_ih value ends
  | repeating body carried ih => exact repeating_mono (fun carried _ _ _ _ _ round => ih carried round) less returned

/-- A part that is put back is the part that is seen. -/
structure Lens (view : State → Inner) (put : Inner → State → State) : Prop where
  view_put : ∀ part state, view (put part state) = part
  put_view : ∀ state, put (view state) state = state
  put_put : ∀ part other state, put part (put other state) = put part state

variable {view : State → Inner} {put : Inner → State → State}

omit [DecidableEq Lock] in
theorem zoom_ret (lens : Lens view put) (result : Result) :
    (Locked.ret result : Locked Lock Fault State Result) = .zoom view put (.ret result) := by
  funext held state
  simp only [Locked.ret, Locked.zoom, lens.put_view]

omit [DecidableEq Lock] in
theorem zoom_andThen (lens : Lens view put) (first : Locked Lock Fault Inner Result)
    (second : Result → Locked Lock Fault Inner Next) :
    Locked.andThen (.zoom view put first) (fun value => .zoom view put (second value)) =
      (.zoom view put (.andThen first second) : Locked Lock Fault State Next) := by
  funext held state
  simp only [Locked.andThen, Locked.zoom]
  cases first held (view state) with
  | blocked => rfl
  | stopped fault => rfl
  | returned value between part =>
      simp only [lens.view_put]
      cases second value between part with
      | blocked => rfl
      | stopped fault => rfl
      | returned result held last => simp only [lens.put_put]

omit [DecidableEq Lock] in
theorem zoom_repeating (lens : Lens view put) (body : Carried → Locked Lock Fault Inner (Carried ⊕ Result))
    (count : Nat) (carried : Carried) :
    Locked.repeating timeout (fun carried => .zoom view put (body carried)) count carried =
      (.zoom view put (.repeating timeout body count carried) : Locked Lock Fault State Result) := by
  induction count generalizing carried with
  | zero => rfl
  | succ count ih =>
      refine Eq.trans ?_ (zoom_andThen lens (body carried) _)
      simp only [Locked.repeating]
      refine congrArg (Locked.andThen _) (funext fun outcome => ?_)
      cases outcome with
      | inl next => exact ih next
      | inr result => exact zoom_ret lens result

theorem run_zoom (lens : Lens view put) (program : Program Lock Fault Inner Result) :
    (program.zoom view put).run timeout fuel = .zoom view put (program.run timeout fuel) := by
  induction program with
  | ret result => exact zoom_ret lens result
  | stop fault => rfl
  | lock mutex =>
      funext held state
      simp only [zoom, run, Locked.lock, Locked.zoom]
      split <;> simp_all [lens.put_view]
  | unlock mutex =>
      funext held state
      simp only [zoom, run, Locked.unlock, Locked.zoom]
      split <;> simp_all [lens.put_view]
  | act step =>
      funext held state
      simp only [zoom, run, Locked.act, Locked.zoom]
      cases step (view state) with
      | error fault => rfl
      | ok result => rfl
  | andThen first second first_ih second_ih =>
      simp only [zoom, run, first_ih, second_ih]
      exact zoom_andThen lens _ _
  | repeating body carried ih =>
      simp only [zoom, run, ih]
      exact zoom_repeating lens _ _ _

end

/-- What is left of a sequence whose first part is over. -/
def finish {Part Result : Type} (second : Part → Program Lock Fault State Result) :
    Program Lock Fault State Part → Option (Program Lock Fault State Result)
  | .ret value => some (second value)
  | .stop fault => some (.stop fault)
  | _ => none

section

variable [DecidableEq Lock]

/-- The locks, the state and the rest of the program after one step, if it can take one. -/
def step (held : Lock → Bool) (state : State) :
    {Result : Type} → Program Lock Fault State Result →
      Option ((Lock → Bool) × State × Program Lock Fault State Result)
  | _, .ret _ | _, .stop _ => none
  | _, .lock mutex => if held mutex then none else some (Function.update held mutex true, state, .ret ())
  | _, .unlock mutex => if held mutex then some (Function.update held mutex false, state, .ret ()) else none
  | _, .act step =>
      match step state with
      | .error fault => some (held, state, .stop fault)
      | .ok result => some (held, result.2, .ret result.1)
  | _, .andThen first second =>
      match finish second first with
      | some rest => some (held, state, rest)
      | none => (step held state first).map fun after => (after.1, after.2.1, .andThen after.2.2 second)
  | _, .repeating body carried =>
      some (held, state, .andThen (body carried) fun outcome =>
        match outcome with
        | .inl next => .repeating body next
        | .inr result => .ret result)

inductive Steps : (Lock → Bool) → State → Program Lock Fault State Result →
    (Lock → Bool) → State → Program Lock Fault State Result → Prop
  | refl (held : Lock → Bool) (state : State) (program : Program Lock Fault State Result) :
      Steps held state program held state program
  | next {held between after : Lock → Bool} {state middle final : State}
      {program rest last : Program Lock Fault State Result}
      (stepped : program.step held state = some (between, middle, rest))
      (steps : Steps between middle rest after final last) : Steps held state program after final last

variable {held between after : Lock → Bool} {state middle final : State} {timeout : Fault} {fuel : Nat}

theorem Steps.trans {program rest last : Program Lock Fault State Result}
    (first : Steps held state program between middle rest) (second : Steps between middle rest after final last) :
    Steps held state program after final last := by
  induction first with
  | refl => exact second
  | next stepped _ ih => exact .next stepped (ih second)

theorem Steps.single {program rest : Program Lock Fault State Result}
    (stepped : program.step held state = some (after, final, rest)) : Steps held state program after final rest :=
  .next stepped (.refl _ _ _)

theorem step_finish {first rest : Program Lock Fault State Part} {second : Part → Program Lock Fault State Result}
    (stepped : first.step held state = some (after, final, rest)) :
    (andThen first second).step held state = some (after, final, andThen rest second) := by
  have open_ : finish second first = none := by
    cases first with
    | ret value => cases stepped
    | stop fault => cases stepped
    | _ => rfl
  simp only [step, open_, stepped, Option.map_some]

theorem Steps.andThen {first rest : Program Lock Fault State Part} (second : Part → Program Lock Fault State Result)
    (steps : Steps held state first after final rest) :
    Steps held state (.andThen first second) after final (.andThen rest second) := by
  induction steps with
  | refl => exact .refl _ _ _
  | next stepped _ ih => exact .next (step_finish stepped) ih

/-- Two programs one after the other. -/
theorem Steps.sequence {first : Program Lock Fault State Part} {second : Part → Program Lock Fault State Result}
    {value : Part} {last : Program Lock Fault State Result}
    (begins : Steps held state first between middle (.ret value))
    (ends : Steps between middle (second value) after final last) :
    Steps held state (.andThen first second) after final last :=
  (begins.andThen second).trans (.next rfl ends)

/-- A program that returns on one processor does so step by step. -/
theorem run_steps {program : Program Lock Fault State Result} {result : Result}
    (returned : program.run timeout fuel held state = .returned result after final) :
    Steps held state program after final (.ret result) := by
  induction program generalizing held state after final with
  | ret value =>
      cases returned
      exact .refl _ _ _
  | stop fault => cases returned
  | lock mutex =>
      simp only [run, Locked.lock] at returned
      split at returned
      · cases returned
      · next free =>
          cases returned
          exact .single (by rw [step, if_neg free])
  | unlock mutex =>
      simp only [run, Locked.unlock] at returned
      split at returned
      · next taken =>
          cases returned
          exact .single (by rw [step, if_pos taken])
      · cases returned
  | act step =>
      simp only [run, Locked.act] at returned
      split at returned
      · cases returned
      · next value stepped =>
          cases returned
          exact .single (by rw [Program.step, stepped])
  | andThen first second first_ih second_ih =>
      obtain ⟨value, between, middle, begins, ends⟩ := Locked.bind_returned returned
      exact (first_ih begins).sequence (second_ih value ends)
  | repeating body carried ih =>
      have rounds (count : Nat) : ∀ carried held state,
          Locked.repeating timeout (fun carried => (body carried).run timeout fuel) count carried held state =
            .returned result after final →
            Steps held state (.repeating body carried) after final (.ret result) := by
        induction count with
        | zero => exact fun _ _ _ never => by cases never
        | succ count next =>
            intro carried held state returned
            obtain ⟨outcome, between, middle, round, rest⟩ := Locked.bind_returned returned
            refine .next rfl ((ih carried round).sequence ?_)
            cases outcome with
            | inl again => exact next again between middle rest
            | inr value =>
                cases rest
                exact .refl _ _ _
      exact rounds fuel carried held state returned

end

end Program

end Bwuhos.Data
