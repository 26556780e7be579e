import Mathlib.Logic.Function.Basic

namespace Bwuhos.Data

/-! # Locks

Computations that take and give back locks.  A step that takes a held lock, or gives back
a free one, blocks for ever.  Locks are ranked, and a computation that holds one takes only
locks of lower ranks.
-/

inductive LockOutcome (Lock Fault State Result : Type) where
  | blocked
  | stopped (fault : Fault)
  | returned (result : Result) (held : Lock → Bool) (state : State)

/-- The computation does not block.  It stops only with one of these faults, and where it
returns, exactly these locks are held. -/
inductive LockOutcome.EndsWith {Lock Fault State Result : Type} (faults : Fault → Prop) (held : Lock → Bool) :
    LockOutcome Lock Fault State Result → Prop
  | stopped (fault : Fault) (allowed : faults fault) : EndsWith faults held (.stopped fault)
  | returned (result : Result) (state : State) : EndsWith faults held (.returned result held state)

def Locked (Lock Fault State Result : Type) : Type := (Lock → Bool) → State → LockOutcome Lock Fault State Result

namespace Locked

variable {Lock Fault State Part Result Next Carried Item : Type}

def ret (result : Result) : Locked Lock Fault State Result := fun held state => .returned result held state

def andThen (first : Locked Lock Fault State Result) (second : Result → Locked Lock Fault State Next) :
    Locked Lock Fault State Next := fun held state =>
  match first held state with
  | .blocked => .blocked
  | .stopped fault => .stopped fault
  | .returned result held state => second result held state

instance : Monad (Locked Lock Fault State) where
  pure := ret
  bind := andThen

def lock [DecidableEq Lock] (mutex : Lock) : Locked Lock Fault State Unit := fun held state =>
  if held mutex then .blocked else .returned () (Function.update held mutex true) state

def unlock [DecidableEq Lock] (mutex : Lock) : Locked Lock Fault State Unit := fun held state =>
  if held mutex then .returned () (Function.update held mutex false) state else .blocked

/-- A step that touches no lock. -/
def act (step : State → Except Fault (Result × State)) : Locked Lock Fault State Result := fun held state =>
  match step state with
  | .error fault => .stopped fault
  | .ok result => .returned result.1 held result.2

def stop (fault : Fault) : Locked Lock Fault State Result := fun _ _ => .stopped fault

def get (view : State → Result) : Locked Lock Fault State Result := act fun state => .ok (view state, state)

def modify (change : State → State) : Locked Lock Fault State Unit := act fun state => .ok ((), change state)

/-- A computation on a part of the state. -/
def zoom (view : State → Part) (put : Part → State → State) (call : Locked Lock Fault Part Result) :
    Locked Lock Fault State Result := fun held state =>
  match call held (view state) with
  | .blocked => .blocked
  | .stopped fault => .stopped fault
  | .returned result held part => .returned result held (put part state)

/-- Repeat a computation until it gives a result, or stop with `timeout`. -/
def repeating (timeout : Fault) (body : Carried → Locked Lock Fault State (Carried ⊕ Result)) :
    Nat → Carried → Locked Lock Fault State Result
  | 0, _ => stop timeout
  | fuel + 1, carried => do
      let outcome ← body carried
      match outcome with
      | .inl next => repeating timeout body fuel next
      | .inr result => ret result

def forEach (body : Item → Locked Lock Fault State Unit) : List Item → Locked Lock Fault State Unit
  | [] => ret ()
  | item :: rest => do
      body item
      forEach body rest

/-- A computation between the taking of a lock and its giving back. -/
def holding [DecidableEq Lock] (mutex : Lock) (body : Locked Lock Fault State Result) :
    Locked Lock Fault State Result := do
  lock mutex
  let result ← body
  unlock mutex
  return result

/-- With the locks of the lower ranks free, the computation gives back what it takes. -/
def Balanced (faults : Fault → Prop) (rank : Lock → Nat) (level : Nat)
    (call : Locked Lock Fault State Result) : Prop :=
  ∀ held state, (∀ other, rank other < level → held other = false) → (call held state).EndsWith faults held

/-- Holding a lock, and with those of lower ranks free, the computation gives back this
lock and what it takes. -/
def Releases [DecidableEq Lock] (faults : Fault → Prop) (rank : Lock → Nat) (mutex : Lock)
    (call : Locked Lock Fault State Result) : Prop :=
  ∀ held state, held mutex = true → (∀ other, rank other < rank mutex → held other = false) →
    (call held state).EndsWith faults (Function.update held mutex false)

/-- What the computation returns has the property. -/
def Yields (post : Result → Prop) (call : Locked Lock Fault State Result) : Prop :=
  ∀ held state result after final, call held state = .returned result after final → post result

/-- A return of the computation leaves this part of the state as it is. -/
def Keeps (view : State → Part) (call : Locked Lock Fault State Result) : Prop :=
  ∀ held state result after final, call held state = .returned result after final → view final = view state

variable {faults : Fault → Prop} {rank : Lock → Nat} {level : Nat} {post : Result → Prop}
  {first : Locked Lock Fault State Result} {second : Result → Locked Lock Fault State Next}

theorem bind_returned {held after : Lock → Bool} {state final : State} {result : Next}
    (returned : (first >>= second) held state = .returned result after final) :
    ∃ value between middle, first held state = .returned value between middle ∧
      second value between middle = .returned result after final := by
  change andThen first second held state = .returned result after final at returned
  unfold andThen at returned
  split at returned
  · cases returned
  · cases returned
  · next value between middle outcome => exact ⟨value, between, middle, outcome, returned⟩

theorem zoom_returned {view : State → Part} {put : Part → State → State} {call : Locked Lock Fault Part Result}
    {held after : Lock → Bool} {state final : State} {result : Result}
    (returned : zoom view put call held state = .returned result after final) :
    ∃ part, call held (view state) = .returned result after part ∧ final = put part state := by
  unfold zoom at returned
  split at returned
  · cases returned
  · cases returned
  · next value between part outcome =>
      cases returned
      exact ⟨part, outcome, rfl⟩

theorem pure_returned {held after : Lock → Bool} {state final : State} {value result : Result}
    (returned : (pure value : Locked Lock Fault State Result) held state = .returned result after final) :
    value = result ∧ state = final := by
  cases returned
  exact ⟨rfl, rfl⟩

theorem act_returned {step : State → Except Fault (Result × State)} {held after : Lock → Bool} {state final : State}
    {result : Result}
    (returned : (act step : Locked Lock Fault State Result) held state = .returned result after final) :
    step state = .ok (result, final) := by
  unfold act at returned
  split at returned
  · cases returned
  · next outcome =>
      cases returned
      exact outcome

theorem get_returned {view : State → Result} {held after : Lock → Bool} {state final : State} {result : Result}
    (returned : (get view : Locked Lock Fault State Result) held state = .returned result after final) :
    view state = result ∧ state = final := by
  cases act_returned returned
  exact ⟨rfl, rfl⟩

theorem modify_returned {change : State → State} {held after : Lock → Bool} {state final : State}
    (returned : (modify change : Locked Lock Fault State Unit) held state = .returned () after final) :
    change state = final := by
  cases act_returned returned
  rfl

theorem lock_returned [DecidableEq Lock] {mutex : Lock} {held after : Lock → Bool} {state final : State}
    (returned : (lock mutex : Locked Lock Fault State Unit) held state = .returned () after final) :
    state = final := by
  unfold lock at returned
  split at returned
  · cases returned
  · cases returned
    rfl

theorem unlock_returned [DecidableEq Lock] {mutex : Lock} {held after : Lock → Bool} {state final : State}
    (returned : (unlock mutex : Locked Lock Fault State Unit) held state = .returned () after final) :
    state = final := by
  unfold unlock at returned
  split at returned
  · cases returned
    rfl
  · cases returned

theorem holding_returned [DecidableEq Lock] {mutex : Lock} {step : State → Except Fault (Result × State)}
    {held after : Lock → Bool} {state final : State} {result : Result}
    (returned : (holding mutex (act step) : Locked Lock Fault State Result) held state =
      .returned result after final) : step state = .ok (result, final) := by
  obtain ⟨_, taken, middle, locked, rest⟩ := bind_returned returned
  obtain rfl := lock_returned locked
  obtain ⟨value, between, last, body, rest⟩ := bind_returned rest
  obtain ⟨_, free, given, unlocked, finished⟩ := bind_returned rest
  obtain rfl := unlock_returned unlocked
  obtain ⟨rfl, rfl⟩ := pure_returned finished
  exact act_returned body

section

variable {view : State → Part}

theorem Keeps.pure (result : Result) : Keeps view (Pure.pure result : Locked Lock Fault State Result) := by
  intro held state value after final returned
  rw [(pure_returned returned).2]

theorem Keeps.get (read : State → Result) : Keeps view (Locked.get read : Locked Lock Fault State Result) := by
  intro held state value after final returned
  rw [(get_returned returned).2]

theorem Keeps.modify {change : State → State} (same : ∀ state, view (change state) = view state) :
    Keeps view (Locked.modify change : Locked Lock Fault State Unit) := by
  intro held state value after final returned
  rw [← modify_returned returned, same]

theorem Keeps.lock [DecidableEq Lock] (mutex : Lock) :
    Keeps view (Locked.lock mutex : Locked Lock Fault State Unit) := by
  intro held state value after final returned
  rw [lock_returned returned]

theorem Keeps.unlock [DecidableEq Lock] (mutex : Lock) :
    Keeps view (Locked.unlock mutex : Locked Lock Fault State Unit) := by
  intro held state value after final returned
  rw [unlock_returned returned]

theorem Keeps.zoom {Inner : Type} {inner : State → Inner} {put : Inner → State → State}
    {call : Locked Lock Fault Inner Result} (same : ∀ part state, view (put part state) = view state) :
    Keeps view (Locked.zoom inner put call) := by
  intro held state value after final returned
  obtain ⟨part, _, rfl⟩ := zoom_returned returned
  exact same part state

theorem Keeps.bind (begins : Keeps view first) (ends : ∀ result, Keeps view (second result)) :
    Keeps view (first >>= second) := by
  intro held state value after final returned
  obtain ⟨middle, _, _, starts, rest⟩ := bind_returned returned
  exact (ends middle _ _ _ _ _ rest).trans (begins _ _ _ _ _ starts)

end

/-- A step that takes a free lock and gives it back leaves all locks as they are. -/
theorem holding_act [DecidableEq Lock] {mutex : Lock} {step : State → Except Fault (Result × State)}
    {held : Lock → Bool} {state final : State} {result : Result} (free : held mutex = false)
    (stepped : step state = .ok (result, final)) :
    (holding mutex (act step) : Locked Lock Fault State Result) held state = .returned result held final := by
  have taken : (lock mutex : Locked Lock Fault State Unit) held state =
      .returned () (Function.update held mutex true) state := by
    rw [lock, free]
    rfl
  have given : (unlock mutex : Locked Lock Fault State Unit) (Function.update held mutex true) final =
      .returned () held final := by
    have restored : Function.update (Function.update held mutex true) mutex false = held := by
      rw [Function.update_idem, ← free, Function.update_eq_self]
    rw [unlock, if_pos (Function.update_self ..), restored]
  change andThen (lock mutex) (fun _ => andThen (act step) fun result => andThen (unlock mutex) fun _ => ret result)
    held state = _
  simp only [andThen, taken, act, stepped, given, ret]

theorem andThen_endsWith {held middle last : Lock → Bool} {state : State}
    (begins : (first held state).EndsWith faults middle) (yields : Yields post first)
    (ends : ∀ result after, post result → (second result middle after).EndsWith faults last) :
    ((first >>= second) held state).EndsWith faults last := by
  change (andThen first second held state).EndsWith faults last
  have returned := yields held state
  unfold andThen
  generalize first held state = outcome at begins returned
  cases begins with
  | stopped fault allowed => exact .stopped fault allowed
  | returned result final => exact ends result final (returned result middle final rfl)

theorem Yields.anything : Yields (fun _ => True) first := fun _ _ _ _ _ _ => trivial

theorem Balanced.pure (result : Result) :
    Balanced faults rank level (Pure.pure result : Locked Lock Fault State Result) :=
  fun _ state _ => .returned result state

theorem Balanced.ret (result : Result) :
    Balanced faults rank level (Locked.ret result : Locked Lock Fault State Result) :=
  fun _ state _ => .returned result state

theorem Balanced.stop {fault : Fault} (allowed : faults fault) :
    Balanced faults rank level (Locked.stop fault : Locked Lock Fault State Result) :=
  fun _ _ _ => .stopped fault allowed

theorem Balanced.act {step : State → Except Fault (Result × State)}
    (fails : ∀ state fault, step state = .error fault → faults fault) :
    Balanced faults rank level (Locked.act step : Locked Lock Fault State Result) := by
  intro held state _
  unfold Locked.act
  cases outcome : step state with
  | error fault => exact .stopped fault (fails state fault outcome)
  | ok result => exact .returned result.1 result.2

theorem Balanced.act_map {step : State → Except Fault Next} {finish : State → Next → Result × State}
    (fails : ∀ state fault, step state = .error fault → faults fault) :
    Balanced faults rank level (Locked.act fun state => (step state).map (finish state)) := by
  apply Balanced.act
  intro state fault failed
  cases outcome : step state with
  | error reason =>
      rw [outcome] at failed
      obtain rfl : reason = fault := Except.error.inj failed
      exact fails state reason outcome
  | ok next =>
      rw [outcome] at failed
      cases failed

theorem Balanced.get (view : State → Result) :
    Balanced faults rank level (Locked.get view : Locked Lock Fault State Result) := by
  apply Balanced.act
  intro state fault failed
  cases failed

theorem Balanced.modify (change : State → State) :
    Balanced faults rank level (Locked.modify change : Locked Lock Fault State Unit) := by
  apply Balanced.act
  intro state fault failed
  cases failed

theorem Balanced.bind_yields (begins : Balanced faults rank level first) (yields : Yields post first)
    (ends : ∀ result, post result → Balanced faults rank level (second result)) :
    Balanced faults rank level (first >>= second) := fun held state free =>
  andThen_endsWith (begins held state free) yields fun result after holds => ends result holds held after free

theorem Balanced.bind (begins : Balanced faults rank level first)
    (ends : ∀ result, Balanced faults rank level (second result)) :
    Balanced faults rank level (first >>= second) :=
  begins.bind_yields .anything fun result _ => ends result

theorem Balanced.zoom {view : State → Part} {put : Part → State → State} {call : Locked Lock Fault Part Result}
    (balanced : Balanced faults rank level call) : Balanced faults rank level (Locked.zoom view put call) := by
  intro held state free
  have ends := balanced held (view state) free
  unfold Locked.zoom
  generalize call held (view state) = outcome at ends
  cases ends with
  | stopped fault allowed => exact .stopped fault allowed
  | returned result part => exact .returned result (put part state)

theorem Balanced.mono {wider : Fault → Prop} (balanced : Balanced faults rank level first)
    (included : ∀ fault, faults fault → wider fault) : Balanced wider rank level first := by
  intro held state free
  have ends := balanced held state free
  generalize first held state = outcome at ends
  cases ends with
  | stopped fault allowed => exact .stopped fault (included fault allowed)
  | returned result after => exact .returned result after

theorem Balanced.repeating {timeout : Fault} {body : Carried → Locked Lock Fault State (Carried ⊕ Result)}
    (expires : faults timeout) (balanced : ∀ carried, Balanced faults rank level (body carried)) (fuel : Nat)
    (carried : Carried) :
    Balanced faults rank level (Locked.repeating timeout body fuel carried) := by
  induction fuel generalizing carried with
  | zero => exact .stop expires
  | succ fuel ih =>
      apply Balanced.bind (balanced carried)
      intro outcome
      cases outcome with
      | inl next => exact ih next
      | inr result => exact .ret result

theorem Balanced.forEach {body : Item → Locked Lock Fault State Unit}
    (items : List Item) (balanced : ∀ item ∈ items, Balanced faults rank level (body item)) :
    Balanced faults rank level (Locked.forEach body items) := by
  induction items with
  | nil => exact .ret ()
  | cons item rest ih =>
      apply Balanced.bind (balanced item (List.mem_cons_self ..))
      intro _
      exact ih fun other listed => balanced other (List.mem_cons_of_mem item listed)

variable [DecidableEq Lock] {mutex : Lock}

theorem Releases.bind_yields (begins : Balanced faults rank (rank mutex) first) (yields : Yields post first)
    (ends : ∀ result, post result → Releases faults rank mutex (second result)) :
    Releases faults rank mutex (first >>= second) := fun held state taken free =>
  andThen_endsWith (begins held state free) yields fun result after holds => ends result holds held after taken free

theorem Releases.bind (begins : Balanced faults rank (rank mutex) first)
    (ends : ∀ result, Releases faults rank mutex (second result)) :
    Releases faults rank mutex (first >>= second) :=
  .bind_yields begins .anything fun result _ => ends result

theorem Releases.stop {fault : Fault} (allowed : faults fault) :
    Releases faults rank mutex (Locked.stop fault : Locked Lock Fault State Result) :=
  fun _ _ _ _ => .stopped fault allowed

theorem Releases.unlock {rest : Unit → Locked Lock Fault State Result}
    (ends : Balanced faults rank (rank mutex) (rest ())) :
    Releases faults rank mutex (Locked.unlock mutex >>= rest) := by
  intro held state taken free
  have given : ((Locked.unlock mutex : Locked Lock Fault State Unit) held state).EndsWith faults
      (Function.update held mutex false) := by
    rw [Locked.unlock, if_pos taken]
    exact .returned _ _
  refine andThen_endsWith given .anything fun _ after _ => ends _ after fun other below => ?_
  by_cases same : other = mutex
  · rw [same, Function.update_self]
  · rw [Function.update_of_ne same, free other below]

theorem Releases.last : Releases faults rank mutex (Locked.unlock mutex : Locked Lock Fault State Unit) := by
  intro held state taken _
  rw [Locked.unlock, if_pos taken]
  exact .returned _ _

/-- Taking a lock of a lower rank, and giving it back by the end. -/
theorem Balanced.lock {rest : Unit → Locked Lock Fault State Result} (below : rank mutex < level)
    (section_ : Releases faults rank mutex (rest ())) : Balanced faults rank level (Locked.lock mutex >>= rest) := by
  intro held state free
  have open_ : ¬held mutex = true := by rw [free mutex below]; exact Bool.false_ne_true
  have taken : ((Locked.lock mutex : Locked Lock Fault State Unit) held state).EndsWith faults
      (Function.update held mutex true) := by
    rw [Locked.lock, if_neg open_]
    exact .returned _ _
  have restored : held = Function.update (Function.update held mutex true) mutex false := by
    rw [Function.update_idem, ← free mutex below, Function.update_eq_self]
  rw [restored]
  refine andThen_endsWith (restored ▸ taken) .anything fun _ after _ => section_ _ after (Function.update_self ..) ?_
  intro other lowerRank
  have different : other ≠ mutex := fun same => Nat.lt_irrefl _ (same ▸ lowerRank)
  rw [Function.update_of_ne different, free other (Nat.lt_trans lowerRank below)]

end Locked

end Bwuhos.Data
