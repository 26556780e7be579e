import Bwuhos.Data.Traces
import Mathlib.Data.Finset.Basic
import Mathlib.Logic.Function.Basic

namespace Bwuhos.Data

open TransitionSystem

/-! # Atomic objects

Objects that processors call.  A call takes effect at one moment between its beginning and
its return, and waits as long as it cannot.
-/

inductive CallEvent (Cpu Call Result : Type) where
  | begins (cpu : Cpu) (call : Call)
  | returns (cpu : Cpu) (call : Call) (result : Result)
deriving Repr, DecidableEq

inductive CallPhase (Call Result : Type) where
  | idle
  | called (call : Call)
  | done (call : Call) (result : Result)
deriving Repr, DecidableEq

structure AtomicState (Cpu Call Result State : Type) where
  phase : Cpu → CallPhase Call Result
  state : State

structure AtomicObject (Call Result State : Type) where
  start : State → Prop
  effect : Call → State → Result → State → Prop

namespace AtomicObject

variable {Cpu Call Result State : Type} [DecidableEq Cpu]

inductive Step (object : AtomicObject Call Result State) :
    AtomicState Cpu Call Result State → Option (CallEvent Cpu Call Result) →
      AtomicState Cpu Call Result State → Prop
  | begins (s : AtomicState Cpu Call Result State) (cpu : Cpu) (call : Call) (idle : s.phase cpu = .idle) :
      Step object s (some (.begins cpu call)) { s with phase := Function.update s.phase cpu (.called call) }
  | effect (s : AtomicState Cpu Call Result State) (cpu : Cpu) (call : Call) (result : Result) (after : State)
      (called : s.phase cpu = .called call) (effect : object.effect call s.state result after) :
      Step object s none { phase := Function.update s.phase cpu (.done call result), state := after }
  | returns (s : AtomicState Cpu Call Result State) (cpu : Cpu) (call : Call) (result : Result)
      (done : s.phase cpu = .done call result) :
      Step object s (some (.returns cpu call result)) { s with phase := Function.update s.phase cpu .idle }

def system (Cpu : Type) [DecidableEq Cpu] (object : AtomicObject Call Result State) :
    TransitionSystem (AtomicState Cpu Call Result State) (Option (CallEvent Cpu Call Result)) where
  initial s := (∀ cpu, s.phase cpu = .idle) ∧ object.start s.state
  step := object.Step

end AtomicObject

/-! ## The order of effects

The calls of a run as one sequence, in which every processor keeps its own order.
-/

section

variable {Cpu Call Result State : Type} {object : AtomicObject Call Result State}

/-- Calls one after the other lead from one state to another. -/
def AtomicObject.Leads (object : AtomicObject Call Result State) : State → List (Cpu × Call) → State → Prop
  | state, [], last => last = state
  | state, pair :: rest, last => ∃ result next, object.effect pair.2 state result next ∧
      object.Leads next rest last

theorem AtomicObject.Leads.snoc {state middle last : State} {order : List (Cpu × Call)} {cpu : Cpu} {call : Call}
    {result : Result} (leads : object.Leads state order middle)
    (effect : object.effect call middle result last) : object.Leads state (order ++ [(cpu, call)]) last := by
  induction order generalizing state with
  | nil =>
      obtain rfl := leads
      exact ⟨result, last, effect, rfl⟩
  | cons pair rest ih =>
      obtain ⟨answer, next, first, later⟩ := leads
      exact ⟨answer, next, first, ih later⟩

/-- The call under way that has not taken effect. -/
def CallPhase.pending : CallPhase Call Result → List Call
  | .called call => [call]
  | .idle | .done .. => []

variable [DecidableEq Cpu]

def CallEvent.begunBy (cpu : Cpu) : CallEvent Cpu Call Result → Option Call
  | .begins other call => if other = cpu then some call else none
  | .returns .. => none

/-- The calls that a processor has begun. -/
def begun (cpu : Cpu) (trace : List (CallEvent Cpu Call Result)) : List Call := trace.filterMap (CallEvent.begunBy cpu)

/-- The calls of a processor in an order of calls. -/
def ownCalls (cpu : Cpu) (order : List (Cpu × Call)) : List Call :=
  (order.filter fun pair => pair.1 = cpu).map Prod.snd

theorem ownCalls_snoc (cpu other : Cpu) (order : List (Cpu × Call)) (call : Call) :
    ownCalls cpu (order ++ [(other, call)]) = ownCalls cpu order ++ if other = cpu then [call] else [] := by
  rw [ownCalls, ownCalls, List.filter_append, List.map_append]
  by_cases same : other = cpu
  · simp [same]
  · simp [same]

/-- An order of all effects so far, in which every processor has its calls in its own order
but for the one that is pending. -/
structure Ordered (object : AtomicObject Call Result State) (start : State) (order : List (Cpu × Call))
    (trace : List (CallEvent Cpu Call Result)) (s : AtomicState Cpu Call Result State) : Prop where
  leads : object.Leads start order s.state
  own : ∀ cpu, begun cpu trace = ownCalls cpu order ++ (s.phase cpu).pending

theorem Ordered.step {start : State} {order : List (Cpu × Call)} {trace : List (CallEvent Cpu Call Result)}
    {before after : AtomicState Cpu Call Result State} {label : Option (CallEvent Cpu Call Result)}
    (ordered : Ordered object start order trace before) (taken : object.Step before label after) :
    ∃ order, Ordered object start order (trace ++ label.toList) after := by
  cases taken with
  | begins cpu call idle =>
      refine ⟨order, ordered.leads, fun other => ?_⟩
      rw [begun, List.filterMap_append, ← begun, ordered.own other]
      by_cases same : cpu = other
      · subst same
        simp [CallEvent.begunBy, idle, CallPhase.pending]
      · simp [CallEvent.begunBy, same, Function.update_of_ne (Ne.symm same)]
  | effect cpu call result after called effect =>
      refine ⟨order ++ [(cpu, call)], ordered.leads.snoc effect, fun other => ?_⟩
      rw [Option.toList_none, List.append_nil, ordered.own other, ownCalls_snoc]
      by_cases same : cpu = other
      · subst same
        simp [called, CallPhase.pending]
      · simp [same, Function.update_of_ne (Ne.symm same)]
  | returns cpu call result done =>
      refine ⟨order, ordered.leads, fun other => ?_⟩
      rw [begun, List.filterMap_append, ← begun, ordered.own other]
      by_cases same : cpu = other
      · subst same
        simp [CallEvent.begunBy, done, CallPhase.pending]
      · simp [CallEvent.begunBy, Function.update_of_ne (Ne.symm same)]

/-- In every run the calls take effect in one order. -/
theorem AtomicObject.run_ordered {first last : AtomicState Cpu Call Result State}
    {labels : List (Option (CallEvent Cpu Call Result))} (starts : ∀ cpu, first.phase cpu = .idle)
    (run : (object.system Cpu).Run first labels last) :
    ∃ order, Ordered object first.state order (visible labels) last := by
  have base : ∃ order, Ordered object first.state order [] first := by
    refine ⟨[], rfl, fun cpu => ?_⟩
    rw [starts cpu]
    rfl
  refine run.seen (fun seen s => ∃ order, Ordered object first.state order seen s) base ?_
  intro seen before label after ordered taken
  obtain ⟨order, ordered⟩ := ordered
  exact ordered.step taken

end

/-! ## Lending

Objects that hand out items and take them back.
-/

/-- The item that a call gets by its result, and the item that a call gives back. -/
structure Loans (Call Result Item : Type) where
  takes : Call → Result → Option Item
  gives : Call → Option Item
  apart : ∀ call result item, gives call = some item → takes call result = none

namespace Loans

variable {Cpu Call Result Item : Type} [DecidableEq Cpu] [DecidableEq Item] (loans : Loans Call Result Item)

/-- Who holds what after an event.  An item is no longer held once the call that gives it back has begun. -/
def after (held : List (Cpu × Item)) : CallEvent Cpu Call Result → List (Cpu × Item)
  | .begins cpu call =>
      match loans.gives call with
      | none => held
      | some item => held.erase (cpu, item)
  | .returns cpu call result =>
      match loans.takes call result with
      | none => held
      | some item => held ++ [(cpu, item)]

def holdings (trace : List (CallEvent Cpu Call Result)) : List (Cpu × Item) := trace.foldl loans.after []

/-- A call gives back only what its processor holds. -/
def Honest (held : List (Cpu × Item)) : CallEvent Cpu Call Result → Prop
  | .begins cpu call => ∀ item ∈ loans.gives call, (cpu, item) ∈ held
  | .returns .. => True

def HonestFrom : List (Cpu × Item) → List (CallEvent Cpu Call Result) → Prop
  | _, [] => True
  | held, event :: rest => loans.Honest held event ∧ HonestFrom (loans.after held event) rest

/-- Every processor gives back only what it holds. -/
def HonestTrace (trace : List (CallEvent Cpu Call Result)) : Prop := loans.HonestFrom [] trace

theorem holdings_snoc (trace : List (CallEvent Cpu Call Result)) (event : CallEvent Cpu Call Result) :
    loans.holdings (trace ++ [event]) = loans.after (loans.holdings trace) event := by
  rw [holdings, List.foldl_append]
  rfl

theorem honestFrom_snoc {held : List (Cpu × Item)} {trace : List (CallEvent Cpu Call Result)}
    {event : CallEvent Cpu Call Result} :
    loans.HonestFrom held (trace ++ [event]) ↔
      loans.HonestFrom held trace ∧ loans.Honest (trace.foldl loans.after held) event := by
  induction trace generalizing held with
  | nil => simp [HonestFrom]
  | cons first rest ih => simp only [List.cons_append, HonestFrom, ih, List.foldl_cons, and_assoc]

/-- Where no call gives anything back, every trace is honest. -/
theorem honest_of_keeping (keeps : ∀ call, loans.gives call = none) (trace : List (CallEvent Cpu Call Result)) :
    loans.HonestTrace trace := by
  rw [HonestTrace]
  generalize ([] : List (Cpu × Item)) = held
  induction trace generalizing held with
  | nil => trivial
  | cons event rest ih =>
      refine ⟨?_, ih _⟩
      cases event with
      | begins cpu call =>
          intro item gives
          rw [keeps call] at gives
          cases gives
      | returns cpu call result => trivial

/-- The item that a processor is about to hold, or no longer holds, while a call is under way. -/
def Carries : CallPhase Call Result → Item → Prop
  | .idle, _ => False
  | .called call, item => loans.gives call = some item
  | .done call result, item => loans.gives call = none ∧ loans.takes call result = some item

end Loans

/-- An object whose calls hand out and take back the items of `loans`, by what its state
says is out.  Some items are out from the start. -/
structure Lends {Call Result State Item : Type} [DecidableEq Item] (object : AtomicObject Call Result State)
    (loans : Loans Call Result Item) (accounts : State → Finset Item → Prop) (reserved : Finset Item) : Prop where
  start : ∀ state, object.start state → accounts state reserved
  takes : ∀ call result item state after out, object.effect call state result after →
    accounts state out → loans.gives call = none → loans.takes call result = some item →
      item ∉ out ∧ accounts after (insert item out)
  gives : ∀ call result item state after out, object.effect call state result after →
    accounts state out → loans.gives call = some item → item ∈ out → accounts after (out.erase item)
  other : ∀ call result state after out, object.effect call state result after →
    accounts state out → loans.gives call = none → loans.takes call result = none → accounts after out

namespace Lends

variable {Cpu Call Result State Item : Type} [DecidableEq Cpu] [DecidableEq Item]
  {object : AtomicObject Call Result State} {loans : Loans Call Result Item} {accounts : State → Finset Item → Prop}
  {reserved out : Finset Item}

/-- Each item that is out is reserved, held by one processor, or carried by one call. -/
structure Accounted (loans : Loans Call Result Item) (reserved out : Finset Item) (held : List (Cpu × Item))
    (phase : Cpu → CallPhase Call Result) : Prop where
  reserved_out : reserved ⊆ out
  held_out : ∀ pair ∈ held, pair.2 ∈ out ∧ pair.2 ∉ reserved ∧ ∀ cpu, ¬loans.Carries (phase cpu) pair.2
  nodup : (held.map Prod.snd).Nodup
  carried_out : ∀ cpu item, loans.Carries (phase cpu) item → item ∈ out ∧ item ∉ reserved
  single : ∀ cpu other item, loans.Carries (phase cpu) item → loans.Carries (phase other) item → cpu = other
  covered : ∀ item ∈ out, item ∈ reserved ∨ (∃ cpu, (cpu, item) ∈ held) ∨ ∃ cpu, loans.Carries (phase cpu) item

variable {held : List (Cpu × Item)} {phase : Cpu → CallPhase Call Result} {cpu : Cpu} {item : Item}
  {next : CallPhase Call Result}

omit [DecidableEq Item] in
theorem carries_update {other : Cpu} (carries : loans.Carries (Function.update phase cpu next other) item) :
    (other = cpu ∧ loans.Carries next item) ∨ (other ≠ cpu ∧ loans.Carries (phase other) item) := by
  by_cases same : other = cpu
  · subst same
    rw [Function.update_self] at carries
    exact Or.inl ⟨rfl, carries⟩
  · rw [Function.update_of_ne same] at carries
    exact Or.inr ⟨same, carries⟩

omit [DecidableEq Item] [DecidableEq Cpu] in
theorem carries_unique {other : Item} (carries : loans.Carries next item) (also : loans.Carries next other) :
    other = item := by
  cases next with
  | idle => exact carries.elim
  | called call => exact Option.some.inj (also.symm.trans carries)
  | done call result => exact Option.some.inj (also.2.symm.trans carries.2)

omit [DecidableEq Item] in
/-- What is carried before a processor moves on, other than by it, is carried after. -/
theorem carries_elsewhere {other : Cpu} (before : loans.Carries (phase other) item) :
    (other = cpu ∧ loans.Carries (phase cpu) item) ∨ loans.Carries (Function.update phase cpu next other) item := by
  by_cases same : other = cpu
  · exact Or.inl ⟨same, same ▸ before⟩
  · exact Or.inr (by rwa [Function.update_of_ne same])

namespace Accounted

omit [DecidableEq Item] in
/-- A processor whose next phase carries what it carried before. -/
theorem quiet (accounted : Accounted loans reserved out held phase)
    (same : ∀ item, loans.Carries next item ↔ loans.Carries (phase cpu) item) :
    Accounted loans reserved out held (Function.update phase cpu next) := by
  have kept (item : Item) : loans.Carries next item → loans.Carries (phase cpu) item := (same item).mp
  have carried (other : Cpu) (item : Item) (carries : loans.Carries (Function.update phase cpu next other) item) :
      loans.Carries (phase other) item := by
    obtain ⟨rfl, now⟩ | ⟨_, before⟩ := carries_update carries
    · exact kept item now
    · exact before
  exact {
    reserved_out := accounted.reserved_out
    held_out := fun pair member =>
      ⟨(accounted.held_out pair member).1, (accounted.held_out pair member).2.1, fun other carries =>
        (accounted.held_out pair member).2.2 other (carried other _ carries)⟩
    nodup := accounted.nodup
    carried_out := fun other item carries => accounted.carried_out other item (carried other item carries)
    single := fun one other item first second =>
      accounted.single one other item (carried one item first) (carried other item second)
    covered := by
      intro item itemOut
      obtain isReserved | isHeld | ⟨other, before⟩ := accounted.covered item itemOut
      · exact Or.inl isReserved
      · exact Or.inr (Or.inl isHeld)
      · obtain ⟨_, here⟩ | elsewhere := carries_elsewhere before
        · exact Or.inr (Or.inr ⟨cpu, by rw [Function.update_self]; exact (same item).mpr here⟩)
        · exact Or.inr (Or.inr ⟨other, elsewhere⟩) }

/-- An item that is held is held by no other entry. -/
theorem erase_ne (accounted : Accounted loans reserved out held phase) (member : (cpu, item) ∈ held) :
    ∀ pair ∈ held.erase (cpu, item), pair.2 ≠ item := by
  intro pair inRest same
  obtain ⟨front, back, _, split, erased⟩ := List.exists_erase_eq member
  have nodup := accounted.nodup
  simp only [split, List.map_append, List.map_cons, List.nodup_middle, List.nodup_cons] at nodup
  rw [erased] at inRest
  have listed := List.mem_map_of_mem (f := Prod.snd) inRest
  rw [List.map_append, same] at listed
  exact nodup.1 listed

/-- A call that gives back what its processor holds. -/
theorem giving (accounted : Accounted loans reserved out held phase) (member : (cpu, item) ∈ held)
    (idle : phase cpu = .idle) (carries : loans.Carries next item) :
    Accounted loans reserved out (held.erase (cpu, item)) (Function.update phase cpu next) := by
  obtain ⟨inOut, notReserved, free⟩ := accounted.held_out _ member
  have only (other : Item) : loans.Carries next other → other = item := carries_unique carries
  have distinct := accounted.erase_ne member
  exact {
    reserved_out := accounted.reserved_out
    held_out := by
      intro pair inRest
      obtain ⟨pairOut, pairNotReserved, pairFree⟩ := accounted.held_out pair (List.mem_of_mem_erase inRest)
      refine ⟨pairOut, pairNotReserved, fun other carries => ?_⟩
      obtain ⟨_, now⟩ | ⟨_, before⟩ := carries_update carries
      · exact distinct pair inRest (only _ now)
      · exact pairFree other before
    nodup := accounted.nodup.sublist (List.erase_sublist.map Prod.snd)
    carried_out := by
      intro other carried carries
      obtain ⟨_, now⟩ | ⟨_, before⟩ := carries_update carries
      · obtain rfl := only carried now
        exact ⟨inOut, notReserved⟩
      · exact accounted.carried_out other carried before
    single := by
      intro one other carried first second
      obtain ⟨rfl, now⟩ | ⟨_, firstBefore⟩ := carries_update first
      · obtain ⟨rfl, _⟩ | ⟨_, secondBefore⟩ := carries_update second
        · rfl
        · exact absurd (only carried now ▸ secondBefore) (free other)
      · obtain ⟨rfl, now⟩ | ⟨_, secondBefore⟩ := carries_update second
        · exact absurd (only carried now ▸ firstBefore) (free one)
        · exact accounted.single one other carried firstBefore secondBefore
    covered := by
      intro other otherOut
      obtain isReserved | ⟨holder, isHeld⟩ | ⟨carrier, before⟩ := accounted.covered other otherOut
      · exact Or.inl isReserved
      · by_cases same : (holder, other) = (cpu, item)
        · cases same
          exact Or.inr (Or.inr ⟨cpu, by rwa [Function.update_self]⟩)
        · exact Or.inr (Or.inl ⟨holder, (List.mem_erase_of_ne same).mpr isHeld⟩)
      · obtain ⟨_, here⟩ | elsewhere := carries_elsewhere before
        · rw [idle] at here
          exact here.elim
        · exact Or.inr (Or.inr ⟨carrier, elsewhere⟩) }

/-- The effect of a call that gets an item. -/
theorem taken (accounted : Accounted loans reserved out held phase) (fresh : item ∉ out)
    (nothing : ∀ other, ¬loans.Carries (phase cpu) other) (gets : loans.Carries next item) :
    Accounted loans reserved (insert item out) held (Function.update phase cpu next) where
  reserved_out := fun other member => Finset.mem_insert_of_mem (accounted.reserved_out member)
  held_out := by
    intro pair member
    obtain ⟨pairOut, pairNotReserved, pairFree⟩ := accounted.held_out pair member
    refine ⟨Finset.mem_insert_of_mem pairOut, pairNotReserved, fun other carries => ?_⟩
    obtain ⟨_, now⟩ | ⟨_, before⟩ := carries_update carries
    · exact fresh (carries_unique gets now ▸ pairOut)
    · exact pairFree other before
  nodup := accounted.nodup
  carried_out := by
    intro other carried carries
    obtain ⟨_, now⟩ | ⟨_, before⟩ := carries_update carries
    · obtain rfl := carries_unique gets now
      exact ⟨Finset.mem_insert_self _ _, fun member => fresh (accounted.reserved_out member)⟩
    · obtain ⟨carriedOut, notReserved⟩ := accounted.carried_out other carried before
      exact ⟨Finset.mem_insert_of_mem carriedOut, notReserved⟩
  single := by
    intro one other carried first second
    obtain ⟨rfl, now⟩ | ⟨_, firstBefore⟩ := carries_update first
    · obtain ⟨rfl, _⟩ | ⟨_, secondBefore⟩ := carries_update second
      · rfl
      · exact absurd (carries_unique gets now ▸ (accounted.carried_out other _ secondBefore).1) fresh
    · obtain ⟨rfl, now⟩ | ⟨_, secondBefore⟩ := carries_update second
      · exact absurd (carries_unique gets now ▸ (accounted.carried_out one _ firstBefore).1) fresh
      · exact accounted.single one other carried firstBefore secondBefore
  covered := by
    intro other otherOut
    obtain rfl | old := Finset.mem_insert.mp otherOut
    · exact Or.inr (Or.inr ⟨cpu, by rwa [Function.update_self]⟩)
    · obtain isReserved | isHeld | ⟨carrier, before⟩ := accounted.covered other old
      · exact Or.inl isReserved
      · exact Or.inr (Or.inl isHeld)
      · obtain ⟨_, here⟩ | elsewhere := carries_elsewhere before
        · exact absurd here (nothing other)
        · exact Or.inr (Or.inr ⟨carrier, elsewhere⟩)

variable (none : ∀ other, ¬loans.Carries next other)

include none

omit [DecidableEq Item] in
theorem settled (accounted : Accounted loans reserved out held phase) (carries : loans.Carries (phase cpu) item)
    {other : Cpu} {carried : Item} (left : loans.Carries (Function.update phase cpu next other) carried) :
    carried ≠ item ∧ loans.Carries (phase other) carried := by
  obtain ⟨_, now⟩ | ⟨different, before⟩ := carries_update left
  · exact absurd now (none carried)
  · exact ⟨fun same => different (accounted.single other cpu carried before (same ▸ carries)), before⟩

/-- The effect of a call that gives back an item. -/
theorem given (accounted : Accounted loans reserved out held phase) (carries : loans.Carries (phase cpu) item) :
    Accounted loans reserved (out.erase item) held (Function.update phase cpu next) where
  reserved_out := fun other member => Finset.mem_erase.mpr
    ⟨fun same => (accounted.carried_out cpu item carries).2 (same ▸ member), accounted.reserved_out member⟩
  held_out := by
    intro pair member
    obtain ⟨pairOut, pairNotReserved, pairFree⟩ := accounted.held_out pair member
    refine ⟨Finset.mem_erase.mpr ⟨fun same => pairFree cpu (same ▸ carries), pairOut⟩, pairNotReserved, ?_⟩
    exact fun other left => pairFree other (accounted.settled none carries left).2
  nodup := accounted.nodup
  carried_out := by
    intro other carried left
    obtain ⟨different, before⟩ := accounted.settled none carries left
    obtain ⟨carriedOut, notReserved⟩ := accounted.carried_out other carried before
    exact ⟨Finset.mem_erase.mpr ⟨different, carriedOut⟩, notReserved⟩
  single := fun one other carried first second => accounted.single one other carried
    (accounted.settled none carries first).2 (accounted.settled none carries second).2
  covered := by
    intro other otherOut
    obtain ⟨different, old⟩ := Finset.mem_erase.mp otherOut
    obtain isReserved | isHeld | ⟨carrier, before⟩ := accounted.covered other old
    · exact Or.inl isReserved
    · exact Or.inr (Or.inl isHeld)
    · obtain ⟨_, here⟩ | elsewhere := carries_elsewhere before
      · exact absurd (carries_unique carries here) different
      · exact Or.inr (Or.inr ⟨carrier, elsewhere⟩)

omit [DecidableEq Item] in
/-- The return of a call that has got an item. -/
theorem keeping (accounted : Accounted loans reserved out held phase) (carries : loans.Carries (phase cpu) item) :
    Accounted loans reserved out (held ++ [(cpu, item)]) (Function.update phase cpu next) where
  reserved_out := accounted.reserved_out
  held_out := by
    intro pair member
    obtain old | new := List.mem_append.mp member
    · obtain ⟨pairOut, pairNotReserved, pairFree⟩ := accounted.held_out pair old
      exact ⟨pairOut, pairNotReserved, fun other left => pairFree other (accounted.settled none carries left).2⟩
    · obtain rfl := List.mem_singleton.mp new
      obtain ⟨carriedOut, notReserved⟩ := accounted.carried_out cpu item carries
      exact ⟨carriedOut, notReserved, fun other left => (accounted.settled none carries left).1 rfl⟩
  nodup := by
    rw [List.map_append]
    refine accounted.nodup.append (List.nodup_singleton _) fun other old new => ?_
    obtain ⟨pair, member, rfl⟩ := List.mem_map.mp old
    obtain same : pair.2 = item := List.mem_singleton.mp new
    exact (accounted.held_out pair member).2.2 cpu (same ▸ carries)
  carried_out := fun other carried left =>
    accounted.carried_out other carried (accounted.settled none carries left).2
  single := fun one other carried first second => accounted.single one other carried
    (accounted.settled none carries first).2 (accounted.settled none carries second).2
  covered := by
    intro other otherOut
    obtain isReserved | ⟨holder, isHeld⟩ | ⟨carrier, before⟩ := accounted.covered other otherOut
    · exact Or.inl isReserved
    · exact Or.inr (Or.inl ⟨holder, List.mem_append_left _ isHeld⟩)
    · obtain ⟨_, here⟩ | elsewhere := carries_elsewhere before
      · obtain rfl := carries_unique carries here
        exact Or.inr (Or.inl ⟨cpu, List.mem_append_right _ (List.mem_singleton_self _)⟩)
      · exact Or.inr (Or.inr ⟨carrier, elsewhere⟩)

end Accounted

theorem accounted_begins {phase : Cpu → CallPhase Call Result} {held : List (Cpu × Item)} {cpu : Cpu} {call : Call}
    (idle : phase cpu = .idle) (honest : loans.Honest held (.begins cpu call))
    (accounted : Accounted loans reserved out held phase) :
    Accounted loans reserved out (loans.after held (.begins cpu call)) (Function.update phase cpu (.called call)) := by
  cases gives : loans.gives call with
  | none =>
      simp only [Loans.after, gives]
      refine accounted.quiet fun item => ?_
      rw [idle]
      simp [Loans.Carries, gives]
  | some item =>
      simp only [Loans.after, gives]
      exact accounted.giving (honest item gives) idle gives

theorem accounted_effect (lends : Lends object loans accounts reserved) {phase : Cpu → CallPhase Call Result}
    {held : List (Cpu × Item)} {cpu : Cpu} {call : Call} {result : Result} {state after : State}
    (called : phase cpu = .called call) (effect : object.effect call state result after) (inState : accounts state out)
    (accounted : Accounted loans reserved out held phase) :
    ∃ out, accounts after out ∧ Accounted loans reserved out held (Function.update phase cpu (.done call result)) := by
  cases gives : loans.gives call with
  | some item =>
      have carries : loans.Carries (phase cpu) item := by
        rw [called]
        exact gives
      have none (other : Item) : ¬loans.Carries (.done call result) other := by
        simp [Loans.Carries, gives]
      have itemOut := (accounted.carried_out cpu item carries).1
      exact ⟨_, lends.gives call result item _ _ out effect inState gives itemOut, accounted.given none carries⟩
  | none =>
      have nothing (other : Item) : ¬loans.Carries (phase cpu) other := by
        rw [called]
        simp [Loans.Carries, gives]
      cases takes : loans.takes call result with
      | some item =>
          obtain ⟨fresh, accounts⟩ := lends.takes call result item _ _ out effect inState gives takes
          exact ⟨_, accounts, accounted.taken fresh nothing ⟨gives, takes⟩⟩
      | none =>
          refine ⟨out, lends.other call result _ _ out effect inState gives takes, accounted.quiet fun item => ?_⟩
          rw [called]
          simp [Loans.Carries, gives, takes]

theorem accounted_returns {phase : Cpu → CallPhase Call Result} {held : List (Cpu × Item)} {cpu : Cpu} {call : Call}
    {result : Result} (done : phase cpu = .done call result) (accounted : Accounted loans reserved out held phase) :
    Accounted loans reserved out (loans.after held (.returns cpu call result))
      (Function.update phase cpu .idle) := by
  cases takes : loans.takes call result with
  | none =>
      simp only [Loans.after, takes]
      refine accounted.quiet fun item => ?_
      rw [done]
      simp [Loans.Carries, takes]
  | some item =>
      simp only [Loans.after, takes]
      cases gives : loans.gives call with
      | none =>
          have carries : loans.Carries (phase cpu) item := by
            rw [done]
            exact ⟨gives, takes⟩
          exact accounted.keeping (fun other carries => carries) carries
      | some back => cases takes.symm.trans (loans.apart call result back gives)

theorem accounted_step (lends : Lends object loans accounts reserved) {seen : List (CallEvent Cpu Call Result)}
    {before after : AtomicState Cpu Call Result State} {label : Option (CallEvent Cpu Call Result)}
    (taken : object.Step before label after) (honest : ∀ event ∈ label, loans.Honest (loans.holdings seen) event)
    (inState : accounts before.state out)
    (accounted : Accounted loans reserved out (loans.holdings seen) before.phase) :
    ∃ out, accounts after.state out ∧
      Accounted loans reserved out (loans.holdings (seen ++ label.toList)) after.phase := by
  cases taken with
  | begins cpu call idle =>
      rw [Option.toList_some, Loans.holdings_snoc]
      exact ⟨out, inState, accounted_begins idle (honest _ rfl) accounted⟩
  | effect cpu call result after called effect =>
      rw [Option.toList_none, List.append_nil]
      exact lends.accounted_effect called effect inState accounted
  | returns cpu call result done =>
      rw [Option.toList_some, Loans.holdings_snoc]
      exact ⟨out, inState, accounted_returns done accounted⟩

/-- No item is held twice, whatever the processors do, as long as each gives back only what
it holds.  What is out between calls is held or reserved. -/
theorem exclusive (lends : Lends object loans accounts reserved) {first last : AtomicState Cpu Call Result State}
    {labels : List (Option (CallEvent Cpu Call Result))} (starts : (object.system Cpu).initial first)
    (run : (object.system Cpu).Run first labels last) (honest : loans.HonestTrace (visible labels)) :
    ((loans.holdings (visible labels)).map Prod.snd).Nodup ∧ ∃ out, accounts last.state out ∧ reserved ⊆ out ∧
      (∀ pair ∈ loans.holdings (visible labels), pair.2 ∈ out ∧ pair.2 ∉ reserved) ∧
      ((∀ cpu, last.phase cpu = .idle) → ∀ item ∈ out, item ∈ reserved ∨
        ∃ cpu, (cpu, item) ∈ loans.holdings (visible labels)) := by
  have base : ∃ out, accounts first.state out ∧ Accounted loans reserved out (loans.holdings []) first.phase := by
    have idle (cpu : Cpu) (item : Item) : ¬loans.Carries (first.phase cpu) item := by
      rw [starts.1 cpu]
      exact fun carries => carries
    exact ⟨reserved, lends.start _ starts.2, {
      reserved_out := Finset.Subset.refl _
      held_out := fun pair member => absurd member List.not_mem_nil
      nodup := List.nodup_nil
      carried_out := fun cpu item carries => absurd carries (idle cpu item)
      single := fun cpu other item carries _ => absurd carries (idle cpu item)
      covered := fun item => Or.inl }⟩
  have kept := run.seen (fun seen s => loans.HonestTrace seen →
    ∃ out, accounts s.state out ∧ Accounted loans reserved out (loans.holdings seen) s.phase) (fun _ => base) <| by
      intro seen before label after ih taken honest
      cases label with
      | none =>
          rw [Option.toList_none, List.append_nil] at honest
          obtain ⟨out, inState, accounted⟩ := ih honest
          exact lends.accounted_step taken (fun event member => by cases member) inState accounted
      | some event =>
          obtain ⟨honestSeen, honestNow⟩ := loans.honestFrom_snoc.mp honest
          obtain ⟨out, inState, accounted⟩ := ih honestSeen
          refine lends.accounted_step taken (fun other member => ?_) inState accounted
          cases member
          exact honestNow
  obtain ⟨out, inState, accounted⟩ := kept honest
  refine ⟨accounted.nodup, out, inState, accounted.reserved_out, fun pair member =>
    ⟨(accounted.held_out pair member).1, (accounted.held_out pair member).2.1⟩, fun idle item itemOut => ?_⟩
  obtain isReserved | isHeld | ⟨cpu, carries⟩ := accounted.covered item itemOut
  · exact Or.inl isReserved
  · exact Or.inr isHeld
  · rw [idle cpu] at carries
    exact carries.elim

end Lends

end Bwuhos.Data
