import Bwuhos.Data.Loop
import Bwuhos.Data.Processors

namespace Bwuhos.Data.Program

/-! # Nested locks

Programs that take locks of falling ranks and give back what they take.
-/

section

variable {Lock Fault State Inner Part Result Next Carried Item : Type} [DecidableEq Lock] {rank : Lock → Nat}
  {level : Nat} {keep : State → State → Prop}

/-- A lock is taken only if it has a rank below `level` and below those of the locks that
are held.  Every access keeps to `keep`. -/
def nestedRules (rank : Lock → Nat) (level : Nat) (keep : State → State → Prop) : Rules Lock State (List Lock) where
  lock mutex locks post := (rank mutex < level ∧ ∀ other ∈ locks, rank mutex < rank other) ∧ post (mutex :: locks)
  unlock mutex locks post := mutex ∈ locks ∧ post (locks.erase mutex)
  act state final locks post := keep state final ∧ post locks
  lock_mono included allowed := ⟨allowed.1, included _ allowed.2⟩
  unlock_mono included allowed := ⟨allowed.1, included _ allowed.2⟩
  act_mono included allowed := ⟨allowed.1, included _ allowed.2⟩

/-- The program takes locks of ranks below `level`, and gives all of them back. -/
def Nested (rank : Lock → Nat) (level : Nat) (keep : State → State → Prop) (program : Program Lock Fault State Result) :
    Prop :=
  Follows (nestedRules rank level keep) program [] fun _ locks => locks = []

/-- Holding a lock, the program gives it back. -/
def Releasing (rank : Lock → Nat) (level : Nat) (keep : State → State → Prop) (mutex : Lock)
    (program : Program Lock Fault State Result) : Prop :=
  Follows (nestedRules rank level keep) program [mutex] fun _ locks => locks = []

/-- What a program does beside locks of higher ranks. -/
theorem Follows.beside {program : Program Lock Fault State Result} {locks outer : List Lock} {higher : Nat}
    {wider : State → State → Prop} {post : Result → List Lock → Prop}
    (follows : Follows (nestedRules rank level keep) program locks post) (le : level ≤ higher)
    (above : ∀ other ∈ outer, level ≤ rank other) (keeps : ∀ state final, keep state final → wider state final) :
    Follows (nestedRules rank higher wider) program (locks ++ outer) fun result all =>
      ∃ inner, all = inner ++ outer ∧ post result inner := by
  induction program generalizing locks with
  | ret result => exact ⟨locks, rfl, follows⟩
  | stop fault => trivial
  | lock mutex =>
      obtain ⟨⟨below, lower⟩, kept⟩ := follows
      refine ⟨⟨Nat.lt_of_lt_of_le below le, fun other member => ?_⟩, mutex :: locks, rfl, kept⟩
      obtain inner | outside := List.mem_append.mp member
      · exact lower other inner
      · exact Nat.lt_of_lt_of_le below (above other outside)
  | unlock mutex =>
      obtain ⟨taken, kept⟩ := follows
      exact ⟨List.mem_append_left outer taken, locks.erase mutex, List.erase_append_left outer taken, kept⟩
  | act step =>
      intro state result final stepped
      obtain ⟨kept, ends⟩ := follows state result final stepped
      exact ⟨keeps state final kept, locks, rfl, ends⟩
  | andThen first second first_ih second_ih =>
      refine (first_ih follows).mono fun value all ends => ?_
      obtain ⟨inner, rfl, rest⟩ := ends
      exact second_ih value rest
  | repeating body carried ih =>
      obtain ⟨invariant, start, kept⟩ := follows
      refine ⟨fun carried all => ∃ inner, all = inner ++ outer ∧ invariant carried inner, ⟨locks, rfl, start⟩, ?_⟩
      intro carried all holds
      obtain ⟨inner, rfl, holds⟩ := holds
      refine (ih carried (kept carried inner holds)).mono fun outcome all ends => ?_
      obtain ⟨last, rfl, rest⟩ := ends
      cases outcome with
      | inl next => exact ⟨last, rfl, rest⟩
      | inr result => exact ⟨last, rfl, rest⟩

/-- A program on a part of the state. -/
theorem Follows.zoomed {view : State → Inner} {put : Inner → State → State} {inner : Inner → Inner → Prop}
    {program : Program Lock Fault Inner Result} {locks : List Lock} {post : Result → List Lock → Prop}
    (follows : Follows (nestedRules rank level inner) program locks post)
    (keeps : ∀ state part, inner (view state) part → keep state (put part state)) :
    Follows (nestedRules rank level keep) (program.zoom view put) locks post := by
  induction program generalizing locks with
  | ret result => exact follows
  | stop fault => trivial
  | lock mutex => exact follows
  | unlock mutex => exact follows
  | act step =>
      intro state result final stepped
      obtain ⟨⟨value, part⟩, outcome, same⟩ := map_eq_ok stepped
      cases same
      obtain ⟨kept, ends⟩ := follows (view state) value part outcome
      exact ⟨keeps state part kept, ends⟩
  | andThen first second first_ih second_ih =>
      exact first_ih (follows.parts.mono fun value locks rest => second_ih value rest)
  | repeating body carried ih =>
      obtain ⟨invariant, start, kept⟩ := follows
      exact ⟨invariant, start, fun carried locks holds => ih carried (kept carried locks holds)⟩

namespace Nested

/-- A call from a program that holds locks. -/
theorem call {program : Program Lock Fault State Result} {outer : List Lock} {higher : Nat}
    (nested : Nested rank level keep program) (le : level ≤ higher) (above : ∀ other ∈ outer, level ≤ rank other) :
    Follows (nestedRules rank higher keep) program outer fun _ locks => locks = outer := by
  refine (Follows.beside nested le above fun _ _ kept => kept).mono fun result locks ends => ?_
  obtain ⟨inner, rfl, rfl⟩ := ends
  rfl

theorem mono {program : Program Lock Fault State Result} {wider : State → State → Prop}
    (nested : Nested rank level keep program) (keeps : ∀ state final, keep state final → wider state final) :
    Nested rank level wider program := by
  refine (Follows.beside nested (Nat.le_refl level) (fun _ member => absurd member List.not_mem_nil) keeps).mono ?_
  intro result locks ends
  obtain ⟨inner, rfl, rfl⟩ := ends
  rfl

theorem ret (result : Result) : Nested rank level keep (.ret result : Program Lock Fault State Result) := rfl

theorem pure (result : Result) : Nested rank level keep (Pure.pure result : Program Lock Fault State Result) := rfl

theorem stop (fault : Fault) : Nested rank level keep (.stop fault : Program Lock Fault State Result) := trivial

theorem act {step : State → Except Fault (Result × State)}
    (keeps : ∀ state result final, step state = .ok (result, final) → keep state final) :
    Nested rank level keep (.act step : Program Lock Fault State Result) :=
  fun state result final stepped => ⟨keeps state result final stepped, rfl⟩

theorem modify {change : State → State} (keeps : ∀ state, keep state (change state)) :
    Nested rank level keep (.modify change : Program Lock Fault State Unit) := by
  apply act
  intro state result final stepped
  cases stepped
  exact keeps state

theorem get (refl : ∀ state, keep state state) (view : State → Result) :
    Nested rank level keep (.get view : Program Lock Fault State Result) := by
  apply act
  intro state result final stepped
  cases stepped
  exact refl state

theorem bind {first : Program Lock Fault State Part} {second : Part → Program Lock Fault State Result}
    (begins : Nested rank level keep first) (ends : ∀ value, Nested rank level keep (second value)) :
    Nested rank level keep (first >>= second) := by
  refine Follows.bind (Follows.mono begins fun value locks same => ?_)
  subst same
  exact ends value

theorem forEach {body : Item → Program Lock Fault State Unit} (items : List Item)
    (nested : ∀ item, Nested rank level keep (body item)) : Nested rank level keep (.forEach body items) := by
  induction items with
  | nil => exact ret ()
  | cons item rest ih => exact bind (nested item) fun _ => ih

theorem repeating {body : Carried → Program Lock Fault State (Carried ⊕ Result)}
    (nested : ∀ carried, Nested rank level keep (body carried)) (carried : Carried) :
    Nested rank level keep (.repeating body carried) := by
  refine ⟨fun _ locks => locks = [], rfl, fun carried locks none => ?_⟩
  subst none
  refine Follows.mono (nested carried) fun outcome locks same => ?_
  cases outcome with
  | inl next => exact same
  | inr result => exact same

theorem zoom {view : State → Inner} {put : Inner → State → State} (inner : Inner → Inner → Prop)
    {program : Program Lock Fault Inner Result} (nested : Nested rank level inner program)
    (keeps : ∀ state part, inner (view state) part → keep state (put part state)) :
    Nested rank level keep (program.zoom view put) := Follows.zoomed nested keeps

variable {mutex : Lock}

/-- Taking a lock of a lower rank, and giving it back by the end. -/
theorem lock {rest : Unit → Program Lock Fault State Result} (below : rank mutex < level)
    (section_ : Releasing rank level keep mutex (rest ())) : Nested rank level keep (.lock mutex >>= rest) :=
  ⟨⟨below, fun _ member => absurd member List.not_mem_nil⟩, section_⟩

end Nested

namespace Releasing

variable {mutex : Lock}

theorem bind {first : Program Lock Fault State Part} {second : Part → Program Lock Fault State Result}
    (begins : Nested rank (rank mutex) keep first) (le : rank mutex ≤ level)
    (ends : ∀ value, Releasing rank level keep mutex (second value)) :
    Releasing rank level keep mutex (first >>= second) := by
  have above : ∀ other ∈ [mutex], rank mutex ≤ rank other := fun other member =>
    Nat.le_of_eq (congrArg rank (List.mem_singleton.mp member).symm)
  refine Follows.bind ((begins.call le above).mono fun value locks same => ?_)
  subst same
  exact ends value

theorem stop (fault : Fault) : Releasing rank level keep mutex (.stop fault : Program Lock Fault State Result) :=
  trivial

theorem unlock {rest : Unit → Program Lock Fault State Result} (ends : Nested rank level keep (rest ())) :
    Releasing rank level keep mutex (.unlock mutex >>= rest) := by
  refine ⟨List.mem_singleton_self mutex, ?_⟩
  rw [List.erase_cons_head]
  exact ends

theorem zoom {view : State → Inner} {put : Inner → State → State} (inner : Inner → Inner → Prop)
    {program : Program Lock Fault Inner Result} (releasing : Releasing rank level inner mutex program)
    (keeps : ∀ state part, inner (view state) part → keep state (put part state)) :
    Releasing rank level keep mutex (program.zoom view put) := Follows.zoomed releasing keeps

theorem last : Releasing rank level keep mutex (.unlock mutex : Program Lock Fault State Unit) :=
  ⟨List.mem_singleton_self mutex, List.erase_cons_head mutex []⟩

end Releasing

section

variable {Answer : Type} {guard : Lock} {view : State → Part} {effect : Part → Answer → Part → Prop}
  {program : Program Lock Fault State Result}

/-- What `Nested.quiet` says of a whole program, for a part of it that begins with some locks taken. -/
theorem Follows.unguarded {locks : List Lock} {post : Result → List Lock → Prop}
    (follows : Follows (nestedRules rank level keep) program locks post) (low : ∀ mutex ∈ locks, rank mutex < level)
    (below : level ≤ rank guard) (keeps : ∀ state final, keep state final → view final = view state)
    (stage : Stage Part Answer) :
    Follows (sectionRules guard view effect) program stage fun result reached =>
      reached = stage ∧ ∃ locks, (∀ mutex ∈ locks, rank mutex < level) ∧ post result locks := by
  have other {mutex : Lock} (lower : rank mutex < level) : mutex ≠ guard := fun same =>
    Nat.lt_irrefl _ (Nat.lt_of_lt_of_le (same ▸ lower) below)
  induction program generalizing locks with
  | ret result => exact ⟨rfl, locks, low, follows⟩
  | stop fault => trivial
  | lock mutex =>
      refine (if_neg (other follows.1.1)).mpr ⟨rfl, _, fun taken member => ?_, follows.2⟩
      obtain rfl | earlier := List.mem_cons.mp member
      · exact follows.1.1
      · exact low taken earlier
  | unlock mutex =>
      refine (if_neg (other (low mutex follows.1))).mpr ⟨rfl, _, fun taken member => ?_, follows.2⟩
      exact low taken (List.mem_of_mem_erase member)
  | act step =>
      intro state result final stepped
      obtain ⟨kept, ends⟩ := follows state result final stepped
      have same := keeps state final kept
      cases stage with
      | before => exact ⟨same, rfl, locks, low, ends⟩
      | inside first now => exact fun current => ⟨by rw [same, current], locks, low, ends⟩
      | after answer => exact ⟨same, rfl, locks, low, ends⟩
  | andThen first second first_ih second_ih =>
      refine (first_ih follows.parts low).mono fun value reached ends => ?_
      obtain ⟨rfl, locks, low, rest⟩ := ends
      exact second_ih value rest low
  | repeating body carried ih =>
      obtain ⟨invariant, start, kept⟩ := follows
      refine ⟨fun carried reached => reached = stage ∧ ∃ locks, (∀ mutex ∈ locks, rank mutex < level) ∧
        invariant carried locks, ⟨rfl, locks, low, start⟩, ?_⟩
      intro carried reached holds
      obtain ⟨rfl, locks, low, holds⟩ := holds
      refine (ih carried (kept carried locks holds) low).mono fun outcome reached ends => ?_
      obtain ⟨rfl, locks, low, rest⟩ := ends
      cases outcome with
      | inl next => exact ⟨rfl, locks, low, rest⟩
      | inr result => exact ⟨rfl, locks, low, rest⟩

/-- A program that takes only locks of ranks below that of a section, and changes nothing
of the part that the section guards, leaves the section as far as it is. -/
theorem Nested.quiet (nested : Nested rank level keep program) (below : level ≤ rank guard)
    (keeps : ∀ state final, keep state final → view final = view state) (stage : Stage Part Answer) :
    Follows (sectionRules guard view effect) program stage fun _ reached => reached = stage :=
  (nested.unguarded (fun _ member => absurd member List.not_mem_nil) below keeps stage).mono fun _ _ ends => ends.1

end

/-- A program that cannot take a step is over, or waits for a lock. -/
theorem Follows.stuck {program : Program Lock Fault State Result} {locks : List Lock}
    {post : Result → List Lock → Prop} {held : Lock → Bool} {state : State}
    (follows : Follows (nestedRules rank level keep) program locks post) (stuck : program.step held state = none) :
    (∃ result, program = .ret result) ∨ (∃ fault, program = .stop fault) ∨
      (∃ mutex ∈ locks, held mutex = false) ∨
        ∃ mutex, held mutex = true ∧ ∀ other ∈ locks, rank mutex < rank other := by
  induction program generalizing locks with
  | ret result => exact Or.inl ⟨result, rfl⟩
  | stop fault => exact Or.inr (Or.inl ⟨fault, rfl⟩)
  | lock mutex =>
      have taken : held mutex = true := by
        simp only [Program.step] at stuck
        split at stuck
        · next taken => exact taken
        · cases stuck
      exact Or.inr (Or.inr (Or.inr ⟨mutex, taken, follows.1.2⟩))
  | unlock mutex =>
      have free : held mutex = false := by
        simp only [Program.step] at stuck
        split at stuck
        · cases stuck
        · next free => exact Bool.of_not_eq_true free
      exact Or.inr (Or.inr (Or.inl ⟨mutex, follows.1, free⟩))
  | act step =>
      simp only [Program.step] at stuck
      split at stuck <;> cases stuck
  | andThen first second first_ih second_ih =>
      simp only [Program.step] at stuck
      split at stuck
      · cases stuck
      · next going =>
          obtain ended | stopped | waits := first_ih follows.parts (Option.map_eq_none_iff.mp stuck)
          · obtain ⟨result, rfl⟩ := ended
            cases going
          · obtain ⟨fault, rfl⟩ := stopped
            cases going
          · exact Or.inr (Or.inr waits)
  | repeating body carried ih => cases stuck

end

end Bwuhos.Data.Program

namespace Bwuhos.Data.Processors

open TransitionSystem Program

section

variable {Cpu Lock Fault State Call Result : Type} [DecidableEq Cpu] [DecidableEq Lock] {rank : Lock → Nat}
  {level : Nat} {keep : State → State → Prop}

/-- Every lock that is held is one of the locks of one processor. -/
structure LocksMatch (rank : Lock → Nat) (level : Nat) (keep : State → State → Prop)
    (s : Processors Cpu Lock Fault State Call Result) (locks : Cpu → List Lock) : Prop where
  idle : ∀ cpu, s.running cpu = none → locks cpu = []
  running : ∀ cpu call program, s.running cpu = some (call, program) →
    Follows (nestedRules rank level keep) program (locks cpu) fun _ last => last = []
  held : ∀ mutex, s.held mutex = true ↔ ∃ cpu, mutex ∈ locks cpu
  single : ∀ cpu other mutex, mutex ∈ locks cpu → mutex ∈ locks other → cpu = other
  nodup : ∀ cpu, (locks cpu).Nodup

variable {s : Processors Cpu Lock Fault State Call Result} {locks : Cpu → List Lock} {cpu : Cpu} {call : Call}

omit [DecidableEq Lock] in
theorem mem_update {now : List Lock} {other : Cpu} {mutex : Lock} : mutex ∈ Function.update locks cpu now other ↔
    other = cpu ∧ mutex ∈ now ∨ other ≠ cpu ∧ mutex ∈ locks other := by
  by_cases here : other = cpu
  · subst here
    simp
  · simp [here]

/-- A processor whose locks are not those that it had before. -/
theorem LocksMatch.moved (same : LocksMatch rank level keep s locks) (cpu : Cpu) (now : List Lock)
    {running : Option (Call × Program Lock Fault State Result)} {held : Lock → Bool} {state : State}
    (idle : running = none → now = [])
    (follows : ∀ call program, running = some (call, program) →
      Follows (nestedRules rank level keep) program now fun _ last => last = [])
    (matched : ∀ mutex, held mutex = true ↔ mutex ∈ now ∨ ∃ other, other ≠ cpu ∧ mutex ∈ locks other)
    (apart : ∀ mutex ∈ now, ∀ other, other ≠ cpu → mutex ∉ locks other) (nodup : now.Nodup) :
    LocksMatch rank level keep { running := Function.update s.running cpu running, held, state }
      (Function.update locks cpu now) where
  idle other := by
    by_cases here : other = cpu
    · subst here
      simpa only [Function.update_self] using idle
    · simpa only [Function.update_of_ne here] using same.idle other
  running other call program := by
    by_cases here : other = cpu
    · subst here
      simpa only [Function.update_self] using follows call program
    · simpa only [Function.update_of_ne here] using same.running other call program
  held mutex := by
    rw [matched mutex]
    constructor
    · intro either
      obtain mine | ⟨other, different, theirs⟩ := either
      · exact ⟨cpu, mem_update.mpr (Or.inl ⟨rfl, mine⟩)⟩
      · exact ⟨other, mem_update.mpr (Or.inr ⟨different, theirs⟩)⟩
    · intro holder
      obtain ⟨other, member⟩ := holder
      obtain ⟨_, mine⟩ | theirs := mem_update.mp member
      · exact Or.inl mine
      · exact Or.inr ⟨other, theirs⟩
  single one other mutex oneHolds otherHolds := by
    obtain ⟨rfl, mine⟩ | ⟨oneElse, before⟩ := mem_update.mp oneHolds
    · obtain ⟨here, _⟩ | ⟨different, theirs⟩ := mem_update.mp otherHolds
      · exact here.symm
      · exact absurd theirs (apart mutex mine other different)
    · obtain ⟨rfl, mine⟩ | ⟨_, theirs⟩ := mem_update.mp otherHolds
      · exact absurd before (apart mutex mine one oneElse)
      · exact same.single one other mutex before theirs
  nodup := (Function.forall_update_iff locks fun _ list => list.Nodup).mpr ⟨nodup, fun other _ => same.nodup other⟩

/-- The locks of a processor and those of the others. -/
theorem LocksMatch.held_iff (same : LocksMatch rank level keep s locks) (cpu : Cpu) (mutex : Lock) :
    s.held mutex = true ↔ mutex ∈ locks cpu ∨ ∃ other, other ≠ cpu ∧ mutex ∈ locks other := by
  rw [same.held mutex]
  constructor
  · intro holder
    obtain ⟨other, member⟩ := holder
    by_cases here : other = cpu
    · exact Or.inl (here ▸ member)
    · exact Or.inr ⟨other, here, member⟩
  · intro either
    obtain mine | ⟨other, _, theirs⟩ := either
    · exact ⟨cpu, mine⟩
    · exact ⟨other, theirs⟩

omit [DecidableEq Cpu] in
theorem LocksMatch.apart (same : LocksMatch rank level keep s locks) (cpu : Cpu) :
    ∀ mutex ∈ locks cpu, ∀ other, other ≠ cpu → mutex ∉ locks other := fun mutex mine other different theirs =>
  different (same.single other cpu mutex theirs mine)

theorem LocksMatch.step (same : LocksMatch rank level keep s locks) {program rest : Program Lock Fault State Result}
    {held : Lock → Bool} {state : State} (running : s.running cpu = some (call, program))
    (stepped : program.step s.held s.state = some (held, state, rest)) :
    ∃ locks, LocksMatch rank level keep { running := Function.update s.running cpu (some (call, rest)), held, state }
      locks := by
  have moves := (same.running cpu call program running).step stepped
  have left {now : List Lock} (follows : Follows (nestedRules rank level keep) rest now fun _ last => last = [])
      (other : Call) (program : Program Lock Fault State Result) (here : some (call, rest) = some (other, program)) :
      Follows (nestedRules rank level keep) program now fun _ last => last = [] := by
    cases here
    exact follows
  cases moves with
  | silent kept =>
      exact ⟨_, same.moved cpu _ (fun never => by cases never) (left kept) (same.held_iff cpu) (same.apart cpu)
        (same.nodup cpu)⟩
  | act final allowed =>
      exact ⟨_, same.moved cpu _ (fun never => by cases never) (left allowed.2) (same.held_iff cpu) (same.apart cpu)
        (same.nodup cpu)⟩
  | lock mutex free allowed =>
      have unheld (other : Cpu) : mutex ∉ locks other := fun member => by
        cases ((same.held mutex).mpr ⟨other, member⟩).symm.trans free
      refine ⟨_, same.moved cpu _ (fun never => by cases never) (left allowed.2) (fun other => ?_) ?_
        (List.nodup_cons.mpr ⟨unheld cpu, same.nodup cpu⟩)⟩
      · by_cases here : other = mutex
        · simp [here]
        · rw [Function.update_of_ne here, same.held_iff cpu, List.mem_cons]
          simp [here]
      · intro other member
        obtain rfl | earlier := List.mem_cons.mp member
        · exact fun holder _ => unheld holder
        · exact same.apart cpu other earlier
  | unlock mutex taken allowed =>
      refine ⟨_, same.moved cpu _ (fun never => by cases never) (left allowed.2) (fun other => ?_) ?_
        ((same.nodup cpu).erase mutex)⟩
      · by_cases here : other = mutex
        · subst here
          simp only [Function.update_self, (same.nodup cpu).mem_erase_iff, ne_eq, not_true, false_and, false_or,
            Bool.false_eq_true, false_iff, not_exists, not_and]
          exact same.apart cpu other allowed.1
        · rw [Function.update_of_ne here, same.held_iff cpu, List.mem_erase_of_ne here]
      · exact fun other member => same.apart cpu other (List.mem_of_mem_erase member)

variable {programs : Call → Program Lock Fault State Result} {start : State → Prop}

theorem locks_match (nested : ∀ call, Nested rank level keep (programs call))
    (reached : (system Cpu programs start).Reachable s) : ∃ locks, LocksMatch rank level keep s locks := by
  refine reached.invariant (fun s => ∃ locks, LocksMatch rank level keep s locks) (fun first initial => ?_) ?_
  · refine ⟨fun _ => [], fun _ _ => rfl, fun cpu call program running => ?_, fun mutex => ?_, fun _ _ _ none => ?_,
      fun _ => List.nodup_nil⟩
    · cases (initial.1 cpu).symm.trans running
    · simp [initial.2.1 mutex]
    · cases none
  · intro before label after _ same taken
    obtain ⟨locks, same⟩ := same
    cases taken with
    | begins cpu call idle =>
        refine ⟨_, same.moved cpu [] (fun _ => rfl) ?_ (fun mutex => ?_) (fun _ never => by cases never)
          List.nodup_nil⟩
        · intro other program here
          cases here
          exact nested call
        · rw [same.held_iff cpu, same.idle cpu idle]
    | step cpu call program rest held state running stepped => exact same.step running stepped
    | returns cpu call result running =>
        have ended : locks cpu = [] := same.running cpu call _ running
        refine ⟨_, same.moved cpu [] (fun _ => rfl) (fun _ _ here => by cases here) (fun mutex => ?_)
          (fun _ never => by cases never) List.nodup_nil⟩
        rw [same.held_iff cpu, ended]

/-- A processor that can go on, has come to its end, or has stopped at a fault. -/
def Goes (s : Processors Cpu Lock Fault State Call Result) (cpu : Cpu) : Prop :=
  ∃ call program, s.running cpu = some (call, program) ∧
    ((∃ next, program.step s.held s.state = some next) ∨ (∃ result, program = .ret result) ∨
      ∃ fault, program = .stop fault)

omit [DecidableEq Cpu] in
theorem LocksMatch.goes_or_waits (same : LocksMatch rank level keep s locks) {program : Program Lock Fault State Result}
    (running : s.running cpu = some (call, program)) :
    Goes s cpu ∨ ∃ mutex, s.held mutex = true ∧ ∀ other ∈ locks cpu, rank mutex < rank other := by
  cases stepped : program.step s.held s.state with
  | some next => exact Or.inl ⟨call, program, running, Or.inl ⟨next, stepped⟩⟩
  | none =>
      obtain ended | stopped | freed | waits := (same.running cpu call program running).stuck stepped
      · exact Or.inl ⟨call, program, running, Or.inr (Or.inl ended)⟩
      · exact Or.inl ⟨call, program, running, Or.inr (Or.inr stopped)⟩
      · obtain ⟨mutex, member, free⟩ := freed
        cases ((same.held mutex).mpr ⟨cpu, member⟩).symm.trans free
      · exact Or.inr waits

omit [DecidableEq Cpu] in
/-- Whoever holds a lock goes on, or waits for one of a lower rank. -/
theorem LocksMatch.held_goes (same : LocksMatch rank level keep s locks) {mutex : Lock} (taken : s.held mutex = true) :
    ∃ other, Goes s other := by
  induction ranked : rank mutex using Nat.strong_induction_on generalizing mutex with
  | _ n ih =>
      obtain ⟨holder, member⟩ := (same.held mutex).mp taken
      cases running : s.running holder with
      | none =>
          rw [same.idle holder running] at member
          cases member
      | some going =>
          obtain ⟨call, program⟩ := going
          obtain goes | ⟨other, otherTaken, lower⟩ := same.goes_or_waits running
          · exact ⟨holder, goes⟩
          · exact ih (rank other) (ranked ▸ lower mutex member) otherTaken rfl

/-- Where locks are taken by falling ranks, processors never all wait for one another. -/
theorem nested_goes (nested : ∀ call, Nested rank level keep (programs call))
    (reached : (system Cpu programs start).Reachable s) {program : Program Lock Fault State Result}
    (running : s.running cpu = some (call, program)) : ∃ other, Goes s other := by
  obtain ⟨locks, same⟩ := locks_match nested reached
  obtain goes | ⟨mutex, taken, _⟩ := same.goes_or_waits running
  · exact ⟨cpu, goes⟩
  · exact same.held_goes taken

/-- As long as none has stopped at a fault, one of them takes a step or returns. -/
theorem nested_advances (nested : ∀ call, Nested rank level keep (programs call))
    (reached : (system Cpu programs start).Reachable s)
    (sound : ∀ cpu call fault, s.running cpu ≠ some (call, .stop fault)) {program : Program Lock Fault State Result}
    (running : s.running cpu = some (call, program)) :
    ∃ label next, (system Cpu programs start).step s label next ∧ ∀ cpu call, label ≠ some (.begins cpu call) := by
  obtain ⟨other, call, program, running, goes⟩ := nested_goes nested reached running
  obtain ⟨⟨held, state, rest⟩, stepped⟩ | ⟨result, rfl⟩ | ⟨fault, rfl⟩ := goes
  · exact ⟨_, _, .step s other call program rest held state running stepped, fun _ _ same => by cases same⟩
  · exact ⟨_, _, .returns s other call result running, fun _ _ same => by cases same⟩
  · exact absurd running (sound other call fault)

/-- With no call under way, every lock is free. -/
theorem nested_idle (nested : ∀ call, Nested rank level keep (programs call))
    (reached : (system Cpu programs start).Reachable s) (idle : ∀ cpu, s.running cpu = none) (mutex : Lock) :
    s.held mutex = false := by
  obtain ⟨locks, same⟩ := locks_match nested reached
  refine Bool.eq_false_iff.mpr fun taken => ?_
  obtain ⟨holder, member⟩ := (same.held mutex).mp taken
  rw [same.idle holder (idle holder)] at member
  cases member

end

end Bwuhos.Data.Processors
