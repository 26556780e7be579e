import Bwuhos.Data.Atomic
import Bwuhos.Data.Rules

namespace Bwuhos.Data

open TransitionSystem Program

/-! # Processors

Any number of processors that share locks and a state.  Each makes one call after the other
and runs the program of its call one step at a time, in any order with the others.
-/

structure Processors (Cpu Lock Fault State Call Result : Type) where
  running : Cpu → Option (Call × Program Lock Fault State Result)
  held : Lock → Bool
  state : State

namespace Processors

section

variable {Cpu Lock Fault State Call Result : Type} [DecidableEq Cpu] [DecidableEq Lock]

inductive Step (programs : Call → Program Lock Fault State Result) :
    Processors Cpu Lock Fault State Call Result → Option (CallEvent Cpu Call Result) →
      Processors Cpu Lock Fault State Call Result → Prop
  | begins (s : Processors Cpu Lock Fault State Call Result) (cpu : Cpu) (call : Call)
      (idle : s.running cpu = none) :
      Step programs s (some (.begins cpu call))
        { s with running := Function.update s.running cpu (some (call, programs call)) }
  | step (s : Processors Cpu Lock Fault State Call Result) (cpu : Cpu) (call : Call)
      (program rest : Program Lock Fault State Result) (held : Lock → Bool) (state : State)
      (running : s.running cpu = some (call, program))
      (stepped : program.step s.held s.state = some (held, state, rest)) :
      Step programs s none { running := Function.update s.running cpu (some (call, rest)), held, state }
  | returns (s : Processors Cpu Lock Fault State Call Result) (cpu : Cpu) (call : Call) (result : Result)
      (running : s.running cpu = some (call, .ret result)) :
      Step programs s (some (.returns cpu call result)) { s with running := Function.update s.running cpu none }

def system (Cpu : Type) [DecidableEq Cpu] (programs : Call → Program Lock Fault State Result)
    (start : State → Prop) :
    TransitionSystem (Processors Cpu Lock Fault State Call Result) (Option (CallEvent Cpu Call Result)) where
  initial s := (∀ cpu, s.running cpu = none) ∧ (∀ mutex, s.held mutex = false) ∧ start s.state
  step := Step programs

end

section

variable {Cpu Lock Fault State Call Result : Type} [DecidableEq Cpu] [DecidableEq Lock] {call : Call}
  {programs : Call → Program Lock Fault State Result} {start : State → Prop} {timeout : Fault} {fuel : Nat}
  {held after : Lock → Bool} {state final : State} {result : Result}

theorem steps_run {program last : Program Lock Fault State Result} (call : Call) (cpu : Cpu)
    (running : Cpu → Option (Call × Program Lock Fault State Result))
    (steps : Steps held state program after final last) :
    ∃ labels, (system Cpu programs start).Run
      { running := Function.update running cpu (some (call, program)), held, state } labels
      { running := Function.update running cpu (some (call, last)), held := after, state := final } ∧
        visible labels = [] := by
  induction steps with
  | refl => exact ⟨[], .nil _, rfl⟩
  | @next held between _ state middle _ program rest _ stepped _ ih =>
      obtain ⟨labels, run, silent⟩ := ih
      have step : Step programs { running := Function.update running cpu (some (call, program)), held, state } none _ :=
        .step _ cpu call program rest between middle (Function.update_self ..) stepped
      simp only [Function.update_idem] at step
      exact ⟨none :: labels, .cons step run, silent⟩

/-- A call that returns with no other beside it does so on any processor that is free. -/
theorem call_alone {s : Processors Cpu Lock Fault State Call Result} (cpu : Cpu) (idle : s.running cpu = none)
    (returned : (programs call).run timeout fuel s.held s.state = .returned result after final) :
    ∃ labels, (system Cpu programs start).Run s labels { s with held := after, state := final } ∧
      visible labels = [.begins cpu call, .returns cpu call result] := by
  obtain ⟨labels, run, silent⟩ := steps_run call cpu s.running (run_steps returned)
  have ends : Step programs
      { running := Function.update s.running cpu (some (call, .ret result)), held := after, state := final }
      (some (.returns cpu call result)) _ := .returns _ cpu call result (Function.update_self ..)
  simp only [Function.update_idem, ← idle, Function.update_eq_self] at ends
  refine ⟨_, .cons (.begins s cpu call idle) (run.append (.single ends)), ?_⟩
  rw [visible_cons, visible_append, silent]
  rfl

end

end Processors

/-! ## Critical sections

Calls that each take one lock once, and change a part of the state only while they hold it.
-/

/-- How far a call is with its critical section: not begun, inside with the part as it was
at first and as it is now, or behind it with its result fixed. -/
inductive Stage (Part Result : Type) where
  | before
  | inside (first now : Part)
  | after (result : Result)

namespace Stage

variable {Part Result Call : Type}

def phase (call : Call) : Stage Part Result → CallPhase Call Result
  | .before | .inside .. => .called call
  | .after result => .done call result

/-- What an access asks for and leaves.  Nobody else changes the part during the section. -/
def Acts (before after : Part) (post : Stage Part Result → Prop) : Stage Part Result → Prop
  | .inside first now => before = now → post (.inside first after)
  | stage => after = before ∧ post stage

end Stage

/-- The section of a call does to the part what `effect` says. -/
def sectionRules {Lock State Part Result : Type} [DecidableEq Lock] (guard : Lock) (view : State → Part)
    (effect : Part → Result → Part → Prop) : Rules Lock State (Stage Part Result) where
  lock mutex stage post :=
    if mutex = guard then stage = .before ∧ ∀ now, post (.inside now now) else post stage
  unlock mutex stage post :=
    if mutex = guard then
      ∃ first now result, stage = .inside first now ∧ effect first result now ∧ post (.after result)
    else post stage
  act state final stage post := stage.Acts (view state) (view final) post
  lock_mono := by
    intro mutex ghost post wider included allowed
    by_cases here : mutex = guard
    · simp only [if_pos here] at allowed ⊢
      exact ⟨allowed.1, fun now => included _ (allowed.2 now)⟩
    · simp only [if_neg here] at allowed ⊢
      exact included _ allowed
  unlock_mono := by
    intro mutex ghost post wider included allowed
    by_cases here : mutex = guard
    · simp only [if_pos here] at allowed ⊢
      obtain ⟨first, now, result, same, effected, kept⟩ := allowed
      exact ⟨first, now, result, same, effected, included _ kept⟩
    · simp only [if_neg here] at allowed ⊢
      exact included _ allowed
  act_mono := by
    intro state final ghost post wider included allowed
    cases ghost with
    | before => exact ⟨allowed.1, included _ allowed.2⟩
    | inside first now => exact fun same => included _ (allowed same)
    | after result => exact ⟨allowed.1, included _ allowed.2⟩

section

variable {Lock Fault State Part Result Answer : Type} [DecidableEq Lock] {guard : Lock} {view : State → Part}
  {effect : Part → Answer → Part → Prop} {post : Result → Stage Part Answer → Prop}

theorem follows_enter {rest : Unit → Program Lock Fault State Result}
    (follows : ∀ now, Follows (sectionRules guard view effect) (rest ()) (.inside now now) post) :
    Follows (sectionRules guard view effect) (.lock guard >>= rest) .before post :=
  .bind ((if_pos rfl).mpr ⟨rfl, follows⟩)

theorem follows_leave {rest : Unit → Program Lock Fault State Result} {first now : Part} {answer : Answer}
    (effected : effect first answer now)
    (follows : Follows (sectionRules guard view effect) (rest ()) (.after answer) post) :
    Follows (sectionRules guard view effect) (.unlock guard >>= rest) (.inside first now) post :=
  .bind ((if_pos rfl).mpr ⟨first, now, answer, rfl, effected, follows⟩)

/-- Locks other than that of the section. -/
theorem follows_lock {mutex : Lock} {rest : Unit → Program Lock Fault State Result} {stage : Stage Part Answer}
    (other : mutex ≠ guard) (follows : Follows (sectionRules guard view effect) (rest ()) stage post) :
    Follows (sectionRules guard view effect) (.lock mutex >>= rest) stage post :=
  .bind ((if_neg other).mpr follows)

theorem follows_unlock {mutex : Lock} {stage : Stage Part Answer} {post : Unit → Stage Part Answer → Prop}
    (other : mutex ≠ guard) (ends : post () stage) :
    Follows (sectionRules guard view effect) (.unlock mutex : Program Lock Fault State Unit) stage post :=
  (if_neg other).mpr ends

theorem follows_last {first now : Part} {answer : Answer} (effected : effect first answer now) :
    Follows (sectionRules guard view effect) (.unlock guard : Program Lock Fault State Unit) (.inside first now)
      fun _ stage => stage = .after answer :=
  (if_pos rfl).mpr ⟨first, now, answer, rfl, effected, rfl⟩

end

namespace Processors

section

variable {Cpu Lock Fault State Part Call Result : Type} [DecidableEq Cpu] [DecidableEq Lock] {guard : Lock}
  {view : State → Part} {object : AtomicObject Call Result Part}

/-- A processor, the phase of its call in the object, and the stage of its program. -/
def CpuMatch (guard : Lock) (view : State → Part) (object : AtomicObject Call Result Part) :
    Option (Call × Program Lock Fault State Result) → CallPhase Call Result → Stage Part Result → Prop
  | none, phase, stage => phase = .idle ∧ stage = .before
  | some (call, program), phase, stage => phase = stage.phase call ∧
      Follows (sectionRules guard view (object.effect call)) program stage fun result ghost => ghost = .after result

/-- The part is that of the object, but for what is done to it inside a section that is not over. -/
structure SectionsMatch (guard : Lock) (view : State → Part) (object : AtomicObject Call Result Part)
    (s : Processors Cpu Lock Fault State Call Result) (a : AtomicState Cpu Call Result Part)
    (stage : Cpu → Stage Part Result) : Prop where
  cpus : ∀ cpu, CpuMatch guard view object (s.running cpu) (a.phase cpu) (stage cpu)
  inside : ∀ cpu first now, stage cpu = .inside first now → s.held guard = true ∧ view s.state = now ∧ a.state = first
  single : ∀ cpu other first now, stage cpu = .inside first now → ∀ start last, stage other = .inside start last →
    cpu = other
  outside : (∀ cpu first now, stage cpu ≠ .inside first now) → view s.state = a.state

def Matches (guard : Lock) (view : State → Part) (object : AtomicObject Call Result Part)
    (s : Processors Cpu Lock Fault State Call Result) (a : AtomicState Cpu Call Result Part) : Prop :=
  ∃ stage, SectionsMatch guard view object s a stage

variable {s : Processors Cpu Lock Fault State Call Result} {a : AtomicState Cpu Call Result Part}
  {stage : Cpu → Stage Part Result} {cpu : Cpu}

theorem CpuMatch.update {running : Cpu → Option (Call × Program Lock Fault State Result)}
    {phase : Cpu → CallPhase Call Result} {program : Option (Call × Program Lock Fault State Result)}
    {next : CallPhase Call Result} {reached : Stage Part Result}
    (cpus : ∀ cpu, CpuMatch guard view object (running cpu) (phase cpu) (stage cpu))
    (here : CpuMatch guard view object program next reached) (other : Cpu) :
    CpuMatch guard view object (Function.update running cpu program other) (Function.update phase cpu next other)
      (Function.update stage cpu reached other) := by
  by_cases same : other = cpu
  · subst same
    simpa only [Function.update_self] using here
  · simpa only [Function.update_of_ne same] using cpus other

omit [DecidableEq Lock] in
theorem update_inside {reached : Stage Part Result} {other : Cpu} {first now : Part}
    (inside : Function.update stage cpu reached other = .inside first now) :
    (other = cpu ∧ reached = .inside first now) ∨ (other ≠ cpu ∧ stage other = .inside first now) := by
  by_cases here : other = cpu
  · subst here
    rw [Function.update_self] at inside
    exact Or.inl ⟨rfl, inside⟩
  · rw [Function.update_of_ne here] at inside
    exact Or.inr ⟨here, inside⟩

/-- A processor that is inside its section if it was, and sees the part as it was. -/
theorem SectionsMatch.kept (same : SectionsMatch guard view object s a stage) (cpu : Cpu)
    (program : Option (Call × Program Lock Fault State Result)) {next : CallPhase Call Result}
    {reached : Stage Part Result} {held : Lock → Bool} {state : State}
    (here : CpuMatch guard view object program next reached) (locked : held guard = s.held guard)
    (unchanged : view state = view s.state)
    (insides : ∀ first now, reached = .inside first now ↔ stage cpu = .inside first now) :
    SectionsMatch guard view object { running := Function.update s.running cpu program, held, state }
      { a with phase := Function.update a.phase cpu next } (Function.update stage cpu reached) := by
  have before {other : Cpu} {first now : Part} (inside : Function.update stage cpu reached other = .inside first now) :
      stage other = .inside first now := by
    obtain ⟨rfl, now⟩ | ⟨_, before⟩ := update_inside inside
    · exact (insides _ _).mp now
    · exact before
  exact {
    cpus := CpuMatch.update same.cpus here
    inside := fun other first now inside =>
      ⟨locked.trans (same.inside other first now (before inside)).1,
        unchanged.trans (same.inside other first now (before inside)).2.1,
        (same.inside other first now (before inside)).2.2⟩
    single := fun one other first now oneInside start last otherInside =>
      same.single one other first now (before oneInside) start last (before otherInside)
    outside := fun none => unchanged.trans <| same.outside fun other first now inside => by
      by_cases equal : other = cpu
      · subst equal
        refine none other first now ?_
        rw [Function.update_self]
        exact (insides first now).mpr inside
      · refine none other first now ?_
        rwa [Function.update_of_ne equal] }

omit [DecidableEq Cpu] in
theorem SectionsMatch.nobody (same : SectionsMatch guard view object s a stage) (free : s.held guard = false)
    (other : Cpu) (first now : Part) : stage other ≠ .inside first now := by
  intro inside
  cases (same.inside other first now inside).1.symm.trans free

section

variable (cpu : Cpu) (program : Option (Call × Program Lock Fault State Result)) {next : CallPhase Call Result}
  {held : Lock → Bool} {state : State} {first now : Part} {result : Result}

theorem SectionsMatch.enter (same : SectionsMatch guard view object s a stage) (free : s.held guard = false)
    (here : CpuMatch guard view object program next (.inside (view s.state) (view s.state))) :
    SectionsMatch guard view object
      { s with running := Function.update s.running cpu program, held := Function.update s.held guard true }
      { a with phase := Function.update a.phase cpu next }
      (Function.update stage cpu (.inside (view s.state) (view s.state))) where
  cpus := CpuMatch.update same.cpus here
  inside other first now inside := by
    obtain ⟨_, reached⟩ | ⟨_, before⟩ := update_inside inside
    · cases reached
      exact ⟨Function.update_self .., rfl, (same.outside (same.nobody free)).symm⟩
    · exact absurd before (same.nobody free other first now)
  single one other first now oneInside start last otherInside := by
    obtain ⟨rfl, _⟩ | ⟨_, before⟩ := update_inside oneInside
    · obtain ⟨rfl, _⟩ | ⟨_, before⟩ := update_inside otherInside
      · rfl
      · exact absurd before (same.nobody free other start last)
    · exact absurd before (same.nobody free one first now)
  outside none := absurd (Function.update_self ..) (none cpu _ _)

/-- An access to the part inside a section. -/
theorem SectionsMatch.access (same : SectionsMatch guard view object s a stage) (inside : stage cpu = .inside first now)
    (here : CpuMatch guard view object program next (.inside first (view state))) :
    SectionsMatch guard view object { s with running := Function.update s.running cpu program, state }
      { a with phase := Function.update a.phase cpu next }
      (Function.update stage cpu (.inside first (view state))) where
  cpus := CpuMatch.update same.cpus here
  inside other start last otherInside := by
    obtain ⟨_, reached⟩ | ⟨different, before⟩ := update_inside otherInside
    · cases reached
      exact ⟨(same.inside cpu first now inside).1, rfl, (same.inside cpu first now inside).2.2⟩
    · exact absurd (same.single other cpu start last before first now inside) different
  single one other start last oneInside begun final otherInside := by
    obtain ⟨rfl, _⟩ | ⟨different, before⟩ := update_inside oneInside
    · obtain ⟨rfl, _⟩ | ⟨different, before⟩ := update_inside otherInside
      · rfl
      · exact absurd (same.single other one begun final before first now inside) different
    · exact absurd (same.single one cpu start last before first now inside) different
  outside none := absurd (Function.update_self ..) (none cpu _ _)

theorem SectionsMatch.leave (same : SectionsMatch guard view object s a stage) (inside : stage cpu = .inside first now)
    (here : CpuMatch guard view object program next (.after result)) :
    SectionsMatch guard view object { s with running := Function.update s.running cpu program, held }
      { phase := Function.update a.phase cpu next, state := now } (Function.update stage cpu (.after result)) := by
  have nobody (other : Cpu) (start last : Part) :
      Function.update stage cpu (.after result) other ≠ .inside start last := by
    intro otherInside
    obtain ⟨_, reached⟩ | ⟨different, before⟩ := update_inside otherInside
    · cases reached
    · exact different (same.single other cpu start last before first now inside)
  exact {
    cpus := CpuMatch.update same.cpus here
    inside := fun other start last otherInside => absurd otherInside (nobody other start last)
    single := fun one _ start last oneInside _ _ _ => absurd oneInside (nobody one start last)
    outside := fun _ => (same.inside cpu first now inside).2.1 }

end

/-- A step that neither takes the guard nor gives it back nor changes the part leaves the
processor at its stage. -/
theorem SectionsMatch.stays (same : SectionsMatch guard view object s a stage) {call : Call}
    {rest : Program Lock Fault State Result} {held : Lock → Bool} {state : State} (cpu : Cpu)
    (phased : a.phase cpu = (stage cpu).phase call) (locked : held guard = s.held guard)
    (unchanged : view state = view s.state)
    (left : Follows (sectionRules guard view (object.effect call)) rest (stage cpu) fun result ghost =>
      ghost = .after result) :
    Matches guard view object { running := Function.update s.running cpu (some (call, rest)), held, state } a := by
  have moved := same.kept cpu (some (call, rest)) ⟨phased, left⟩ locked unchanged fun _ _ => Iff.rfl
  rw [Function.update_eq_self] at moved
  exact ⟨_, moved⟩

/-- An access of a program to the state is not seen. -/
theorem SectionsMatch.act (same : SectionsMatch guard view object s a stage) {call : Call}
    {rest : Program Lock Fault State Result} {state : State} (cpu : Cpu)
    (phased : a.phase cpu = (stage cpu).phase call)
    (allowed : (sectionRules guard view (object.effect call)).act s.state state (stage cpu) fun ghost =>
      Follows (sectionRules guard view (object.effect call)) rest ghost fun result ghost => ghost = .after result) :
    Matches guard view object { s with running := Function.update s.running cpu (some (call, rest)), state } a := by
  simp only [sectionRules] at allowed
  cases reached : stage cpu with
  | before =>
      rw [reached] at allowed
      exact same.stays cpu phased rfl allowed.1 (reached ▸ allowed.2)
  | after result =>
      rw [reached] at allowed
      exact same.stays cpu phased rfl allowed.1 (reached ▸ allowed.2)
  | inside first now =>
      rw [reached] at allowed phased
      have left := allowed (same.inside cpu first now reached).2.1
      have moved := same.access cpu (some (call, rest)) reached ⟨phased, left⟩
      rw [Function.update_eq_self] at moved
      exact ⟨_, moved⟩

/-- A step of a program is not seen, but for the end of its section, where its call takes effect. -/
theorem SectionsMatch.step {call : Call} {program rest : Program Lock Fault State Result} {held : Lock → Bool}
    {state : State} (same : SectionsMatch guard view object s a stage) (running : s.running cpu = some (call, program))
    (stepped : program.step s.held s.state = some (held, state, rest)) :
    ∃ labels next, (object.system Cpu).Run a labels next ∧
      visible labels = (none : Option (CallEvent Cpu Call Result)).toList ∧
      Matches guard view object { running := Function.update s.running cpu (some (call, rest)), held, state } next := by
  have here := same.cpus cpu
  rw [running] at here
  obtain ⟨phased, follows⟩ := here
  have moves := follows.step stepped
  cases moves with
  | silent kept => exact answer_stutter rfl (same.stays cpu phased rfl rfl kept)
  | lock mutex free allowed =>
      by_cases guarded : mutex = guard
      · subst guarded
        simp only [sectionRules, if_true] at allowed
        obtain ⟨begun, follows⟩ := allowed
        rw [begun] at phased
        have moved := same.enter cpu (some (call, rest)) free ⟨phased, follows (view s.state)⟩
        rw [Function.update_eq_self] at moved
        exact answer_stutter rfl ⟨_, moved⟩
      · simp only [sectionRules, if_neg guarded] at allowed
        exact answer_stutter rfl (same.stays cpu phased (Function.update_of_ne (Ne.symm guarded) ..) rfl allowed)
  | unlock mutex taken allowed =>
      by_cases guarded : mutex = guard
      · subst guarded
        simp only [sectionRules, if_true] at allowed
        obtain ⟨first, now, result, inside, effect, left⟩ := allowed
        rw [inside] at phased
        obtain ⟨_, _, begun⟩ := same.inside cpu first now inside
        refine answer_same (.effect a cpu call result now phased (begun ▸ effect))
          ⟨_, same.leave cpu _ inside ⟨rfl, left⟩⟩
      · simp only [sectionRules, if_neg guarded] at allowed
        exact answer_stutter rfl (same.stays cpu phased (Function.update_of_ne (Ne.symm guarded) ..) rfl allowed)
  | act final allowed => exact answer_stutter rfl (same.act cpu phased allowed)

/-- Programs that each change the part only inside a section of theirs are calls of the
object, whatever the order of their steps. -/
theorem sections_simulate {programs : Call → Program Lock Fault State Result} {start : State → Prop}
    (starts : ∀ state, start state → object.start (view state))
    (implements : ∀ call, Follows (sectionRules guard view (object.effect call)) (programs call) .before
      fun result ghost => ghost = .after result) :
    Simulates (system Cpu programs start) (object.system Cpu) (Matches guard view object) where
  initial := by
    intro first initial
    refine ⟨{ phase := fun _ => .idle, state := view first.state }, ⟨fun _ => rfl, starts _ initial.2.2⟩,
      fun _ => .before, ?_, fun _ _ _ inside => (by cases inside), fun _ _ _ _ inside => (by cases inside),
      fun _ => rfl⟩
    intro cpu
    rw [initial.1 cpu]
    exact ⟨rfl, rfl⟩
  step := by
    intro before label after state same taken
    obtain ⟨stage, same⟩ := same
    cases taken with
    | begins cpu call idle =>
        have here := same.cpus cpu
        rw [idle] at here
        refine answer_same (.begins state cpu call here.1)
          ⟨_, same.kept cpu _ ⟨rfl, implements call⟩ rfl rfl fun _ _ => ?_⟩
        rw [here.2]
    | step cpu call program rest held final running stepped => exact same.step running stepped
    | returns cpu call result running =>
        have here := same.cpus cpu
        rw [running] at here
        obtain ⟨phased, ends⟩ := here
        obtain ends : stage cpu = .after result := ends
        rw [ends] at phased
        refine answer_same (.returns state cpu call result phased) ⟨_, same.kept cpu _ ⟨rfl, rfl⟩ rfl rfl fun _ _ => ?_⟩
        rw [ends]
        simp

omit [DecidableEq Cpu] in
/-- With no call under way, the part is that of the object. -/
theorem Matches.idle (same : Matches guard view object s a) (idle : ∀ cpu, s.running cpu = none) :
    (∀ cpu, a.phase cpu = .idle) ∧ view s.state = a.state := by
  obtain ⟨stage, same⟩ := same
  have here (cpu : Cpu) := same.cpus cpu
  simp only [idle, CpuMatch] at here
  refine ⟨fun cpu => (here cpu).1, same.outside fun cpu first now inside => ?_⟩
  cases (here cpu).2.symm.trans inside

end

end Processors

end Bwuhos.Data
