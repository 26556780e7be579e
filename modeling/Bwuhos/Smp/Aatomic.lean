import Bwuhos.Data.Atomic

namespace Bwuhos.Smp

open Bwuhos.Data TransitionSystem

/-! # Mutexes

`aatomic.S` by its instructions, which any number of processors execute in any order, and
`katomic.c` over it.
-/

/-- The instructions of `aatomic.S`.  The operands of the `cmpxchgb` are `[rdi]` and `sil`. -/
inductive Instr where
  | movSil (imm : UInt8)
  | movAl (imm : UInt8)
  | lockCmpxchgb
  | jnz (target : Nat)
  | ret
deriving Repr, DecidableEq

/-- The code that both functions share but for its constants. -/
def aatomicCode (old new : UInt8) : List Instr := [.movSil new, .movAl old, .lockCmpxchgb, .jnz 1, .ret]

def aatomicSet : List Instr := aatomicCode 0 1

def aatomicClr : List Instr := aatomicCode 1 0

/-- The registers of a processor that the code uses.  `rip` counts instructions. -/
structure Regs where
  rip : Nat
  rdi : Nat
  sil : UInt8
  al : UInt8
  zf : Bool
deriving Repr, DecidableEq

abbrev Bytes : Type := Nat → UInt8

def Instr.exec (instr : Instr) (regs : Regs) (mem : Bytes) : Regs × Bytes :=
  match instr with
  | .movSil imm => ({ regs with rip := regs.rip + 1, sil := imm }, mem)
  | .movAl imm => ({ regs with rip := regs.rip + 1, al := imm }, mem)
  | .lockCmpxchgb =>
      if mem regs.rdi = regs.al then
        ({ regs with rip := regs.rip + 1, zf := true }, Function.update mem regs.rdi regs.sil)
      else ({ regs with rip := regs.rip + 1, zf := false, al := mem regs.rdi }, mem)
  | .jnz target => ({ regs with rip := if regs.zf then regs.rip + 1 else target }, mem)
  | .ret => (regs, mem)

/-- The functions of `katomic.c`, with the address of a mutex. -/
inductive MutexCall where
  | kMutexLock (mutex : Nat)
  | kMutexUnlock (mutex : Nat)
deriving Repr, DecidableEq

namespace MutexCall

def mutex : MutexCall → Nat
  | .kMutexLock mutex | .kMutexUnlock mutex => mutex

def code : MutexCall → List Instr
  | .kMutexLock _ => aatomicSet
  | .kMutexUnlock _ => aatomicClr

/-- The value that a call waits for, and the one that it leaves. -/
def old : MutexCall → UInt8
  | .kMutexLock _ => 0
  | .kMutexUnlock _ => 1

def new : MutexCall → UInt8
  | .kMutexLock _ => 1
  | .kMutexUnlock _ => 0

theorem code_eq (call : MutexCall) : call.code = aatomicCode call.old call.new := by
  cases call <;> rfl

end MutexCall

/-- The processors with their registers, and the memory that they share. -/
structure Cores (Cpu : Type) where
  running : Cpu → Option MutexCall
  regs : Cpu → Regs
  mem : Bytes

section

variable {Cpu : Type} [DecidableEq Cpu]

inductive Cores.Step : Cores Cpu → Option (CallEvent Cpu MutexCall Unit) → Cores Cpu → Prop
  | begins (s : Cores Cpu) (cpu : Cpu) (call : MutexCall) (idle : s.running cpu = none) :
      Step s (some (.begins cpu call))
        { s with
          running := Function.update s.running cpu (some call)
          regs := Function.update s.regs cpu { s.regs cpu with rip := 0, rdi := call.mutex } }
  | exec (s : Cores Cpu) (cpu : Cpu) (call : MutexCall) (instr : Instr) (running : s.running cpu = some call)
      (fetched : call.code[(s.regs cpu).rip]? = some instr) (more : instr ≠ .ret) :
      Step s none
        { s with
          regs := Function.update s.regs cpu (instr.exec (s.regs cpu) s.mem).1
          mem := (instr.exec (s.regs cpu) s.mem).2 }
  | returns (s : Cores Cpu) (cpu : Cpu) (call : MutexCall) (running : s.running cpu = some call)
      (fetched : call.code[(s.regs cpu).rip]? = some .ret) :
      Step s (some (.returns cpu call ())) { s with running := Function.update s.running cpu none }

/-- Any number of processors that call the functions of `katomic.c` on a memory. -/
def coresSystem (Cpu : Type) [DecidableEq Cpu] (start : Bytes → Prop) :
    TransitionSystem (Cores Cpu) (Option (CallEvent Cpu MutexCall Unit)) where
  initial s := (∀ cpu, s.running cpu = none) ∧ start s.mem
  step := Cores.Step

/-- A mutex for every byte of memory: what it is for. -/
def mutexObject (start : Bytes → Prop) : AtomicObject MutexCall Unit Bytes where
  start := start
  effect call mem _ after := mem call.mutex = call.old ∧ after = Function.update mem call.mutex call.new

/-- Where a call is in its code, and whether it has taken effect. -/
inductive Position (call : MutexCall) (regs : Regs) : CallPhase MutexCall Unit → Prop
  | entry (rip : regs.rip = 0) : Position call regs (.called call)
  | loads (rip : regs.rip = 1) (sil : regs.sil = call.new) : Position call regs (.called call)
  | exchanges (rip : regs.rip = 2) (sil : regs.sil = call.new) (al : regs.al = call.old) :
      Position call regs (.called call)
  | missed (rip : regs.rip = 3) (sil : regs.sil = call.new) (zf : regs.zf = false) : Position call regs (.called call)
  | exchanged (rip : regs.rip = 3) (zf : regs.zf = true) : Position call regs (.done call ())
  | exit (rip : regs.rip = 4) : Position call regs (.done call ())

/-- The processors, and the calls as they take effect at their exchange. -/
structure CoresMatch (s : Cores Cpu) (a : AtomicState Cpu MutexCall Unit Bytes) : Prop where
  mem : s.mem = a.state
  idle : ∀ cpu, s.running cpu = none → a.phase cpu = .idle
  running : ∀ cpu call, s.running cpu = some call →
    (s.regs cpu).rdi = call.mutex ∧ Position call (s.regs cpu) (a.phase cpu)

variable {s : Cores Cpu} {a : AtomicState Cpu MutexCall Unit Bytes} {cpu : Cpu} {call : MutexCall}

/-- A step of one processor leaves the others where they are. -/
theorem CoresMatch.moved {regs : Regs} {phase : CallPhase MutexCall Unit} {mem : Bytes} (same : CoresMatch s a)
    (running : s.running cpu = some call) (pointer : regs.rdi = call.mutex) (position : Position call regs phase) :
    CoresMatch { s with regs := Function.update s.regs cpu regs, mem }
      { phase := Function.update a.phase cpu phase, state := mem } where
  mem := rfl
  idle := by
    intro other otherIdle
    have different : other ≠ cpu := by
      rintro rfl
      cases otherIdle.symm.trans running
    simp only [Function.update_of_ne different]
    exact same.idle other otherIdle
  running := by
    intro other otherCall otherRunning
    by_cases here : other = cpu
    · subst here
      obtain rfl : call = otherCall := Option.some.inj (running.symm.trans otherRunning)
      simp only [Function.update_self]
      exact ⟨pointer, position⟩
    · simp only [Function.update_of_ne here]
      exact same.running other otherCall otherRunning

/-- An instruction that no other processor sees. -/
theorem CoresMatch.stayed {regs : Regs} (same : CoresMatch s a) (running : s.running cpu = some call)
    (pointer : regs.rdi = call.mutex) (position : Position call regs (a.phase cpu)) :
    CoresMatch { s with regs := Function.update s.regs cpu regs } a := by
  have moved : CoresMatch { s with regs := Function.update s.regs cpu regs }
      { phase := Function.update a.phase cpu (a.phase cpu), state := s.mem } := same.moved running pointer position
  rw [Function.update_eq_self] at moved
  exact ⟨same.mem, moved.idle, moved.running⟩

theorem CoresMatch.begins (same : CoresMatch s a) (call : MutexCall) :
    CoresMatch
      { s with
        running := Function.update s.running cpu (some call)
        regs := Function.update s.regs cpu { s.regs cpu with rip := 0, rdi := call.mutex } }
      { a with phase := Function.update a.phase cpu (.called call) } where
  mem := same.mem
  idle := by
    intro other idle
    by_cases here : other = cpu
    · subst here
      simp only [Function.update_self] at idle
      cases idle
    · simp only [Function.update_of_ne here] at idle ⊢
      exact same.idle other idle
  running := by
    intro other otherCall running
    by_cases here : other = cpu
    · subst here
      simp only [Function.update_self] at running ⊢
      obtain rfl := Option.some.inj running
      exact ⟨rfl, .entry rfl⟩
    · simp only [Function.update_of_ne here] at running ⊢
      exact same.running other otherCall running

theorem CoresMatch.returns (same : CoresMatch s a) :
    CoresMatch { s with running := Function.update s.running cpu none }
      { a with phase := Function.update a.phase cpu .idle } where
  mem := same.mem
  idle := by
    intro other idle
    by_cases here : other = cpu
    · subst here
      simp only [Function.update_self]
    · simp only [Function.update_of_ne here] at idle ⊢
      exact same.idle other idle
  running := by
    intro other otherCall running
    by_cases here : other = cpu
    · subst here
      simp only [Function.update_self] at running
      cases running
    · simp only [Function.update_of_ne here] at running ⊢
      exact same.running other otherCall running

/-- What the exchange does to the mutex is the effect of the call. -/
theorem CoresMatch.exec {start : Bytes → Prop} {instr : Instr} (same : CoresMatch s a)
    (running : s.running cpu = some call) (fetched : call.code[(s.regs cpu).rip]? = some instr) (more : instr ≠ .ret) :
    ∃ labels next, ((mutexObject start).system Cpu).Run a labels next ∧
      visible labels = (none : Option (CallEvent Cpu MutexCall Unit)).toList ∧
      CoresMatch { s with
        regs := Function.update s.regs cpu (instr.exec (s.regs cpu) s.mem).1
        mem := (instr.exec (s.regs cpu) s.mem).2 } next := by
  obtain ⟨pointer, position⟩ := same.running cpu call running
  rw [call.code_eq] at fetched
  generalize phased : a.phase cpu = phase at position
  cases position with
  | entry rip =>
      obtain rfl : Instr.movSil call.new = instr := by simpa [rip, aatomicCode] using fetched
      refine answer_stutter rfl (same.stayed running pointer (phased ▸ .loads ?_ rfl))
      simp [Instr.exec, rip]
  | loads rip sil =>
      obtain rfl : Instr.movAl call.old = instr := by simpa [rip, aatomicCode] using fetched
      refine answer_stutter rfl (same.stayed running pointer (phased ▸ .exchanges ?_ sil rfl))
      simp [Instr.exec, rip]
  | exchanges rip sil al =>
      obtain rfl : Instr.lockCmpxchgb = instr := by simpa [rip, aatomicCode] using fetched
      rw [Instr.exec, pointer, al, sil]
      by_cases free : s.mem call.mutex = call.old
      · rw [if_pos free]
        have effect : (mutexObject start).effect call a.state () (Function.update s.mem call.mutex call.new) := by
          rw [← same.mem]
          exact ⟨free, rfl⟩
        refine answer_same (.effect a cpu call () _ phased effect) (same.moved running rfl (.exchanged ?_ rfl))
        simp [rip]
      · rw [if_neg free]
        refine answer_stutter rfl (same.stayed running rfl (phased ▸ .missed ?_ rfl rfl))
        simp [rip]
  | missed rip sil zf =>
      obtain rfl : Instr.jnz 1 = instr := by simpa [rip, aatomicCode] using fetched
      refine answer_stutter rfl (same.stayed running pointer (phased ▸ .loads ?_ sil))
      simp [Instr.exec, zf]
  | exchanged rip zf =>
      obtain rfl : Instr.jnz 1 = instr := by simpa [rip, aatomicCode] using fetched
      refine answer_stutter rfl (same.stayed running pointer (phased ▸ .exit ?_))
      simp [Instr.exec, zf, rip]
  | exit rip =>
      obtain rfl : Instr.ret = instr := by simpa [rip, aatomicCode] using fetched
      exact absurd rfl more

/-- Only a call that has taken effect reaches the end of the code. -/
theorem Position.returned {regs : Regs} {phase : CallPhase MutexCall Unit} (position : Position call regs phase)
    (fetched : call.code[regs.rip]? = some .ret) : phase = .done call () := by
  rw [call.code_eq] at fetched
  cases position with
  | entry rip => simp [rip, aatomicCode] at fetched
  | loads rip => simp [rip, aatomicCode] at fetched
  | exchanges rip => simp [rip, aatomicCode] at fetched
  | missed rip => simp [rip, aatomicCode] at fetched
  | exchanged rip => rfl
  | exit rip => rfl

theorem cores_simulates (start : Bytes → Prop) :
    Simulates (coresSystem Cpu start) ((mutexObject start).system Cpu) CoresMatch where
  initial := by
    intro first starts
    refine ⟨{ phase := fun _ => .idle, state := first.mem }, ⟨fun _ => rfl, starts.2⟩, rfl, fun _ _ => rfl, ?_⟩
    intro cpu call running
    cases (starts.1 cpu).symm.trans running
  step := by
    intro before label after state same taken
    cases taken with
    | begins cpu call idle =>
        exact answer_same (.begins state cpu call (same.idle cpu idle)) (same.begins call)
    | exec cpu call instr running fetched more => exact same.exec running fetched more
    | returns cpu call running fetched =>
        have done := (same.running cpu call running).2.returned fetched
        exact answer_same (.returns state cpu call () done) same.returns

/-- Whatever the order of their instructions, the calls of any number of processors take
effect one at a time: a lock when its mutex is 0, and an unlock when it is 1. -/
theorem kMutex_atomic (start : Bytes → Prop) {trace : List (CallEvent Cpu MutexCall Unit)}
    (traced : (coresSystem Cpu start).Trace trace) : ((mutexObject start).system Cpu).Trace trace :=
  (cores_simulates start).traces traced

/-- Static mutexes start as zero. -/
def Unlocked (mem : Bytes) : Prop := ∀ mutex, mem mutex = 0

/-- Two processors that have not begun. -/
def idleCores : Cores Bool where
  running _ := none
  regs _ := { rip := 0, rdi := 0, sil := 0, al := 0, zf := false }
  mem _ := 0

theorem idleCores_initial : (coresSystem Bool Unlocked).initial idleCores :=
  ⟨fun _ => rfl, fun mutex => (rfl : idleCores.mem mutex = 0)⟩

/-- Both lock one mutex.  The second reaches its exchange right after the first. -/
theorem contended_run (start : Bytes → Prop) : ∃ labels last, (coresSystem Bool start).Run idleCores labels last ∧
    visible labels =
      [.begins false (.kMutexLock 7), .begins true (.kMutexLock 7), .returns false (.kMutexLock 7) ()] := by
  refine ⟨_, _, .cons (.begins _ false (.kMutexLock 7) rfl) <| .cons (.begins _ true (.kMutexLock 7) rfl) <|
    .cons (.exec _ false _ (.movSil 1) rfl rfl Instr.noConfusion) <|
    .cons (.exec _ true _ (.movSil 1) rfl rfl Instr.noConfusion) <|
    .cons (.exec _ false _ (.movAl 0) rfl rfl Instr.noConfusion) <|
    .cons (.exec _ true _ (.movAl 0) rfl rfl Instr.noConfusion) <|
    .cons (.exec _ false _ .lockCmpxchgb rfl rfl Instr.noConfusion) <|
    .cons (.exec _ true _ .lockCmpxchgb rfl rfl Instr.noConfusion) <|
    .cons (.exec _ false _ (.jnz 1) rfl rfl Instr.noConfusion) <|
    .cons (.returns _ false _ rfl rfl) <| .nil _, rfl⟩

theorem kMutex_atomic_contended : ((mutexObject Unlocked).system Bool).Trace
    [.begins false (.kMutexLock 7), .begins true (.kMutexLock 7), .returns false (.kMutexLock 7) ()] := by
  obtain ⟨labels, last, run, seen⟩ := contended_run Unlocked
  exact kMutex_atomic Unlocked ⟨idleCores, labels, last, idleCores_initial, run, seen⟩

/-- Who returns from a lock has the mutex, up to its call of the unlock. -/
def mutexLoans : Loans MutexCall Unit Nat where
  takes call _ :=
    match call with
    | .kMutexLock mutex => some mutex
    | .kMutexUnlock _ => none
  gives
    | .kMutexLock _ => none
    | .kMutexUnlock mutex => some mutex
  apart call _ _ gives := by
    cases call with
    | kMutexLock mutex => cases gives
    | kMutexUnlock mutex => rfl

/-- The mutexes that are set. -/
def SetMutexes (mem : Bytes) (out : Finset Nat) : Prop := ∀ mutex, mem mutex = if mutex ∈ out then 1 else 0

theorem mutexObject_lends : Lends (mutexObject Unlocked) mutexLoans SetMutexes ∅ where
  start := fun mem unlocked mutex => unlocked mutex
  takes := by
    intro call result item mem after out effect set _ takes
    obtain ⟨free, rfl⟩ := effect
    cases call with
    | kMutexUnlock mutex => cases takes
    | kMutexLock mutex =>
        cases takes
        have outside : item ∉ out := by
          intro inside
          rw [MutexCall.mutex, set item, if_pos inside] at free
          cases free
        refine ⟨outside, fun other => ?_⟩
        by_cases here : other = item
        · simp [here, MutexCall.mutex, MutexCall.new]
        · simp [here, MutexCall.mutex, set other]
  gives := by
    intro call result item mem after out effect set gives _
    obtain ⟨_, rfl⟩ := effect
    cases call with
    | kMutexLock mutex => cases gives
    | kMutexUnlock mutex =>
        cases gives
        intro other
        by_cases here : other = item
        · simp [here, MutexCall.mutex, MutexCall.new]
        · simp [here, MutexCall.mutex, set other]
  other := by
    intro call result mem after out effect set gives takes
    cases call with
    | kMutexLock mutex => cases takes
    | kMutexUnlock mutex => cases gives

/-- As long as no processor unlocks a mutex that it has not locked, no two have the same
one, and those that some processor has are set. -/
theorem kMutex_exclusive {first last : Cores Cpu} {labels : List (Option (CallEvent Cpu MutexCall Unit))}
    (starts : (coresSystem Cpu Unlocked).initial first) (run : (coresSystem Cpu Unlocked).Run first labels last)
    (honest : mutexLoans.HonestTrace (visible labels)) :
    ((mutexLoans.holdings (visible labels)).map Prod.snd).Nodup ∧
      ∀ pair ∈ mutexLoans.holdings (visible labels), last.mem pair.2 = 1 := by
  obtain ⟨start, begins, same⟩ := (cores_simulates Unlocked).initial first starts
  obtain ⟨others, state, ran, seen, ends⟩ := (cores_simulates Unlocked).run same run
  rw [← seen] at honest ⊢
  obtain ⟨nodup, out, set, _, held, _⟩ := mutexObject_lends.exclusive begins ran honest
  refine ⟨nodup, fun pair member => ?_⟩
  rw [ends.mem, set pair.2, if_pos (held pair member).1]

theorem kMutex_exclusive_contended : ∃ labels last, (coresSystem Bool Unlocked).Run idleCores labels last ∧
    mutexLoans.holdings (visible labels) = [(false, 7)] ∧
    ((mutexLoans.holdings (visible labels)).map Prod.snd).Nodup ∧
      ∀ pair ∈ mutexLoans.holdings (visible labels), last.mem pair.2 = 1 := by
  obtain ⟨labels, last, run, seen⟩ := contended_run Unlocked
  refine ⟨labels, last, run, by rw [seen]; rfl, kMutex_exclusive idleCores_initial run ?_⟩
  rw [seen]
  simp [Loans.HonestTrace, Loans.HonestFrom, Loans.Honest, mutexLoans]

/-- The processor can return from its call within so many instructions. -/
def ReturnsWithin (start : Bytes → Prop) (s : Cores Cpu) (cpu : Cpu) (call : MutexCall) (count : Nat) : Prop :=
  ∃ labels last, (coresSystem Cpu start).Run s labels last ∧ labels.length ≤ count ∧
    visible labels = [.returns cpu call ()]

variable {start : Bytes → Prop} {count : Nat}

theorem ReturnsWithin.exec (instr : Instr) {regs : Regs} {mem : Bytes} (running : s.running cpu = some call)
    (fetched : (aatomicCode call.old call.new)[(s.regs cpu).rip]? = some instr) (more : instr ≠ .ret)
    (executed : instr.exec (s.regs cpu) s.mem = (regs, mem))
    (rest : ReturnsWithin start { s with regs := Function.update s.regs cpu regs, mem } cpu call count) :
    ReturnsWithin start s cpu call (count + 1) := by
  obtain ⟨labels, last, run, short, seen⟩ := rest
  have step := Cores.Step.exec s cpu call instr running (call.code_eq ▸ fetched) more
  rw [executed] at step
  exact ⟨none :: labels, last, .cons step run, Nat.succ_le_succ short, seen⟩

theorem returnsWithin_exit (running : s.running cpu = some call) (rip : (s.regs cpu).rip = 4) :
    ReturnsWithin start s cpu call 1 := by
  have fetched : call.code[(s.regs cpu).rip]? = some .ret := by
    rw [call.code_eq, rip]
    rfl
  exact ⟨_, _, .single (.returns s cpu call running fetched), Nat.le_refl 1, rfl⟩

theorem returnsWithin_exchanged (running : s.running cpu = some call) (rip : (s.regs cpu).rip = 3)
    (zf : (s.regs cpu).zf = true) : ReturnsWithin start s cpu call 2 := by
  refine .exec (.jnz 1) running (by rw [rip]; rfl) Instr.noConfusion rfl (returnsWithin_exit running ?_)
  simp [zf, rip]

theorem returnsWithin_exchanges (running : s.running cpu = some call) (rip : (s.regs cpu).rip = 2)
    (free : s.mem (s.regs cpu).rdi = (s.regs cpu).al) : ReturnsWithin start s cpu call 3 := by
  refine .exec .lockCmpxchgb running (by rw [rip]; rfl) Instr.noConfusion (if_pos free) ?_
  exact returnsWithin_exchanged running (by simp [rip]) (by simp)

theorem returnsWithin_loads (running : s.running cpu = some call) (pointer : (s.regs cpu).rdi = call.mutex)
    (rip : (s.regs cpu).rip = 1) (free : s.mem call.mutex = call.old) : ReturnsWithin start s cpu call 4 := by
  refine .exec (.movAl call.old) running (by rw [rip]; rfl) Instr.noConfusion rfl ?_
  exact returnsWithin_exchanges running (by simp [rip]) (by simpa [pointer] using free)

theorem ReturnsWithin.mono {more : Nat} (returns : ReturnsWithin start s cpu call count) (le : count ≤ more) :
    ReturnsWithin start s cpu call more := by
  obtain ⟨labels, last, run, short, seen⟩ := returns
  exact ⟨labels, last, run, Nat.le_trans short le, seen⟩

theorem cores_matched (reached : (coresSystem Cpu start).Reachable s) : ∃ a, CoresMatch s a := by
  refine reached.invariant (fun s => ∃ a, CoresMatch s a) (fun first starts => ?_)
    fun before label after _ same taken => ?_
  · obtain ⟨a, _, same⟩ := (cores_simulates start).initial first starts
    exact ⟨a, same⟩
  · obtain ⟨a, same⟩ := same
    obtain ⟨_, next, _, _, same⟩ := (cores_simulates start).step before label after a same taken
    exact ⟨next, same⟩

/-- A call whose mutex has the value that it waits for is five instructions from its return,
wherever it is and whatever other calls are under way. -/
theorem kMutex_returns (reached : (coresSystem Cpu start).Reachable s) (running : s.running cpu = some call)
    (free : s.mem call.mutex = call.old) : ReturnsWithin start s cpu call 5 := by
  obtain ⟨a, same⟩ := cores_matched reached
  obtain ⟨pointer, position⟩ := same.running cpu call running
  generalize a.phase cpu = phase at position
  cases position with
  | entry rip =>
      refine .exec (.movSil call.new) running (by rw [rip]; rfl) Instr.noConfusion rfl ?_
      exact returnsWithin_loads running (by simpa using pointer) (by simp [rip]) free
  | loads rip sil => exact (returnsWithin_loads running pointer rip free).mono (by decide)
  | exchanges rip sil al =>
      exact (returnsWithin_exchanges running rip (by rw [pointer, al, free])).mono (by decide)
  | missed rip sil zf =>
      refine .exec (.jnz 1) running (by rw [rip]; rfl) Instr.noConfusion rfl ?_
      exact returnsWithin_loads running (by simpa using pointer) (by simp [zf]) free
  | exchanged rip zf => exact (returnsWithin_exchanged running rip zf).mono (by decide)
  | exit rip => exact (returnsWithin_exit running rip).mono (by decide)

theorem kMutex_returns_first : ∃ s : Cores Bool, s.running true = some (.kMutexLock 7) ∧
    ReturnsWithin Unlocked s true (.kMutexLock 7) 5 :=
  ⟨_, rfl, kMutex_returns (.step (.initial idleCores_initial) (Cores.Step.begins _ true (.kMutexLock 7) rfl)) rfl rfl⟩

end

end Bwuhos.Smp
