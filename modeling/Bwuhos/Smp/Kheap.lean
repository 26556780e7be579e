import Bwuhos.Kheap.Runs
import Bwuhos.Smp.Memory

namespace Bwuhos.Smp

open Bwuhos.Data Program
open Bwuhos.Locking (Mutex Machine Env)

/-! # The kernel heap on any number of processors -/

/-- The heap whose calls are each one step.  The pages come from outside, so a call does
what `kheap_alloc` does with some answers of `pmm_alloc`, whatever pages were mapped before. -/
def kheapObject (start : Kheap → Prop) : AtomicObject Nat Nat Kheap where
  start := start
  effect n kh ret after := ∃ fuel answers taken, ∀ mapped, ∃ calls,
    Bwuhos.kheapAlloc fuel { kh with mapped, pmm := answers, taken := 0 } n =
      some (ret, { after with mapped := calls, pmm := answers, taken })

/-- The growth loop with `left` rounds left, and the heap as it is then.  Until now the call
has taken so many answers, and it goes on as the loop does whatever the later ones are. -/
def Grown (n : Nat) (first now : Kheap) (left : Nat) : Prop :=
  ∃ (fuel taken : Nat) (answers : Nat → Nat), ∀ later, (∀ call < taken, later call = answers call) →
    ∀ mapped, ∃ calls, ∀ more ≥ fuel, Bwuhos.kheapAlloc more { first with mapped, pmm := later, taken := 0 } n =
      Bwuhos.kheapGrow more n left { now with mapped := calls, pmm := later, taken }

section

variable {kh first now : Kheap} {fuel n left new paddr : Nat} {start : Kheap → Prop}

/-- The search for a free place reads the blocks only. -/
theorem findFree_asking (kh : Kheap) (mapped : List MapCur) (answers : Nat → Nat) (taken : Nat) :
    Bwuhos.findFree fuel { kh with mapped, pmm := answers, taken } n = Bwuhos.findFree fuel kh n := rfl

theorem kheapObject_takes (found : Bwuhos.findFree fuel kh n = some new) (notNull : new ≠ 0) :
    (kheapObject start).effect n kh (new + khEntSize) (appendBlock kh new n) := by
  refine ⟨fuel, fun _ => 0, 0, fun mapped => ⟨mapped, ?_⟩⟩
  obtain ⟨place, rfl⟩ := Nat.exists_eq_succ_of_ne_zero notNull
  rw [Bwuhos.kheapAlloc, findFree_asking, found]
  rfl

theorem Grown.begin (full : Bwuhos.findFree fuel kh n = some 0) : Grown n kh kh (khMaxNpages - kh.khNpages) := by
  refine ⟨fuel, 0, fun _ => 0, fun later _ mapped => ⟨mapped, fun more less => ?_⟩⟩
  rw [Bwuhos.kheapAlloc, findFree_asking, findFree_mono less full]
  rfl

theorem Grown.over (grown : Grown n first now 0) : (kheapObject start).effect n first 0 now := by
  obtain ⟨fuel, taken, answers, goes⟩ := grown
  refine ⟨fuel, answers, taken, fun mapped => ?_⟩
  obtain ⟨calls, same⟩ := goes answers (fun _ _ => rfl) mapped
  exact ⟨calls, same fuel (Nat.le_refl fuel)⟩

/-- The answers so far and one more. -/
theorem agrees_before {answers later : Nat → Nat} {taken paddr : Nat}
    (agrees : ∀ call < taken + 1, later call = Function.update answers taken paddr call) :
    (∀ call < taken, later call = answers call) ∧ later taken = paddr := by
  refine ⟨fun call before => ?_, ?_⟩
  · rw [agrees call (Nat.lt_succ_of_lt before), Function.update_of_ne (Nat.ne_of_lt before)]
  · rw [agrees taken (Nat.lt_succ_self taken), Function.update_self]

theorem Grown.refused (grown : Grown n first now (left + 1)) : (kheapObject start).effect n first 0 now := by
  obtain ⟨fuel, taken, answers, goes⟩ := grown
  refine ⟨fuel, Function.update answers taken physAddrNull, taken + 1, fun mapped => ?_⟩
  obtain ⟨before, answered⟩ := @agrees_before answers _ taken physAddrNull fun _ _ => rfl
  obtain ⟨calls, same⟩ := goes _ before mapped
  refine ⟨calls, (same fuel (Nat.le_refl fuel)).trans ?_⟩
  rw [Bwuhos.kheapGrow]
  exact if_pos answered

/-- A round that maps the page which it was given. -/
theorem Grown.mapped (grown : Grown n first now (left + 1)) (page : paddr ≠ physAddrNull) :
    ∃ (fuel taken : Nat) (answers : Nat → Nat), ∀ later, (∀ call < taken, later call = answers call) →
      ∀ mapped, ∃ calls, ∀ more ≥ fuel, Bwuhos.kheapAlloc more { first with mapped, pmm := later, taken := 0 } n =
        match Bwuhos.findFree more { now with khNpages := now.khNpages + 1 } n with
        | none => none
        | some 0 => Bwuhos.kheapGrow more n left
            { now with khNpages := now.khNpages + 1, mapped := calls, pmm := later, taken }
        | some new => some (new + khEntSize, appendBlock
            { now with khNpages := now.khNpages + 1, mapped := calls, pmm := later, taken } new n) := by
  obtain ⟨fuel, taken, answers, goes⟩ := grown
  refine ⟨fuel, taken + 1, Function.update answers taken paddr, fun later agrees mapped => ?_⟩
  obtain ⟨before, answered⟩ := agrees_before agrees
  obtain ⟨calls, same⟩ := goes later before mapped
  refine ⟨calls ++ [{ paddr, vaddr := now.limit, flags := vfWrite }], fun more less => (same more less).trans ?_⟩
  rw [Bwuhos.kheapGrow]
  subst answered
  exact if_neg page

theorem Grown.next (grown : Grown n first now (left + 1)) (page : paddr ≠ physAddrNull)
    (full : Bwuhos.findFree fuel { now with khNpages := now.khNpages + 1 } n = some 0) :
    Grown n first { now with khNpages := now.khNpages + 1 } left := by
  obtain ⟨least, taken, answers, goes⟩ := grown.mapped page
  refine ⟨max least fuel, taken, answers, fun later agrees mapped => ?_⟩
  obtain ⟨calls, same⟩ := goes later agrees mapped
  refine ⟨calls, fun more less => (same more (Nat.le_trans (Nat.le_max_left _ _) less)).trans ?_⟩
  rw [findFree_mono (Nat.le_trans (Nat.le_max_right _ _) less) full]
  rfl

theorem Grown.takes (grown : Grown n first now (left + 1)) (page : paddr ≠ physAddrNull)
    (found : Bwuhos.findFree fuel { now with khNpages := now.khNpages + 1 } n = some new) (notNull : new ≠ 0) :
    (kheapObject start).effect n first (new + khEntSize)
      (appendBlock { now with khNpages := now.khNpages + 1 } new n) := by
  obtain ⟨least, taken, answers, goes⟩ := grown.mapped page
  refine ⟨max least fuel, answers, taken, fun mapped => ?_⟩
  obtain ⟨calls, same⟩ := goes answers (fun _ _ => rfl) mapped
  refine ⟨calls, (same _ (Nat.le_max_left _ _)).trans ?_⟩
  obtain ⟨place, rfl⟩ := Nat.exists_eq_succ_of_ne_zero notNull
  rw [findFree_mono (Nat.le_max_right _ _) found]
  rfl

end

section

variable {World : Type} {first now : Kheap} {n left new : Nat}

abbrev kheapRules (World : Type) (n : Nat) : Rules Mutex (Machine World) (Stage Kheap Nat) :=
  sectionRules .kheap (fun machine => machine.kheap) ((kheapObject fun _ => True).effect n)

/-- Whatever takes only mutexes below that of the heap leaves the section as it is. -/
theorem sparing_quiet {Result : Type} {program : Kernel World Result} (nested : NestedCall 3 sparesKheap program)
    (stage : Stage Kheap Nat) : Follows (kheapRules World n) program stage fun _ reached => reached = stage :=
  Nested.quiet nested (show 3 ≤ Mutex.rank .kheap from Nat.le_refl 3) (fun _ _ same => same) stage

abbrev ComputesKheap {Result : Type} (program : KheapProgram Result) (kh : Kheap) (result : Result) (final : Kheap) :
    Prop :=
  Computes .outOfFuel 0 program kh result final

theorem onKheap_follows {Result : Type} {program : KheapProgram Result} {last : Kheap} {result : Result}
    (computes : ComputesKheap program now result last) (free : LockFree program) (first : Kheap) :
    Follows (kheapRules World n) (onKheap program) (.inside first now) fun value stage =>
      value = result ∧ stage = .inside first last :=
  computes.follows free kheap_lens first

theorem findFree_follows (first now : Kheap) :
    Follows (kheapRules World n) (onKheap (findFree n)) (.inside first now) fun new stage =>
      (∃ fuel, Bwuhos.findFree fuel now n = some new) ∧ stage = .inside first now := by
  refine ((findFree_lockFree n).returns kheap_lens .outOfFuel first now).mono fun new stage reached => ?_
  obtain ⟨fuel, last, computes, rfl⟩ := reached
  have ran := computes fun _ => false
  rw [findFree_run] at ran
  cases found : Bwuhos.findFree fuel now n with
  | none =>
      rw [found] at ran
      cases ran
  | some place =>
      rw [found] at ran
      cases ran
      exact ⟨⟨fuel, found⟩, rfl⟩

theorem fillPlace_computes (kh : Kheap) (new n : Nat) :
    ComputesKheap (fillPlace new n) kh () (appendBlock kh new n) :=
  .bind (.modify _ _) <| .bind (.get _ _) <| .bind (.modify _ _) (.modify _ _)

theorem takePlace_section
    (effected : (kheapObject fun _ => True).effect n first (new + khEntSize) (appendBlock now new n)) :
    Follows (kheapRules World n) (takePlace new n) (.inside first now) fun ret stage => stage = .after ret := by
  have fills := fillPlace_computes now new n
  refine .bind ((onKheap_follows fills (fillPlace_lockFree new n) first).mono fun _ stage reached => ?_)
  obtain ⟨_, rfl⟩ := reached
  exact follows_leave effected rfl

theorem printed_section (env : Env World) (msg : String)
    (effected : (kheapObject fun _ => True).effect n first 0 now) :
    Follows (kheapRules World n) (do
      kuPrintln env .err msg []
      unlock .kheap
      return 0) (.inside first now) fun ret stage => stage = .after ret := by
  refine .bind ((sparing_quiet (printed_sparing env _ _ _ (by decide)) _).mono fun _ stage same => ?_)
  subst same
  exact follows_leave effected rfl

/-- Each round goes on as the sequential loop does with one more answer. -/
theorem kheapGrow_section (env : Env World) (grown : Grown n first now left) :
    Follows (kheapRules World n) (kheapGrow env n left) (.inside first now) fun ret stage => stage = .after ret := by
  induction left generalizing now with
  | zero => exact printed_section env _ grown.over
  | succ left ih =>
      refine .bind ((sparing_quiet (pmmAlloc_sparing env (by decide)) _).mono fun paddr stage same => ?_)
      subst same
      by_cases null : paddr = physAddrNull
      · rw [if_pos null]
        exact printed_section env _ grown.refused
      · rw [if_neg null]
        have limit : ComputesKheap (get Kheap.limit) now now.limit now := .get _ _
        refine .bind ((onKheap_follows limit trivial first).mono fun vaddr stage reached => ?_)
        obtain ⟨rfl, rfl⟩ := reached
        refine .bind ((sparing_quiet (vmmMapCur_sparing env _ _ _ (by decide)) _).mono fun _ stage same => ?_)
        subst same
        have counts : ComputesKheap (modify fun kh => { kh with khNpages := kh.khNpages + 1 }) now () _ := .modify _ _
        refine .bind ((onKheap_follows counts trivial first).mono fun _ stage reached => ?_)
        obtain ⟨_, rfl⟩ := reached
        refine .bind ((findFree_follows first _).mono fun new stage reached => ?_)
        obtain ⟨⟨fuel, found⟩, rfl⟩ := reached
        by_cases full : new = 0
        · subst full
          exact ih (grown.next null found)
        · rw [if_pos full]
          exact takePlace_section (grown.takes null found full)

theorem kheapAlloc_section (env : Env World) (n : Nat) :
    Follows (kheapRules World n) (kheapAlloc env n) .before fun ret stage => stage = .after ret := by
  refine follows_enter fun now => .bind ((findFree_follows now now).mono fun new stage reached => ?_)
  obtain ⟨⟨fuel, found⟩, rfl⟩ := reached
  by_cases full : new = 0
  · subst full
    have left : ComputesKheap (get fun kh => khMaxNpages - kh.khNpages) now _ now := .get _ _
    refine .bind ((onKheap_follows left trivial now).mono fun left stage reached => ?_)
    obtain ⟨rfl, rfl⟩ := reached
    exact kheapGrow_section env (.begin found)
  · rw [if_pos full]
    exact takePlace_section (kheapObject_takes found full)

open TransitionSystem Processors

variable {Cpu : Type} [DecidableEq Cpu]

theorem kheap_simulates (env : Env World) (start : Kheap → Prop) :
    Simulates (system Cpu (kheapAlloc env) fun machine => start machine.kheap) ((kheapObject start).system Cpu)
      (Matches .kheap (fun machine => machine.kheap) (kheapObject start)) :=
  sections_simulate (fun _ starts => starts) (kheapAlloc_section env)

/-- Whatever the order of their accesses to the headers, the static variables and the page
tables, the calls of any number of processors take effect one at a time. -/
theorem kheap_atomic (env : Env World) (start : Kheap → Prop) {trace : List (CallEvent Cpu Nat Nat)}
    (traced : (system Cpu (kheapAlloc env) fun machine => start machine.kheap).Trace trace) :
    ((kheapObject start).system Cpu).Trace trace :=
  (kheap_simulates env start).traces traced

end

/-- A number of bytes that the window of the heap can hold. -/
abbrev Request : Type := { n : Nat // n ≤ khMaxNpages * pageSize }

def requestObject : AtomicObject Request Nat Kheap where
  start kh := ∃ mem pmm, kh = (kheapInit (kheapStart mem pmm)).2
  effect request := (kheapObject fun _ => True).effect request.1

/-- Who allocates a block has it for good. -/
def blockLoans : Loans Request Nat Area where
  takes request ret := if ret = 0 then none else some ⟨ret, request.1⟩
  gives _ := none
  apart _ _ _ never := by cases never

/-- The heap is in shape, and these areas are blocks of it. -/
def HeapBlocks (kh : Kheap) (out : Finset Area) : Prop :=
  ∃ mapped blocks, HeapShape { kh with mapped } blocks ∧ ∀ area ∈ out, ∃ ent ∈ blocks, area = blockArea kh ent

section

variable {kh after : Kheap} {blocks : List Nat} {mapped : List MapCur} {out : Finset Area} {n ret : Nat}

theorem HeapShape.asking (shape : HeapShape kh blocks) (pmm : Nat → Nat) (taken : Nat) :
    HeapShape { kh with pmm, taken } blocks :=
  ⟨shape.chain, shape.tail, shape.aligned, shape.inside, shape.disjoint, shape.bounded, shape.window, shape.backed⟩

theorem kheapObject_outcome (shape : HeapShape { kh with mapped } blocks) (small : n ≤ khMaxNpages * pageSize)
    (effect : (kheapObject fun _ => True).effect n kh ret after) :
    ∃ calls, AllocOutcome { kh with mapped } blocks n ret { after with mapped := calls } := by
  obtain ⟨fuel, answers, taken, goes⟩ := effect
  obtain ⟨calls, answered⟩ := goes mapped
  obtain ⟨_, _, full, outcome⟩ := kheapAlloc_spec (HeapShape.asking shape answers 0) (Nat.lt_succ_self _) small
  obtain ⟨rfl, rfl⟩ := Prod.mk.inj (kheapAlloc_agree answered full)
  obtain ⟨added, shaped, sizes, ends⟩ := outcome
  exact ⟨calls, added, HeapShape.asking shaped after.pmm after.taken, sizes, ends⟩

theorem HeapBlocks.taken (blocks : HeapBlocks kh out) (small : n ≤ khMaxNpages * pageSize)
    (effect : (kheapObject fun _ => True).effect n kh ret after) :
    if ret = 0 then HeapBlocks after out else ⟨ret, n⟩ ∉ out ∧ HeapBlocks after (insert ⟨ret, n⟩ out) := by
  obtain ⟨mapped, blocks, shape, areas⟩ := blocks
  obtain ⟨calls, added, shaped, sizes, ends⟩ := kheapObject_outcome shape small effect
  have kept : ∀ area ∈ out, ∃ ent ∈ blocks, area = blockArea after ent := by
    intro area member
    obtain ⟨ent, listed, rfl⟩ := areas area member
    exact ⟨ent, listed, congrArg (Area.mk _) (sizes ent listed).symm⟩
  obtain ⟨rfl, rfl⟩ | ⟨new, rfl, rfl, size⟩ := ends
  · rw [if_pos rfl]
    exact ⟨calls, _, shaped, fun area member => by simpa using kept area member⟩
  · have notNull : new + khEntSize ≠ 0 := Nat.succ_ne_zero _
    rw [if_neg notNull]
    have here : blockArea after new = ⟨new + khEntSize, n⟩ := congrArg (Area.mk _) size
    refine ⟨fun member => ?_, calls, _, shaped, fun area member => ?_⟩
    · obtain ⟨ent, listed, same⟩ := kept _ member
      obtain ⟨_, _, apart⟩ := List.nodup_append.mp (HeapShape.nodup shaped)
      exact apart ent listed new (List.mem_singleton_self new) (Nat.add_right_cancel (congrArg Area.addr same).symm)
    · obtain rfl | old := Finset.mem_insert.mp member
      · exact ⟨new, List.mem_append_right _ (List.mem_singleton_self new), here.symm⟩
      · obtain ⟨ent, listed, same⟩ := kept area old
        exact ⟨ent, List.mem_append_left _ listed, same⟩

theorem requestObject_lends : Lends requestObject blockLoans HeapBlocks ∅ where
  start := by
    intro kh booted
    obtain ⟨mem, pmm, rfl⟩ := booted
    obtain ⟨blocks, shape⟩ := @kheapInit_shape mem pmm
    exact ⟨_, blocks, shape, fun area member => absurd member (Finset.notMem_empty area)⟩
  takes := by
    intro request ret area kh after out effect blocks _ takes
    have taken := blocks.taken request.2 effect
    simp only [blockLoans] at takes
    split at takes
    · cases takes
    · next notNull =>
        cases takes
        rwa [if_neg notNull] at taken
  gives := by
    intro request ret area kh after out effect blocks gives
    cases gives
  other := by
    intro request ret kh after out effect blocks _ nothing
    have taken := blocks.taken request.2 effect
    simp only [blockLoans] at nothing
    split at nothing
    · next null => rwa [if_pos null] at taken
    · cases nothing

end

section

open TransitionSystem Processors

variable {World Cpu : Type} [DecidableEq Cpu]

/-- Calls for blocks after the kernel has made its heap. -/
def kheaps (Cpu : Type) [DecidableEq Cpu] (env : Env World) :
    TransitionSystem (Processors Cpu Mutex Stop (Machine World) Request Nat) (Option (CallEvent Cpu Request Nat)) :=
  system Cpu (fun request : Request => kheapAlloc env request.1) fun machine => requestObject.start machine.kheap

variable {env : Env World} {first last : Processors Cpu Mutex Stop (Machine World) Request Nat}
  {labels : List (Option (CallEvent Cpu Request Nat))}

/-- The blocks of all processors lie in the window of the heap, aligned and apart, and
between calls in the pages that are mapped. -/
theorem kheap_exclusive (starts : (kheaps Cpu env).initial first) (run : (kheaps Cpu env).Run first labels last) :
    (blockLoans.holdings (visible labels)).Pairwise (fun one other => one.2.Apart other.2) ∧
      (∀ pair ∈ blockLoans.holdings (visible labels), pair.2.addr % 16 = 0 ∧ khStart + khEntSize ≤ pair.2.addr ∧
        pair.2.addr + pair.2.size ≤ khStart + pageSize * khMaxNpages) ∧
      ((∀ cpu, last.running cpu = none) → ∀ pair ∈ blockLoans.holdings (visible labels),
        pair.2.addr + pair.2.size ≤ khStart + pageSize * last.state.kheap.khNpages) := by
  have simulates := @sections_simulate Cpu Mutex Stop (Machine World) Kheap Request Nat _ _ .kheap
    (fun machine => machine.kheap) requestObject (fun request => kheapAlloc env request.1)
    (fun machine => requestObject.start machine.kheap) (fun _ starts => starts)
    fun request => kheapAlloc_section env request.1
  obtain ⟨start, begins, same⟩ := simulates.initial first starts
  obtain ⟨others, state, ran, seen, ends⟩ := simulates.run same run
  rw [← seen]
  obtain ⟨nodup, out, ⟨mapped, blocks, shape, areas⟩, _, held, _⟩ :=
    requestObject_lends.exclusive begins ran (blockLoans.honest_of_keeping (fun _ => rfl) _)
  have placed (pair : Cpu × Area) (member : pair ∈ blockLoans.holdings (visible others)) :
      pair.2.addr % 16 = 0 ∧ khStart + khEntSize ≤ pair.2.addr ∧
        pair.2.addr + pair.2.size ≤ khStart + pageSize * state.state.khNpages := by
    obtain ⟨ent, listed, same⟩ := areas pair.2 (held pair member).1
    obtain ⟨low, high⟩ := shape.inside ent listed
    have aligned := shape.aligned ent listed
    rw [same]
    exact ⟨by simp only [blockArea, khEntSize]; omega, Nat.add_le_add_right low _, high⟩
  refine ⟨?_, fun pair member => ?_, fun idle pair member => ?_⟩
  · refine (List.pairwise_map.mp nodup).imp_of_mem fun {one other} member also different => ?_
    obtain ⟨ent, listed, same⟩ := areas one.2 (held one member).1
    obtain ⟨more, alsoListed, alsoSame⟩ := areas other.2 (held other also).1
    rw [same, alsoSame]
    have apart := shape.areas_apart listed alsoListed fun equal => different (same.trans (equal.trans alsoSame.symm))
    exact apart
  · obtain ⟨aligned, low, high⟩ := placed pair member
    exact ⟨aligned, low, Nat.le_trans high (Nat.add_le_add_left (Nat.mul_le_mul_left _ shape.bounded) _)⟩
  · rw [(ends.idle idle).2]
    exact (placed pair member).2.2

end

/-- A machine whose heap has one page. -/
def heapMachine : Machine Unit :=
  { smallMachine with kheap := (kheapInit (kheapStart (fun _ => 0) fun _ => pageSize)).2 }

def heapEnv : Env Unit := { quietEnv with fuel := 4 }

/-- The machine behind the first call. -/
def oneBlock : Machine Unit := { heapMachine with kheap := appendBlock heapMachine.kheap (khStart + 32) 24 }

def heapProcessors (Call : Type) (state : Machine Unit) : Processors Bool Mutex Stop (Machine Unit) Call Nat where
  running := fun _ => none
  held := fun _ => false
  state := state

section

open TransitionSystem Processors

/-- A call that finds the mutex free and a place behind the blocks that there are. -/
theorem kheapAlloc_takes {World : Type} (env : Env World) {held : Mutex → Bool} {machine : Machine World} {n new : Nat}
    (free : held .kheap = false) (found : Bwuhos.findFree env.fuel machine.kheap n = some new) (notNull : new ≠ 0) :
    (kheapAlloc env n).run .outOfFuel env.fuel held machine =
      .returned (new + khEntSize) held { machine with kheap := appendBlock machine.kheap new n } := by
  have fills := ((fillPlace_computes machine.kheap new n).more (Nat.zero_le env.fuel)).zoom kheap_lens
  refine (lock_run free _).trans ?_
  change Locked.andThen ((onKheap (findFree n)).run .outOfFuel env.fuel) _ _ machine = _
  rw [Locked.andThen, onKheap_findFree_run, Locking.findFree, Locked.act, found]
  simp only [if_pos notNull]
  refine (fills.bind_run _ _).trans ?_
  change Locked.andThen ((unlock Mutex.kheap).run Stop.outOfFuel env.fuel) _ _ _ = _
  rw [Locked.andThen, unlock_run free]
  rfl

theorem twoBlocks_run {Call : Type} (size : Call → Nat) (start : Machine Unit → Prop) {one two : Call}
    (small : size one = 24) (large : size two = 100) :
    ∃ labels last, (system Bool (fun call => kheapAlloc heapEnv (size call)) start).Run
        (heapProcessors Call heapMachine) labels last ∧
      visible labels = [.begins false one, .returns false one (khStart + 48),
        .begins true two, .returns true two (khStart + 96)] := by
  have found : Bwuhos.findFree 4 heapMachine.kheap 24 = some (khStart + 32) := by decide
  have foundThen : Bwuhos.findFree 4 (appendBlock heapMachine.kheap (khStart + 32) 24) 100 = some (khStart + 80) := by
    decide
  have first : (kheapAlloc heapEnv (size one)).run .outOfFuel 4 (fun _ => false) heapMachine =
      .returned (khStart + 48) (fun _ => false) oneBlock := by
    rw [small]
    exact kheapAlloc_takes heapEnv rfl found (by decide)
  obtain ⟨final, second⟩ : ∃ final, (kheapAlloc heapEnv (size two)).run .outOfFuel 4 (fun _ => false) oneBlock =
      .returned (khStart + 96) (fun _ => false) final := by
    rw [large]
    exact ⟨_, kheapAlloc_takes heapEnv rfl foundThen (by decide)⟩
  obtain ⟨labels, begins, seen⟩ := @call_alone _ _ _ _ _ _ _ _ one (fun call => kheapAlloc heapEnv (size call)) start
    _ _ _ _ _ (heapProcessors Call heapMachine) false rfl first
  obtain ⟨others, ends, seenThen⟩ := @call_alone _ _ _ _ _ _ _ _ two (fun call => kheapAlloc heapEnv (size call)) start
    _ _ _ _ _ (heapProcessors Call oneBlock) true rfl second
  refine ⟨_, _, begins.append ends, ?_⟩
  rw [visible_append, seen, seenThen]
  rfl

theorem kheap_atomic_twoBlocks : ((kheapObject fun kh => kh = heapMachine.kheap).system Bool).Trace
    [.begins false 24, .returns false 24 (khStart + 48), .begins true 100, .returns true 100 (khStart + 96)] := by
  obtain ⟨labels, last, run, seen⟩ := twoBlocks_run (fun n : Nat => n)
    (fun machine => machine.kheap = heapMachine.kheap) rfl rfl
  have starts : (system Bool (kheapAlloc heapEnv) fun machine => machine.kheap = heapMachine.kheap).initial
      (heapProcessors Nat heapMachine) := ⟨fun _ => rfl, fun _ => rfl, rfl⟩
  exact kheap_atomic heapEnv _ ⟨_, labels, last, starts, run, seen⟩

theorem kheap_exclusive_twoBlocks : ∃ labels last,
    (kheaps Bool heapEnv).Run (heapProcessors Request heapMachine) labels last ∧
    blockLoans.holdings (visible labels) = [(false, ⟨khStart + 48, 24⟩), (true, ⟨khStart + 96, 100⟩)] ∧
      (blockLoans.holdings (visible labels)).Pairwise fun one other => one.2.Apart other.2 := by
  have fits : 24 ≤ khMaxNpages * pageSize ∧ 100 ≤ khMaxNpages * pageSize := by decide
  obtain ⟨labels, last, run, seen⟩ := twoBlocks_run (fun request : Request => request.1)
    (fun machine => requestObject.start machine.kheap) (show (⟨24, fits.1⟩ : Request).1 = 24 from rfl)
    (show (⟨100, fits.2⟩ : Request).1 = 100 from rfl)
  have starts : (kheaps Bool heapEnv).initial (heapProcessors Request heapMachine) :=
    ⟨fun _ => rfl, fun _ => rfl, _, _, rfl⟩
  refine ⟨labels, last, run, by rw [seen]; rfl, (kheap_exclusive starts run).1⟩

end

end Bwuhos.Smp
