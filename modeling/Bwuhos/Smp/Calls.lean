import Bwuhos.Smp.Storage

namespace Bwuhos.Smp

open Bwuhos.Data Program TransitionSystem Processors
open Bwuhos.Locking (Mutex Machine Env LogType PrintArg Created)

/-! # Calls of any number of processors

Every function of the kernel that takes a mutex, called from any processor at any time.
-/

/-- A call with its arguments.  The devices are those that the repository creates. -/
inductive KernelCall where
  | spReadCh
  | spWriteCh (ch : Nat)
  | spWriteStr (s : List Char)
  | kuPrint (type : LogType) (msg : List Char) (args : List PrintArg)
  | kuPrintln (type : LogType) (msg : String) (args : List PrintArg)
  | pmmAlloc
  | pmmFree (addr : Nat)
  | pmmAvl (addr : Nat)
  | vmmMapCur (paddr vaddr flags : Nat)
  | kheapAlloc (n : Nat)
  | ataPioDevGet (busIoPort busCtlPort devNum : Nat)
  | ataPioDevId (dev : AtaPioDev)
  | ataPioDevRd (dev : AtaPioDev) (dst : Buffer) (src nsector : Nat)
  | ataPioDevWr (dev : AtaPioDev) (dst : Nat) (src : List UInt8) (nsector : Nat)
  | blkdevMkPart (blkdev : Locking.Blkdev) (created : Created blkdev) (base limit : Nat)
  | blkdevRd (blkdev : Locking.Blkdev) (created : Created blkdev) (dst : Buffer) (src n : Nat)
  | blkdevWr (blkdev : Locking.Blkdev) (created : Created blkdev) (dst : Nat) (src : List UInt8) (n : Nat)
  | blkCacheRd (cache : CacheRef) (created : Created cache.blkdev) (dst : BitVec 64) (addr n : Nat)

namespace KernelCall

variable {World : Type}

/-- A call whose result is left out. -/
def discard {Result : Type} (call : StorageProgram World Result) : StorageProgram World Unit := do
  let _ ← call
  return ()

def program (env : Env World) : KernelCall → StorageProgram World Unit
  | .spReadCh => discard (onMachine (onDevices (Smp.spReadCh env)))
  | .spWriteCh ch => onMachine (onDevices (Smp.spWriteCh env ch))
  | .spWriteStr s => onMachine (onDevices (Smp.spWriteStr env s))
  | .kuPrint type msg args => onMachine (onDevices (kuPrintV env type msg args))
  | .kuPrintln type msg args => onMachine (Smp.kuPrintln env type msg args)
  | .pmmAlloc => discard (onMachine (Smp.pmmAlloc env))
  | .pmmFree addr => onMachine (Smp.pmmFree addr)
  | .pmmAvl addr => discard (onMachine (Smp.pmmAvl addr))
  | .vmmMapCur paddr vaddr flags => onMachine (Smp.vmmMapCur env paddr vaddr flags)
  | .kheapAlloc n => discard (onMachine (Smp.kheapAlloc env n))
  | .ataPioDevGet busIoPort busCtlPort devNum =>
      discard (onMachine (Smp.ataPioDevGet env busIoPort busCtlPort devNum))
  | .ataPioDevId dev => discard (onMachine (Smp.ataPioDevId env dev))
  | .ataPioDevRd dev dst src nsector => discard (onMachine (Smp.ataPioDevRd env dev dst src nsector))
  | .ataPioDevWr dev dst src nsector => discard (onMachine (Smp.ataPioDevWr dev dst src nsector))
  | .blkdevMkPart blkdev _ base limit => discard (Smp.blkdevMkPart env blkdev base limit)
  | .blkdevRd blkdev _ dst src n => discard (onMachine (Smp.blkdevRd env blkdev dst src n))
  | .blkdevWr blkdev _ dst src n => discard (onMachine (Smp.blkdevWr env blkdev dst src n))
  | .blkCacheRd cache _ dst addr n => discard (Smp.blkCacheRd env cache dst addr n)

theorem discard_nested {Result : Type} {level : Nat} {call : StorageProgram World Result}
    (nested : NestedCall level anything call) : NestedCall level anything (discard call) :=
  .bind nested fun _ => .pure ()

/-- Every call takes its mutexes by falling ranks, and gives all of them back. -/
theorem program_nested (env : Env World) (call : KernelCall) : NestedCall 7 anything (call.program env) := by
  cases call with
  | spReadCh => exact discard_nested (onMachine_nested (onDevices_nested (spReadCh_nested env (by decide))))
  | spWriteCh ch => exact onMachine_nested (onDevices_nested (spWriteCh_nested env ch (by decide)))
  | spWriteStr s => exact onMachine_nested (onDevices_nested (spWriteStr_nested env s (by decide)))
  | kuPrint type msg args => exact onMachine_nested (onDevices_nested (kuPrintV_nested env type msg args (by decide)))
  | kuPrintln type msg args => exact onMachine_nested (printed_nested env type msg args (by decide))
  | pmmAlloc => exact discard_nested (onMachine_nested (pmmAlloc_nested env (by decide)))
  | pmmFree addr => exact onMachine_nested (pmmFree_nested addr (by decide))
  | pmmAvl addr => exact discard_nested (onMachine_nested (pmmAvl_nested addr (by decide)))
  | vmmMapCur paddr vaddr flags => exact onMachine_nested (vmmMapCur_nested env paddr vaddr flags (by decide))
  | kheapAlloc n => exact discard_nested (onMachine_nested (kheapAlloc_nested env n (by decide)))
  | ataPioDevGet busIoPort busCtlPort devNum =>
      exact discard_nested (onMachine_nested (ataPioDevGet_nested env _ _ _ (by decide)))
  | ataPioDevId dev => exact discard_nested (onMachine_nested (ataPioDevId_nested env dev (by decide)))
  | ataPioDevRd dev dst src nsector =>
      exact discard_nested (onMachine_nested (ataPioDevRd_nested env dev dst src nsector (by decide)))
  | ataPioDevWr dev dst src nsector =>
      exact discard_nested (onMachine_nested (ataPioDevWr_nested dev dst src nsector (by decide)))
  | blkdevMkPart blkdev created base limit =>
      exact discard_nested (blkdevMkPart_nested env created base limit (by decide))
  | blkdevRd blkdev created dst src n =>
      exact discard_nested (onMachine_nested (blkdevRd_nested env created dst src n (by decide)))
  | blkdevWr blkdev created dst src n =>
      exact discard_nested (onMachine_nested (blkdevWr_nested env created dst src n (by decide)))
  | blkCacheRd cache created dst addr n => exact discard_nested (blkCacheRd_nested env created dst addr n (by decide))

end KernelCall

section

variable {World Cpu : Type} [DecidableEq Cpu]

/-- The processors of a kernel. -/
abbrev Kernels (Cpu World : Type) : Type 1 := Processors Cpu Mutex Stop (Storage World) KernelCall Unit

def kernels (Cpu : Type) [DecidableEq Cpu] {World : Type} (env : Env World) (start : Storage World → Prop) :
    TransitionSystem (Kernels Cpu World) (Option (CallEvent Cpu KernelCall Unit)) :=
  system Cpu (KernelCall.program env) start

variable {env : Env World} {start : Storage World → Prop} {s : Kernels Cpu World}

/-- However the calls of the processors interleave, they never all wait for each other. -/
theorem kernels_advance (reached : (kernels Cpu env start).Reachable s)
    (sound : ∀ cpu call fault, s.running cpu ≠ some (call, .stop fault)) (cpu : Cpu) (busy : s.running cpu ≠ none) :
    ∃ label next, (kernels Cpu env start).step s label next ∧ ∀ cpu call, label ≠ some (.begins cpu call) := by
  obtain ⟨⟨call, program⟩, running⟩ := Option.ne_none_iff_exists'.mp busy
  exact nested_advances (KernelCall.program_nested env) reached sound running

def smallKernels : Kernels Bool Unit where
  running := fun _ => none
  held := fun _ => false
  state := { smallMachine with caches := fun _ => { buf := none, loadedBlk := 0 }, children := fun _ => none }

theorem smallKernels_initial : (kernels Bool quietEnv fun _ => True).initial smallKernels :=
  ⟨fun _ => rfl, fun _ => rfl, trivial⟩

/-- One processor is inside `pmm_alloc` with its mutex, and the other waits for it in `pmm_free`. -/
theorem kernels_advance_contended : ∃ s : Kernels Bool Unit, (kernels Bool quietEnv fun _ => True).Reachable s ∧
    s.held .pmm = true ∧
    (∃ program, s.running true = some (.pmmFree 0x100000, program) ∧ program.step s.held s.state = none) ∧
    ∃ label next, (kernels Bool quietEnv fun _ => True).step s label next ∧
      ∀ cpu call, label ≠ some (.begins cpu call) := by
  have begun : (kernels Bool quietEnv fun _ => True).step smallKernels _ _ := .begins smallKernels false .pmmAlloc rfl
  have inside := Reachable.step (.initial smallKernels_initial) begun
  have locked : (KernelCall.program quietEnv .pmmAlloc).step smallKernels.held smallKernels.state =
      some (_, _, _) := rfl
  have reached := Reachable.step (.step inside (.step _ false .pmmAlloc _ _ _ _ rfl locked))
    (.begins _ true (.pmmFree 0x100000) rfl)
  refine ⟨_, reached, rfl, ⟨_, rfl, rfl⟩, ?_⟩
  refine kernels_advance reached (fun cpu call fault same => ?_) true (Option.some_ne_none _)
  cases cpu <;> cases same

/-- However the calls of the processors interleave, once all have returned every mutex is free. -/
theorem kernels_idle (reached : (kernels Cpu env start).Reachable s) (idle : ∀ cpu, s.running cpu = none)
    (mutex : Mutex) : s.held mutex = false :=
  nested_idle (KernelCall.program_nested env) reached idle mutex

/-- A write without data, which is refused. -/
def smallWrite : KernelCall := .ataPioDevWr ⟨512, 1, 0x1f0, 0x3f6, 0, 1⟩ 0 [] 1

theorem kernels_idle_returned : ∃ (s : Kernels Bool Unit) (labels : _),
    (kernels Bool quietEnv fun _ => True).Run smallKernels labels s ∧
      visible labels = [.begins true smallWrite, .returns true smallWrite ()] ∧
      (∀ cpu, s.running cpu = none) ∧ ∀ mutex, s.held mutex = false := by
  have returned : (smallWrite.program quietEnv).run .outOfFuel 0 smallKernels.held smallKernels.state =
      .returned () _ _ := rfl
  obtain ⟨labels, run, seen⟩ := call_alone true rfl returned
  have reached : (kernels Bool quietEnv fun _ => True).Reachable _ := (Reachable.initial smallKernels_initial).run run
  exact ⟨_, labels, run, seen, fun _ => rfl, kernels_idle reached fun _ => rfl⟩

end

end Bwuhos.Smp
