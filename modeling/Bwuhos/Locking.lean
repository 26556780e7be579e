import Bwuhos.AtaPio
import Bwuhos.Data.Locks
import Bwuhos.Kheap
import Bwuhos.Kutil.Faults
import Bwuhos.LowMemory
import Bwuhos.Pmm

namespace Bwuhos.Locking

open Bwuhos.Data Locked

/-! # Mutexes

`katomic.c`, and the machine that its callers act on.  `aatomic_set` spins on a mutex that
is set and `aatomic_clr` on one that is clear, so either blocks.  The functions of this
directory are those of the source with their mutexes; what they do between a lock and its
unlock is taken from the models without mutexes where there is one.
-/

/-- The static mutexes of `serial_port.c`, `ku_print_v`, `pmm.c`, `kheap.c` and
`ata_pio.c`, and those of the `struct blkdev` and the `struct blk_cache` at an address. -/
inductive Mutex where
  | serial
  | print
  | pmm
  | kheap
  | ataPio
  | blkdev (place : Nat)
  | blkCache (place : Nat)
deriving Repr, DecidableEq

/-- Whoever holds a mutex takes only those of lower ranks. -/
def Mutex.rank : Mutex → Nat
  | .serial => 0
  | .print => 1
  | .pmm => 2
  | .kheap => 3
  | .ataPio => 4
  | .blkdev _ => 5
  | .blkCache _ => 6

/-- The static variables of the kernel, its memory and its devices. -/
structure Machine (World : Type) extends AtaState World where
  pmm : Pmm
  kheap : Kheap
  paging : PagingMem
  cr3 : Nat
  low : LowMemory

/-- What the kernel runs on, and how often a polling loop or a walk over the heap may go round. -/
structure Env (World : Type) where
  bus : AtaBus World
  platform : Platform World
  space : Kutil.AddressSpace
  fuel : Nat

abbrev Kernel (World Result : Type) : Type := Locked Mutex Stop (Machine World) Result

/-- What acts on the devices alone. -/
abbrev Devices (World Result : Type) : Type := Locked Mutex Stop World Result

def onDevices {World Result : Type} (call : Devices World Result) : Kernel World Result :=
  zoom (fun machine => machine.world) (fun world machine => { machine with world }) call

/-- A call that takes mutexes of ranks below `level`. -/
abbrev Calls {State Result : Type} (stops : Stop → Prop) (level : Nat) (call : Locked Mutex Stop State Result) :
    Prop :=
  Balanced stops Mutex.rank level call

/-- The rest of a call from where it holds a mutex that it unlocks. -/
abbrev Section {State Result : Type} (stops : Stop → Prop) (mutex : Mutex) (call : Locked Mutex Stop State Result) :
    Prop :=
  Releases stops Mutex.rank mutex call

section

variable {World : Type}

def portRd (env : Env World) (p : Nat) (size : PortSize) : Devices World Nat :=
  act fun world => .ok (Bwuhos.portRd env.bus.ports p size world)

def portWr (env : Env World) (p data : Nat) (size : PortSize) : Devices World Unit :=
  modify (Bwuhos.portWr env.bus.ports p data size)

theorem onDevices_returned {Result : Type} {call : Devices World Result} {held after : Mutex → Bool}
    {machine final : Machine World} {result : Result}
    (returned : onDevices call held machine = .returned result after final) :
    ∃ world, call held machine.world = .returned result after world ∧ final = { machine with world } :=
  zoom_returned returned

variable {stops : Stop → Prop} {level : Nat}

theorem portRd_calls (env : Env World) (p : Nat) (size : PortSize) : Calls stops level (portRd env p size) := by
  apply Balanced.act
  intro world stop failed
  cases failed

theorem portWr_calls (env : Env World) (p data : Nat) (size : PortSize) :
    Calls stops level (portWr env p data size) := .modify _

end

end Bwuhos.Locking
