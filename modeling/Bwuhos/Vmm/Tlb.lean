import Bwuhos.Data.Transition
import Bwuhos.Paging.Stores
import Bwuhos.Vmm.NoExec

namespace Bwuhos

open Bwuhos.Data

/-! # The map in use and the processor's copies of its entries

The processor keeps the entries of the walks that it has made, and makes them whenever it
likes.  `vmm_map_cur` and `vmm_unmap_cur` change the tables and then drop the copy for the
page that they are about with `paging_invlpg`.
-/

namespace VmmOp

def vaddr : VmmOp → Nat
  | .map _ vaddr _ => vaddr
  | .unmap vaddr => vaddr

def toPaging : VmmOp → PagingCall
  | .map paddr vaddr flags => .map paddr vaddr (x86Flags flags)
  | .unmap vaddr => .unmap vaddr

/-- An entry can hold the address of the frame, and the page may be executed. -/
def Allowed : VmmOp → Prop
  | .map paddr _ flags => paddr < 2 ^ 52 ∧ flags &&& (vfWrite ||| vfNoCache) = flags
  | .unmap _ => True

end VmmOp

/-- The tables, the stores that the call under way has left to make, the address that it has
left to invalidate, the entries that the processor has kept by virtual page, and all calls
so far on the map, with the one under way. -/
structure TlbState where
  m : PagingMem
  stores : List PagingMem
  invalidates : Option Nat
  cached : Nat → Option (List Nat)
  made : List PagingCall

namespace TlbState

/-- The call under way is about another page. -/
def Apart (s : TlbState) (vaddr : Nat) : Prop :=
  ∀ target, s.invalidates = some target → virtualPage vaddr ≠ virtualPage target

end TlbState

section

variable {mem pmm : Nat → Nat} {s before after : TlbState} {action : TlbAction} {op : VmmOp} {flags : Nat}
  {calls : List PagingCall} {call : PagingCall}

theorem x86Flags_low (allowed : flags &&& (vfWrite ||| vfNoCache) = flags) :
    x86Flags flags &&& PagingCall.lowFlags = x86Flags flags := by
  unfold x86Flags
  by_cases write : flags &&& vfWrite = 0 <;> by_cases noCache : flags &&& vfNoCache = 0 <;>
    simp only [write, allowed_executable allowed, noCache] <;> decide

theorem VmmOp.Allowed.toPaging (allowed : op.Allowed) : op.toPaging.Allowed := by
  cases op with
  | map paddr vaddr flags => exact ⟨allowed.1, x86Flags_low allowed.2⟩
  | unmap vaddr => trivial

end

end Bwuhos
