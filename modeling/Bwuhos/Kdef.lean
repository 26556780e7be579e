import Bwuhos.Data.Word

namespace Bwuhos

open Bwuhos.Data

/-! # Shared kernel definitions

A physical address (`phys_addr_t`), a block address (`blk_addr_t`), a `size_t` and a
`uintptr_t` are all unsigned 64-bit integers, modelled as natural numbers.
-/

def pageSize : Nat := 4096

def physAddrNull : Nat := 0

/-- `addr & ~(PAGE_SIZE - 1)`. -/
def pageOf (addr : Nat) : Nat := maskLow 12 addr

theorem pageOf_eq {addr : Nat} (bound : addr < 2 ^ 64) : pageOf addr = addr / 4096 * 4096 :=
  maskLow_eq (by decide) bound

end Bwuhos
