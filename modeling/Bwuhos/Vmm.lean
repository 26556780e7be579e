import Bwuhos.Paging

namespace Bwuhos

/-! # Virtual memory maps

The architecture-independent face of page maps, `vmm.c`, on x86_64.
-/

def vfWrite : Nat := 0x1

def vfNoExec : Nat := 0x2

def vfNoCache : Nat := 0x4

/-- The page table flags that stand for a set of `VF_` flags. -/
def x86Flags (flags : Nat) : Nat :=
  pfP ||| (if flags &&& vfWrite = 0 then 0 else pfRw) ||| (if flags &&& vfNoExec = 0 then 0 else pfXd)
    ||| (if flags &&& vfNoCache = 0 then 0 else pfPcd)

def vmmCreateMap (m : PagingMem) : Nat × PagingMem := pagingCreateMap m

def vmmMap (m : PagingMem) (map paddr vaddr flags : Nat) : PagingMem :=
  pagingMap m map paddr vaddr (x86Flags flags)

def vmmUnmap (m : PagingMem) (map vaddr : Nat) : PagingMem := pagingUnmap m map vaddr

end Bwuhos
