import Bwuhos.Kdef
import Mathlib.Logic.Function.Basic

namespace Bwuhos

open Bwuhos.Data

/-! # Page maps

`paging.c` of the x86_64 port.  Page tables are read and written through their
physical addresses, in aligned quadwords, so memory is indexed by the address of a
quadword.  The answers of `pmm_alloc` come from outside: call number `k` answers `pmm k`.
-/

def pfP : Nat := 0x1

def pfRw : Nat := 0x2

def pfUs : Nat := 0x4

def pfPwt : Nat := 0x8

def pfPcd : Nat := 0x10

def pfA : Nat := 0x20

def pfXd : Nat := 0x8000000000000000

structure PagingMem where
  mem : Nat → Nat
  pmm : Nat → Nat
  taken : Nat

namespace PagingMem

def load (m : PagingMem) (addr : Nat) : Nat := m.mem addr

def store (m : PagingMem) (addr value : Nat) : PagingMem :=
  { m with mem := Function.update m.mem addr value }

/-- `au_fms_64`: fill `count` quadwords from `dst` on. -/
def fms64 (m : PagingMem) (dst value count : Nat) : PagingMem :=
  { m with mem := fun addr => if dst ≤ addr ∧ addr < dst + 8 * count then value else m.mem addr }

def alloc (m : PagingMem) : Nat × PagingMem :=
  (m.pmm m.taken, { m with taken := m.taken + 1 })

end PagingMem

structure PageIndex where
  pdpt : Nat
  pdt : Nat
  pt : Nat
  pg : Nat

def vaddrToPgInd (vaddr : Nat) : PageIndex where
  pdpt := vaddr >>> 39 &&& 0x1ff
  pdt := vaddr >>> 30 &&& 0x1ff
  pt := vaddr >>> 21 &&& 0x1ff
  pg := vaddr >>> 12 &&& 0x1ff

/-- The table that `cur[ind]` links to, allocated and linked first when there is none. -/
def nextPgDir (m : PagingMem) (cur ind flags : Nat) : Nat × PagingMem :=
  if m.load (cur + 8 * ind) &&& pfP = 0 then
    let fresh := m.alloc
    let cleared := fresh.2.fms64 fresh.1 0 (pageSize / 8)
    let linked := cleared.store (cur + 8 * ind) fresh.1
    let flagged := linked.store (cur + 8 * ind) (linked.load (cur + 8 * ind) ||| (pfP ||| flags))
    (maskLow 12 (flagged.load (cur + 8 * ind)), flagged)
  -- an entry that is there keeps its flags
  else (maskLow 12 (m.load (cur + 8 * ind)), m)

def someNextPgDir (m : PagingMem) (cur ind : Nat) : Nat :=
  if cur = 0 ∨ m.load (cur + 8 * ind) &&& pfP = 0 then 0
  else maskLow 12 (m.load (cur + 8 * ind))

def pagingMap (m : PagingMem) (pml4 paddr vaddr flags : Nat) : PagingMem :=
  let pi := vaddrToPgInd vaddr
  let pdpt := nextPgDir m pml4 pi.pdpt flags
  let pdt := nextPgDir pdpt.2 pdpt.1 pi.pdt flags
  let pt := nextPgDir pdt.2 pdt.1 pi.pt flags
  let mapped := pt.2.store (pt.1 + 8 * pi.pg) (pageOf paddr)
  mapped.store (pt.1 + 8 * pi.pg) (mapped.load (pt.1 + 8 * pi.pg) ||| (pfP ||| flags))

def pagingUnmap (m : PagingMem) (pml4 vaddr : Nat) : PagingMem :=
  let pi := vaddrToPgInd vaddr
  let pdpt := someNextPgDir m pml4 pi.pdpt
  let pdt := someNextPgDir m pdpt pi.pdt
  let pt := someNextPgDir m pdt pi.pt
  if pt = 0 then m else m.store (pt + 8 * pi.pg) 0

def pagingCreateMap (m : PagingMem) : Nat × PagingMem :=
  let pml4 := m.alloc
  let cleared := pml4.2.fms64 pml4.1 0 (pageSize / 8)
  (pml4.1, (List.range (0x100000 / pageSize)).foldl
    (fun m page => pagingMap m pml4.1 (pageSize * page) (pageSize * page) pfRw) cleared)

end Bwuhos
