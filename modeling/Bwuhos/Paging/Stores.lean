import Bwuhos.Paging.Permission

namespace Bwuhos

open Bwuhos.Data

/-! # The page tables while a call is changing them

The processor may walk the tables between any two stores of a call.
-/

/-- The memories that `next_pg_dir` goes through: the new table is cleared, linked, and
made present. -/
def nextPgDirStores (m : PagingMem) (cur ind flags : Nat) : List PagingMem :=
  if m.load (cur + 8 * ind) &&& pfP = 0 then
    let fresh := m.alloc
    let cleared := fresh.2.fms64 fresh.1 0 (pageSize / 8)
    let linked := cleared.store (cur + 8 * ind) fresh.1
    [cleared, linked, linked.store (cur + 8 * ind) (linked.load (cur + 8 * ind) ||| (pfP ||| flags))]
  else []

def pagingMapStores (m : PagingMem) (pml4 paddr vaddr flags : Nat) : List PagingMem :=
  let pi := vaddrToPgInd vaddr
  let pdpt := nextPgDir m pml4 pi.pdpt flags
  let pdt := nextPgDir pdpt.2 pdpt.1 pi.pdt flags
  let pt := nextPgDir pdt.2 pdt.1 pi.pt flags
  let mapped := pt.2.store (pt.1 + 8 * pi.pg) (pageOf paddr)
  nextPgDirStores m pml4 pi.pdpt flags ++ nextPgDirStores pdpt.2 pdpt.1 pi.pdt flags ++
    nextPgDirStores pdt.2 pdt.1 pi.pt flags ++
      [mapped, mapped.store (pt.1 + 8 * pi.pg) (mapped.load (pt.1 + 8 * pi.pg) ||| (pfP ||| flags))]

def pagingUnmapStores (m : PagingMem) (pml4 vaddr : Nat) : List PagingMem :=
  let pi := vaddrToPgInd vaddr
  let pdpt := someNextPgDir m pml4 pi.pdpt
  let pdt := someNextPgDir m pdpt pi.pdt
  let pt := someNextPgDir m pdt pi.pt
  if pt = 0 then [] else [m.store (pt + 8 * pi.pg) 0]

namespace PagingCall

def stores (pml4 : Nat) (m : PagingMem) : PagingCall → List PagingMem
  | map paddr vaddr flags => pagingMapStores m pml4 paddr vaddr flags
  | unmap vaddr => pagingUnmapStores m pml4 vaddr

end PagingCall

section Walks

variable {before after mem : Nat → Nat} {root vaddr other level word : Nat}

theorem walkEntries_congr (same : ∀ level ≤ 3, wordFor after root other level = wordFor before root vaddr level) :
    walkEntries after (4096 * root) other = walkEntries before (4096 * root) vaddr := by
  have words : (List.range' 0 4).map (wordFor after root other) =
      (List.range' 0 4).map (wordFor before root vaddr) := by
    refine List.map_congr_left fun level member => same level ?_
    have inRange := List.mem_range'_1.mp member
    omega
  rw [walkEntries_eq, walkEntries_eq, words, same 3 (Nat.le_refl 3)]

/-- A change of a word that no walk gets past is not seen by walks, and a change of a
last word only by those for its page. -/
theorem WordChanged.walkEntries (bound : level ≤ 3)
    (changed : WordChanged before after root (upperPath vaddr level) (pathIndex vaddr level) word)
    (absent : level < 3 → (wordFor before root vaddr level).testBit 0 = false)
    (apart : level = 3 → virtualPage other ≠ virtualPage vaddr) :
    walkEntries after (4096 * root) other = walkEntries before (4096 * root) other := by
  have words := changed.onWalks bound other
  by_cases shared : levelRegion other level = levelRegion vaddr level
  · have inner : level < 3 := Nat.lt_of_le_of_ne bound fun last => by
      subst last
      exact apart rfl shared
    have last : wordFor after root other 3 = wordFor before root other 3 := by
      rw [words 3 (Nat.le_refl 3), if_neg fun here => Nat.ne_of_gt inner here.1]
    -- The walk stopped at the word that is changed, and stops below it now.
    have stops : ¬(wordFor before root other 3).testBit 0 = true := by
      intro present
      obtain ⟨count, three⟩ := Nat.exists_eq_add_of_le bound
      rw [three] at present
      have above := wordFor_present_upward present
      rw [wordFor_congr bound shared, absent inner] at above
      cases above
    rw [walkEntries_eq, walkEntries_eq, last, if_neg stops, if_neg stops]
  · refine walkEntries_congr fun position within => ?_
    rw [words position within]
    refine if_neg fun here => shared ?_
    rw [← here.1]
    exact here.2

end Walks

section Stores

variable {m : PagingMem} {root frame child vaddr level flags : Nat} {path : List (Fin 512)} {index : Fin 512}

end Stores

end Bwuhos
