import Bwuhos.Data.Integers
import Bwuhos.Paging.Permission
import Bwuhos.Pmm.BitmapBytes

namespace Bwuhos

open Bwuhos.Data

/-! # Page tables in the memory of the allocator

`paging.c` again, now over the bytes of physical memory and with `pmm.c` itself, which has
its bitmaps in the same memory.
-/

/-- Physical memory with its allocator, and what `pmm_alloc` has answered so far. -/
structure PhysMem where
  pmm : Pmm
  answers : List Nat

namespace PhysMem

def load (s : PhysMem) (addr : Nat) : Nat := s.pmm.mem.loadInt addr 8

def store (s : PhysMem) (addr value : Nat) : PhysMem :=
  { s with pmm := { s.pmm with mem := s.pmm.mem.storeInt addr 8 value } }

def fms64 (s : PhysMem) (dst value count : Nat) : PhysMem :=
  { s with pmm := { s.pmm with mem := s.pmm.mem.fillInts dst 8 value count } }

def alloc (s : PhysMem) : Nat × PhysMem :=
  ((pmmAlloc s.pmm).1, { pmm := (pmmAlloc s.pmm).2, answers := s.answers ++ [(pmmAlloc s.pmm).1] })

def nextPgDir (s : PhysMem) (cur ind flags : Nat) : Nat × PhysMem :=
  if s.load (cur + 8 * ind) &&& pfP = 0 then
    let fresh := s.alloc
    let cleared := fresh.2.fms64 fresh.1 0 (pageSize / 8)
    let linked := cleared.store (cur + 8 * ind) fresh.1
    let flagged := linked.store (cur + 8 * ind) (linked.load (cur + 8 * ind) ||| (pfP ||| flags))
    (maskLow 12 (flagged.load (cur + 8 * ind)), flagged)
  else (maskLow 12 (s.load (cur + 8 * ind)), s)

def pagingMap (s : PhysMem) (pml4 paddr vaddr flags : Nat) : PhysMem :=
  let pi := vaddrToPgInd vaddr
  let pdpt := s.nextPgDir pml4 pi.pdpt flags
  let pdt := pdpt.2.nextPgDir pdpt.1 pi.pdt flags
  let pt := pdt.2.nextPgDir pdt.1 pi.pt flags
  let mapped := pt.2.store (pt.1 + 8 * pi.pg) (pageOf paddr)
  mapped.store (pt.1 + 8 * pi.pg) (mapped.load (pt.1 + 8 * pi.pg) ||| (pfP ||| flags))

def pagingCreateMap (s : PhysMem) : Nat × PhysMem :=
  let pml4 := s.alloc
  let cleared := pml4.2.fms64 pml4.1 0 (pageSize / 8)
  (pml4.1, (List.range (0x100000 / pageSize)).foldl
    (fun s page => s.pagingMap pml4.1 (pageSize * page) (pageSize * page) pfRw) cleared)

end PhysMem

/-- The page is one of the frames that the allocator manages. -/
def Managed (regions : List Bitmap) (page : Nat) : Prop := ∃ bm ∈ regions, ∃ index < bm.npage, page = bm.frame index

/-- `pmm_alloc` has not answered null yet, and `final` is what it will have answered in the end. -/
structure Answered (final answers : List Nat) : Prop where
  history : answers <+: final
  notNull : physAddrNull ∉ answers

/-- `m` holds the words of all managed frames, and its supply is the final answers. -/
structure Mirrors (regions : List Bitmap) (held : Finset Nat) (final : List Nat) (s : PhysMem)
    (m : PagingMem) : Prop where
  owned : Owned regions s.pmm (held ∪ s.answers.toFinset)
  nodup : s.answers.Nodup
  answered : Answered final s.answers
  supply : m.pmm = fun call => final.getD call physAddrNull
  taken : m.taken = s.answers.length
  words : ∀ page, Managed regions page → ∀ index < 512, s.load (page + 8 * index) = m.load (page + 8 * index)

section Answers

theorem Answered.before {final earlier answers : List Nat} (answered : Answered final answers)
    (grows : earlier <+: answers) : Answered final earlier :=
  ⟨grows.trans answered.history, fun null => answered.notNull (grows.subset null)⟩

theorem PhysMem.alloc_answers (s : PhysMem) : s.answers <+: s.alloc.2.answers := List.prefix_append _ _

theorem PhysMem.nextPgDir_answers (s : PhysMem) (cur ind flags : Nat) :
    s.answers <+: (s.nextPgDir cur ind flags).2.answers := by
  unfold nextPgDir
  split
  · exact List.prefix_append _ _
  · exact List.prefix_refl _

theorem PhysMem.pagingMap_answers (s : PhysMem) (pml4 paddr vaddr flags : Nat) :
    s.answers <+: (s.pagingMap pml4 paddr vaddr flags).answers :=
  (nextPgDir_answers _ _ _ _).trans ((nextPgDir_answers _ _ _ _).trans (nextPgDir_answers _ _ _ _))

end Answers

namespace Mirrors

variable {regions : List Bitmap} {held : Finset Nat} {final : List Nat} {s : PhysMem} {m : PagingMem}
  {page index value count root frame flags : Nat}

theorem managed (mirrors : Mirrors regions held final s m) (answered : page ∈ s.answers) : Managed regions page :=
  mirrors.owned.managed page (Or.inr (Finset.mem_union_right _ (List.mem_toFinset.mpr answered)))

theorem answer (mirrors : Mirrors regions held final s m) (call : Nat) (earlier : call < s.answers.length) :
    m.pmm call = s.answers[call] := by
  obtain ⟨later, rfl⟩ := mirrors.answered.history
  rw [mirrors.supply]
  dsimp only
  rw [List.getD_eq_getElem?_getD, List.getElem?_append_left earlier, List.getElem?_eq_getElem earlier]
  rfl

theorem wasAnswered (mirrors : Mirrors regions held final s m) {call : Nat} (earlier : call < m.taken) :
    m.pmm call ∈ s.answers := by
  rw [mirrors.taken] at earlier
  rw [mirrors.answer call earlier]
  exact List.getElem_mem earlier

theorem table (mirrors : Mirrors regions held final s m) (valid : MapValid m root) {path : List (Fin 512)}
    (owner : tableAt m.mem root path = some frame) (within : path.length ≤ 3) : Managed regions (4096 * frame) := by
  obtain ⟨call, earlier, answer⟩ := valid.supplied path frame within owner
  exact answer ▸ mirrors.managed (mirrors.wasAnswered earlier)

/-- Both memories hold the same tables. -/
theorem tables (mirrors : Mirrors regions held final s m) (valid : MapValid m root) (path : List (Fin 512))
    (within : path.length ≤ 3) : tableAt s.load root path = tableAt m.mem root path := by
  induction path using List.reverseRecOn with
  | nil => rw [tableAt_nil, tableAt_nil]
  | append_singleton rest last ih =>
      rw [List.length_append, List.length_singleton] at within
      rw [tableAt_snoc, tableAt_snoc, ih (by omega)]
      cases owner : tableAt m.mem root rest with
      | none => rfl
      | some frame =>
          have managed := mirrors.table valid owner (by omega)
          exact congrArg entryLink (mirrors.words _ managed last last.isLt)

theorem wordFor (mirrors : Mirrors regions held final s m) (valid : MapValid m root) (vaddr : Nat) {level : Nat}
    (within : level ≤ 3) : Bwuhos.wordFor s.load root vaddr level = Bwuhos.wordFor m.mem root vaddr level := by
  have length : (upperPath vaddr level).length ≤ 3 := (upperPath_length level).symm ▸ within
  have same := mirrors.tables valid (upperPath vaddr level) length
  unfold Bwuhos.wordFor
  cases owner : tableAt m.mem root (upperPath vaddr level) with
  | none => rw [wordAt_of_none (same.trans owner), wordAt_of_none owner]
  | some frame =>
      rw [wordAt_of_table (same.trans owner), wordAt_of_table owner]
      exact mirrors.words _ (mirrors.table valid owner length) _ (pathIndex vaddr level).isLt

theorem translate (mirrors : Mirrors regions held final s m) (valid : MapValid m root) (vaddr : Nat) :
    Bwuhos.translate s.load (4096 * root) vaddr = Bwuhos.translate m.mem (4096 * root) vaddr := by
  rw [translate_eq, translate_eq, mirrors.wordFor valid vaddr (Nat.le_refl 3)]

theorem effectivelyWritable (mirrors : Mirrors regions held final s m) (valid : MapValid m root) {vaddr : Nat}
    (writable : EffectivelyWritable m.mem (4096 * root) vaddr) : EffectivelyWritable s.load (4096 * root) vaddr := by
  rw [effectivelyWritable_iff] at writable ⊢
  refine ⟨(mirrors.wordFor valid vaddr (Nat.le_refl 3)).symm ▸ writable.1, fun level bound => ?_⟩
  rw [mirrors.wordFor valid vaddr (Nat.le_of_lt_succ bound)]
  exact writable.2 level bound

section

variable (laid : Laid regions) (physical : ∀ page, Managed regions page → page + 4096 ≤ 2 ^ 52)
include laid

theorem aligned (managed : Managed regions page) : page % 4096 = 0 := by
  obtain ⟨bm, member, index, bound, rfl⟩ := managed
  exact (laid.placed bm member).frame_aligned bound

theorem outside (managed : Managed regions page) {addr : Nat} (inFrame : page ≤ addr ∧ addr < page + 4096) :
    ¬InBitmaps regions addr := by
  obtain ⟨bm, member, index, bound, rfl⟩ := managed
  exact laid.frame_outside member bound inFrame

/-- A word of a managed frame is written. -/
theorem store (mirrors : Mirrors regions held final s m) (managed : Managed regions page) (inFrame : index < 512)
    (fits : value < 2 ^ 64) :
    Mirrors regions held final (s.store (page + 8 * index) value) (m.store (page + 8 * index) value) := by
  refine ⟨mirrors.owned.withMem fun addr inBitmaps => ?_, mirrors.nodup, mirrors.answered, mirrors.supply,
    mirrors.taken, ?_⟩
  · refine ByteMemory.storeInt_outside fun inside => outside laid managed ?_ inBitmaps
    omega
  · intro other otherManaged position bound
    have pageAligned := aligned laid managed
    have otherAligned := aligned laid otherManaged
    by_cases here : other + 8 * position = page + 8 * index
    · rw [here, load_store_self]
      exact ByteMemory.loadInt_storeInt.trans (Nat.mod_eq_of_lt fits)
    · have kept : (m.store (page + 8 * index) value).load (other + 8 * position) = m.load (other + 8 * position) :=
        Function.update_of_ne here _ _
      rw [kept, ← mirrors.words other otherManaged position bound]
      exact ByteMemory.loadInt_storeInt_apart (by omega)

theorem fms64 (mirrors : Mirrors regions held final s m) (managed : Managed regions page) :
    Mirrors regions held final (s.fms64 page 0 (pageSize / 8)) (m.fms64 page 0 (pageSize / 8)) := by
  have words : pageSize / 8 = 512 := rfl
  rw [words]
  refine ⟨mirrors.owned.withMem fun addr inBitmaps => ?_, mirrors.nodup, mirrors.answered, mirrors.supply,
    mirrors.taken, ?_⟩
  · refine ByteMemory.fillInts_outside fun inside => outside laid managed ?_ inBitmaps
    omega
  · intro other otherManaged position bound
    have pageAligned := aligned laid managed
    have otherAligned := aligned laid otherManaged
    by_cases here : other = page
    · subst here
      have filled : (m.fms64 other 0 512).load (other + 8 * position) = 0 := if_pos ⟨by omega, by omega⟩
      rw [filled]
      exact ByteMemory.loadInt_fillInts bound
    · have kept : (m.fms64 page 0 512).load (other + 8 * position) = m.load (other + 8 * position) :=
        if_neg (by omega)
      rw [kept, ← mirrors.words other otherManaged position bound]
      exact ByteMemory.loadInt_fillInts_apart (by omega)

theorem alloc (mirrors : Mirrors regions held final s m) (answered : Answered final s.alloc.2.answers) :
    s.alloc.1 = m.alloc.1 ∧ Managed regions m.alloc.1 ∧ Mirrors regions held final s.alloc.2 m.alloc.2 := by
  have notNull : (pmmAlloc s.pmm).1 ≠ physAddrNull := fun null =>
    answered.notNull (null ▸ List.mem_append_right _ (List.mem_singleton_self _))
  rcases mirrors.owned.alloc laid with ⟨bm, member, index, bound, same, notOut, owned⟩ | ⟨null, _⟩
  · have next : Mirrors regions held final s.alloc.2 m.alloc.2 := by
      refine ⟨?_, ?_, answered, mirrors.supply, ?_, ?_⟩
      · have handedOut : held ∪ (s.answers ++ [bm.frame index]).toFinset =
            insert (bm.frame index) (held ∪ s.answers.toFinset) := by
          ext page
          simp only [Finset.mem_union, List.mem_toFinset, List.mem_append, List.mem_singleton, Finset.mem_insert]
          tauto
        simp only [PhysMem.alloc, same, handedOut]
        exact owned
      · have new : bm.frame index ∉ s.answers := fun old =>
          notOut (Finset.mem_union_right _ (List.mem_toFinset.mpr old))
        simp only [PhysMem.alloc, same]
        exact List.nodup_append.mpr ⟨mirrors.nodup, List.nodup_singleton _, fun page old other last equal =>
          new (List.mem_singleton.mp last ▸ equal ▸ old)⟩
      · simp only [PhysMem.alloc, PagingMem.alloc, mirrors.taken, List.length_append, List.length_singleton]
      · intro page managed position inFrame
        refine (ByteMemory.loadInt_congr fun offset small => ?_).trans (mirrors.words page managed position inFrame)
        refine pmmAlloc_outside s.pmm fun inBitmaps => ?_
        exact outside laid managed ⟨by omega, by omega⟩ (mirrors.owned.inBitmaps_iff.mp inBitmaps)
    have length : s.answers.length < s.alloc.2.answers.length := by
      simp only [PhysMem.alloc, List.length_append, List.length_singleton]
      omega
    have answer : s.alloc.1 = m.alloc.1 := by
      have last := next.answer s.answers.length length
      simp only [PhysMem.alloc, List.getElem_concat_length] at last
      rw [← mirrors.taken] at last
      exact last.symm
    exact ⟨answer, answer ▸ ⟨bm, member, index, bound, same⟩, next⟩
  · exact absurd null notNull

include physical

theorem fresh (mirrors : Mirrors regions held final s m) : FreshPages m.pmm m.taken where
  aligned := fun call earlier => aligned laid (mirrors.managed (mirrors.wasAnswered earlier))
  physical := fun call earlier => by
    have bound := physical _ (mirrors.managed (mirrors.wasAnswered earlier))
    omega
  notNull := fun call earlier null => mirrors.answered.notNull (null ▸ mirrors.wasAnswered earlier)
  distinct := fun call earlier other before same => by
    rw [mirrors.taken] at earlier before
    rw [mirrors.answer call earlier, mirrors.answer other before] at same
    exact (mirrors.nodup.getElem_inj_iff).mp same

theorem nextPgDir (mirrors : Mirrors regions held final s m) (managed : Managed regions page) (inFrame : index < 512)
    (small : flags < 64) (answered : Answered final (s.nextPgDir page index flags).2.answers) :
    (s.nextPgDir page index flags).1 = (Bwuhos.nextPgDir m page index flags).1 ∧
      Mirrors regions held final (s.nextPgDir page index flags).2 (Bwuhos.nextPgDir m page index flags).2 := by
  have word := mirrors.words page managed index inFrame
  unfold PhysMem.nextPgDir at answered ⊢
  unfold Bwuhos.nextPgDir
  rw [word] at answered ⊢
  by_cases absent : m.load (page + 8 * index) &&& pfP = 0
  · rw [if_pos absent] at answered ⊢
    rw [if_pos absent]
    obtain ⟨answer, newManaged, allocated⟩ := mirrors.alloc laid answered
    have physicalPage := physical _ newManaged
    have fits : m.alloc.1 ||| (pfP ||| flags) < 2 ^ 64 :=
      Nat.or_lt_two_pow (by omega) (Nat.lt_trans (flags_lt small) (by decide))
    have linked := (allocated.fms64 laid newManaged).store laid managed inFrame (show m.alloc.1 < 2 ^ 64 by omega)
    have flagged := linked.store laid managed inFrame fits
    dsimp only
    rw [answer, linked.words page managed index inFrame, load_store_self]
    exact ⟨congrArg (maskLow 12) (flagged.words page managed index inFrame), flagged⟩
  · rw [if_neg absent] at answered ⊢
    rw [if_neg absent]
    exact ⟨rfl, mirrors⟩

theorem nextTable (mirrors : Mirrors regions held final s m) (valid : MapValid m root) {path : List (Fin 512)}
    (owner : tableAt m.mem root path = some frame) (room : path.length < 3) (index : Fin 512) (small : flags < 64)
    (answered : Answered final (s.nextPgDir (4096 * frame) index flags).2.answers) :
    ∃ child s' m', s.nextPgDir (4096 * frame) index flags = (4096 * child, s') ∧
      Bwuhos.nextPgDir m (4096 * frame) index flags = (4096 * child, m') ∧
      Mirrors regions held final s' m' ∧ MapValid m' root ∧ tableAt m'.mem root (path ++ [index]) = some child := by
  have managed := mirrors.table valid owner (Nat.le_of_lt room)
  obtain ⟨same, next⟩ := mirrors.nextPgDir laid physical managed index.isLt small answered
  have supply := next.fresh laid physical
  rw [next.supply, ← mirrors.supply] at supply
  obtain ⟨child, word, after, call, _, nextValid, nextOwner, _, _⟩ :=
    nextPgDir_spec index supply valid owner room small
  rw [call] at same next
  exact ⟨child, _, after, Prod.ext same rfl, call, next, nextValid, nextOwner⟩

/-- `paging_map` does the same to both memories. -/
theorem pagingMap {paddr vaddr : Nat} (mirrors : Mirrors regions held final s m) (valid : MapValid m root)
    (bound : paddr < 2 ^ 52) (small : flags < 64)
    (answered : Answered final (s.pagingMap (4096 * root) paddr vaddr flags).answers) :
    Mirrors regions held final (s.pagingMap (4096 * root) paddr vaddr flags)
      (Bwuhos.pagingMap m (4096 * root) paddr vaddr flags) := by
  have start : tableAt m.mem root (upperPath vaddr 0) = some root := rfl
  unfold PhysMem.pagingMap at answered ⊢
  unfold Bwuhos.pagingMap
  simp only [vaddrToPgInd_eq] at answered ⊢
  have answered1 := answered.before ((PhysMem.nextPgDir_answers _ _ _ _).trans (PhysMem.nextPgDir_answers _ _ _ _))
  obtain ⟨pdpt, s1, m1, physicalCall1, call1, mirrors1, valid1, owner1⟩ :=
    mirrors.nextTable laid physical valid start (by simp) (pathIndex vaddr 0) small answered1
  rw [physicalCall1] at answered ⊢
  rw [call1]
  rw [← upperPath_succ] at owner1
  dsimp only at answered ⊢
  obtain ⟨pdt, s2, m2, physicalCall2, call2, mirrors2, valid2, owner2⟩ :=
    mirrors1.nextTable laid physical valid1 owner1 (by simp) (pathIndex vaddr 1) small
      (answered.before (PhysMem.nextPgDir_answers _ _ _ _))
  rw [physicalCall2] at answered ⊢
  rw [call2]
  rw [← upperPath_succ] at owner2
  dsimp only at answered ⊢
  obtain ⟨pt, s3, m3, physicalCall3, call3, mirrors3, valid3, owner3⟩ :=
    mirrors2.nextTable laid physical valid2 owner2 (by simp) (pathIndex vaddr 2) small answered
  rw [physicalCall3, call3]
  rw [← upperPath_succ] at owner3
  dsimp only
  have managed := mirrors3.table valid3 owner3 (by simp)
  have page : pageOf paddr < 2 ^ 52 := by
    rw [pageOf_eq (by omega)]
    omega
  have fits : pageOf paddr ||| (pfP ||| flags) < 2 ^ 64 :=
    Nat.or_lt_two_pow (by omega) (Nat.lt_trans (flags_lt small) (by decide))
  have mapped := mirrors3.store laid managed (pathIndex vaddr 3).isLt (show pageOf paddr < 2 ^ 64 by omega)
  rw [mapped.words _ managed _ (pathIndex vaddr 3).isLt, load_store_self]
  exact mapped.store laid managed (pathIndex vaddr 3).isLt fits

end

end Mirrors

end Bwuhos
