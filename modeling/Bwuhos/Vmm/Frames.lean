import Bwuhos.Vmm.Built

namespace Bwuhos

open Bwuhos.Data

/-! # Frames that are no tables

What is written to such a frame changes no translation, and no later mapping makes a table
of it.
-/

section

variable {m after : PagingMem} {root frame vaddr paddr flags level count table : Nat} {path : List (Fin 512)}
  {index : Fin 512}

/-- The table is one that there was, or a page that `pmm_alloc` has answered since. -/
def OldOrNew (m after : PagingMem) (root : Nat) (path : List (Fin 512)) (table : Nat) : Prop :=
  tableAt m.mem root path = some table ∨ ∃ call, m.taken ≤ call ∧ call < after.taken ∧ m.pmm call = 4096 * table

theorem OldOrNew.later {more : PagingMem} (here : OldOrNew m after root path table) (less : after.taken ≤ more.taken) :
    OldOrNew m more root path table := by
  obtain old | ⟨call, since, before, answer⟩ := here
  · exact Or.inl old
  · exact Or.inr ⟨call, since, Nat.lt_of_lt_of_le before less, answer⟩

theorem OldOrNew.earlier {first : PagingMem} (here : OldOrNew m after root path table) (same : m.pmm = first.pmm)
    (less : first.taken ≤ m.taken) (kept : tableAt m.mem root path = some table → OldOrNew first m root path table)
    (more : m.taken ≤ after.taken) : OldOrNew first after root path table := by
  obtain old | ⟨call, since, before, answer⟩ := here
  · exact (kept old).later more
  · exact Or.inr ⟨call, Nat.le_trans less since, before, same ▸ answer⟩

theorem nextPgDir_tables (index : Fin 512) (supply : FreshPages m.pmm (nextPgDir m (4096 * frame) index flags).2.taken)
    (valid : MapValid m root) (owner : tableAt m.mem root path = some frame) (room : path.length < 3)
    (small : flags < 64) (other : List (Fin 512)) (within : other.length ≤ 3)
    (reached : tableAt (nextPgDir m (4096 * frame) index flags).2.mem root other = some table) :
    OldOrNew m (nextPgDir m (4096 * frame) index flags).2 root other table := by
  cases present : (wordAt m.mem root path index).testBit 0 with
  | true =>
      obtain ⟨child, call, _⟩ := nextPgDir_linked flags valid owner room present
      rw [call] at reached ⊢
      exact Or.inl reached
  | false =>
      have absent := present
      rw [wordAt_of_table owner] at absent
      have consumed : m.taken < (nextPgDir m (4096 * frame) index flags).2.taken := by
        rw [nextPgDir_absent absent]
        exact Nat.lt_succ_self _
      have page := supply.newPage consumed
      obtain ⟨child, answer, call⟩ := nextPgDir_links page small absent
      have walks := linkFresh_walks (linkedPage m frame index child flags) page valid owner room small absent answer
        tablesOf_linkedPage other within
      rw [call] at reached consumed ⊢
      rw [walks] at reached
      by_cases new : other = path ++ [index]
      · rw [if_pos new, Option.some.injEq] at reached
        exact Or.inr ⟨m.taken, Nat.le_refl _, consumed, reached ▸ answer⟩
      · rw [if_neg new] at reached
        exact Or.inl reached

theorem mapFrom_tables (valid : MapValid m root) (owner : tableAt m.mem root (upperPath vaddr level) = some frame)
    (bound : level + count = 3) (small : flags < 64)
    (supply : FreshPages m.pmm (mapFrom paddr vaddr flags m (4096 * frame) level count).taken)
    (other : List (Fin 512)) (within : other.length ≤ 3)
    (reached : tableAt (mapFrom paddr vaddr flags m (4096 * frame) level count).mem root other = some table) :
    OldOrNew m (mapFrom paddr vaddr flags m (4096 * frame) level count) root other table := by
  induction count generalizing m frame level with
  | zero =>
      have last : (upperPath vaddr level).length = 3 := by rw [upperPath_length]; exact bound
      have apart : ¬(upperPath vaddr level ++ [pathIndex vaddr level] <+: other) := fun isPrefix => by
        have longer := isPrefix.length_le
        rw [List.length_append, List.length_singleton] at longer
        omega
      rw [mapFrom, tableAt, tablesOf_store_twice,
        RadixTree.walk_store _ valid.separated owner (Nat.le_of_eq last) within apart] at reached
      exact Or.inl reached
  | succ count ih =>
      have grows := @mapFrom_taken paddr vaddr flags (nextPgDir m (4096 * frame) (pathIndex vaddr level) flags).2
        (nextPgDir m (4096 * frame) (pathIndex vaddr level) flags).1 (level + 1) count
      have first : _ → OldOrNew m _ root other table := nextPgDir_tables (pathIndex vaddr level) (supply.mono grows)
        valid owner (by rw [upperPath_length]; omega) small other within
      obtain ⟨child, word, next, call, same, nextValid, nextOwner, _, _⟩ :=
        nextPgDir_spec (pathIndex vaddr level) (supply.mono grows) valid owner (by rw [upperPath_length]; omega) small
      rw [← upperPath_succ] at nextOwner
      have taken := (nextPgDir_taken m (4096 * frame) (pathIndex vaddr level) flags).1
      simp only [mapFrom, call] at supply reached grows first taken ⊢
      exact (ih nextValid nextOwner (by omega) (same ▸ supply) reached).earlier same taken first grows

end

/-- The frame is no table of the map. -/
def NoTable (m : PagingMem) (root page : Nat) : Prop :=
  ∀ path : List (Fin 512), path.length ≤ 3 → ∀ table, tableAt m.mem root path = some table → 4096 * table ≠ page

/-- A page that is no table before and after, and whose words are kept. -/
structure Spared (m after : PagingMem) (root page : Nat) : Prop where
  noTable : NoTable after root page
  kept : ∀ addr, InPage page addr → after.mem addr = m.mem addr

section

variable {m after : PagingMem} {root frame page vaddr paddr flags level count : Nat} {path : List (Fin 512)}

theorem NoTable.later (noTable : NoTable m root page)
    (grows : ∀ path : List (Fin 512), path.length ≤ 3 → ∀ table, tableAt after.mem root path = some table →
      OldOrNew m after root path table)
    (notNew : ∀ call, m.taken ≤ call → call < after.taken → m.pmm call ≠ page) : NoTable after root page := by
  intro path within table reached
  obtain old | ⟨call, since, before, answer⟩ := grows path within table reached
  · exact noTable path within table old
  · exact answer ▸ notNew call since before

theorem nextPgDir_spares (index : Fin 512) (supply : FreshPages m.pmm (nextPgDir m (4096 * frame) index flags).2.taken)
    (valid : MapValid m root) (owner : tableAt m.mem root path = some frame) (room : path.length < 3)
    (small : flags < 64) (aligned : page % 4096 = 0) (noTable : NoTable m root page)
    (notNew : ∀ call, m.taken ≤ call → call < (nextPgDir m (4096 * frame) index flags).2.taken → m.pmm call ≠ page) :
    Spared m (nextPgDir m (4096 * frame) index flags).2 root page := by
  refine ⟨noTable.later (fun other within table => nextPgDir_tables index supply valid owner room small other within)
    notNew, fun addr inside => ?_⟩
  have notOwner := noTable path (Nat.le_of_lt room) frame owner
  cases present : (m.load (4096 * frame + 8 * index)).testBit 0 with
  | true => rw [nextPgDir_present present]
  | false =>
      have consumed : m.taken < (nextPgDir m (4096 * frame) index flags).2.taken := by
        rw [nextPgDir_absent present]
        exact Nat.lt_succ_self _
      have newPage := supply.newPage consumed
      have notChild := notNew m.taken (Nat.le_refl _) consumed
      obtain ⟨child, answer, call⟩ := nextPgDir_links newPage small present
      have bound := index.isLt
      rw [answer] at notChild
      rw [call, linkedPage, PagingMem.store, PagingMem.store, Function.update_idem]
      unfold InPage at inside
      refine (Function.update_of_ne (by omega) _ _).trans (if_neg ?_)
      have words : pageSize / 8 = 512 := rfl
      omega

theorem mapFrom_spares (valid : MapValid m root) (owner : tableAt m.mem root (upperPath vaddr level) = some frame)
    (bound : level + count = 3) (small : flags < 64)
    (supply : FreshPages m.pmm (mapFrom paddr vaddr flags m (4096 * frame) level count).taken)
    (aligned : page % 4096 = 0) (noTable : NoTable m root page)
    (notNew : ∀ call, m.taken ≤ call → call < (mapFrom paddr vaddr flags m (4096 * frame) level count).taken →
      m.pmm call ≠ page) :
    Spared m (mapFrom paddr vaddr flags m (4096 * frame) level count) root page := by
  induction count generalizing m frame level with
  | zero =>
      have tables := fun other within table => @mapFrom_tables m root frame vaddr paddr flags level 0 table valid owner
        bound small supply other within
      refine ⟨noTable.later tables notNew, fun addr inside => ?_⟩
      have notOwner := noTable _ (by rw [upperPath_length]; omega) frame owner
      have within := (pathIndex vaddr level).isLt
      unfold InPage at inside
      rw [mapFrom, PagingMem.store, PagingMem.store, Function.update_idem]
      exact Function.update_of_ne (by omega) _ _
  | succ count ih =>
      have grows := @mapFrom_taken paddr vaddr flags (nextPgDir m (4096 * frame) (pathIndex vaddr level) flags).2
        (nextPgDir m (4096 * frame) (pathIndex vaddr level) flags).1 (level + 1) count
      have room : (upperPath vaddr level).length < 3 := by rw [upperPath_length]; omega
      have first := nextPgDir_spares (pathIndex vaddr level) (supply.mono grows) valid owner room small aligned noTable
        fun call since before => notNew call since (Nat.lt_of_lt_of_le before grows)
      obtain ⟨child, word, next, call, same, nextValid, nextOwner, _, _⟩ :=
        nextPgDir_spec (pathIndex vaddr level) (supply.mono grows) valid owner room small
      rw [← upperPath_succ] at nextOwner
      have taken := (nextPgDir_taken m (4096 * frame) (pathIndex vaddr level) flags).1
      simp only [mapFrom, call] at supply grows first taken notNew ⊢
      have rest := ih nextValid nextOwner (by omega) (same ▸ supply) first.noTable fun call since before =>
        same ▸ notNew call (Nat.le_trans taken since) before
      exact ⟨rest.noTable, fun addr inside => (rest.kept addr inside).trans (first.kept addr inside)⟩

/-- A mapping leaves alone what is no table, other than the pages that are answered for it. -/
theorem pagingMap_spares (valid : MapValid m root) (small : flags < 64)
    (supply : FreshPages m.pmm (pagingMap m (4096 * root) paddr vaddr flags).taken) (aligned : page % 4096 = 0)
    (noTable : NoTable m root page)
    (notNew : ∀ call, m.taken ≤ call → call < (pagingMap m (4096 * root) paddr vaddr flags).taken →
      m.pmm call ≠ page) :
    Spared m (pagingMap m (4096 * root) paddr vaddr flags) root page := by
  rw [pagingMap_eq_mapFrom] at supply notNew ⊢
  exact mapFrom_spares valid rfl rfl small supply aligned noTable notNew

end

/-- Both memories hold the same tables, with the same words. -/
structure SameTables (before after : Nat → Nat) (root : Nat) : Prop where
  tables : ∀ path : List (Fin 512), path.length ≤ 3 → tableAt after root path = tableAt before root path
  words : ∀ path index, path.length ≤ 3 → wordAt after root path index = wordAt before root path index

section

variable {m : PagingMem} {root page : Nat} {mem : Nat → Nat} {view : Nat → Option Nat} {calls : List PagingCall}

theorem SameTables.wordFor (same : SameTables m.mem mem root) (vaddr : Nat) {level : Nat} (within : level ≤ 3) :
    wordFor mem root vaddr level = wordFor m.mem root vaddr level :=
  same.words _ _ ((upperPath_length level).symm ▸ within)

theorem SameTables.valid (same : SameTables m.mem mem root) (valid : MapValid m root) :
    MapValid { m with mem } root where
  separated left right table leftWithin rightWithin leftReached rightReached :=
    valid.separated left right table leftWithin rightWithin ((same.tables left leftWithin).symm.trans leftReached)
      ((same.tables right rightWithin).symm.trans rightReached)
  supplied path frame within reached := valid.supplied path frame within ((same.tables path within).symm.trans reached)
  clean path index within := (same.words path index (Nat.le_of_lt within)).symm ▸ valid.clean path index within

theorem SameTables.refines (same : SameTables m.mem mem root) (refines : Refines m root view) :
    Refines { m with mem } root view := by
  refine ⟨same.valid refines.valid, fun vaddr => ?_⟩
  rw [← refines.translates, translate_eq, translate_eq, same.wordFor vaddr (Nat.le_refl 3)]

theorem SameTables.permitted (same : SameTables m.mem mem root) (permitted : Permitted m root calls) :
    Permitted { m with mem } root calls where
  valid := same.valid permitted.valid
  upper vaddr level bound := by rw [same.wordFor vaddr (Nat.le_of_lt bound), permitted.upper vaddr level bound]
  leaf vaddr := by rw [same.wordFor vaddr (Nat.le_refl 3), permitted.leaf]

theorem sameTables_outside (noTable : NoTable m root page) (aligned : page % 4096 = 0)
    (kept : ∀ addr, ¬InPage page addr → mem addr = m.mem addr) : SameTables m.mem mem root := by
  have tables : tablesOf mem = Function.update (tablesOf m.mem) (page / 4096) (tablesOf mem (page / 4096)) := by
    funext frame index
    by_cases here : frame = page / 4096
    · rw [here, Function.update_self]
    · rw [Function.update_of_ne here]
      refine kept _ fun inside => here ?_
      have small := index.isLt
      unfold InPage at inside
      omega
  have fresh : ∀ path : List (Fin 512), path.length ≤ 3 →
      RadixTree.walk entryLink (tablesOf m.mem) root path ≠ some (page / 4096) := fun path within reached =>
    noTable path within _ reached (by omega)
  constructor
  · intro path within
    rw [tableAt, tables]
    exact RadixTree.walk_update_fresh _ fresh within
  · intro path index within
    rw [wordAt, tables]
    exact RadixTree.wordAt_update_fresh _ fresh within

end

section

variable {regions : List Bitmap} {held : Finset Nat} {final : List Nat} {s : PhysMem} {m : PagingMem}
  {root others page : Nat} {calls : List PagingCall} {mem : ByteMemory}

/-- The word that begins at every address. -/
def wordsIn (m : PagingMem) (page : Nat) (mem : ByteMemory) : PagingMem :=
  { m with mem := fun addr => if page ≤ addr ∧ addr < page + 4096 then mem.loadInt addr 8 else m.mem addr }

/-- Whatever is written to a managed frame that is no table, the map stays as it is. -/
theorem Built.scribble (laid : Laid regions) (built : Built regions held final s m root others calls)
    (managed : Managed regions page) (noTable : NoTable m root page)
    (kept : ∀ addr, ¬InPage page addr → mem addr = s.pmm.mem addr) :
    Built regions held final { s with pmm := { s.pmm with mem } } (wordsIn m page mem) root others calls ∧
      SameTables m.mem (wordsIn m page mem).mem root := by
  have aligned := Mirrors.aligned laid managed
  have same : SameTables m.mem (wordsIn m page mem).mem root :=
    sameTables_outside noTable aligned fun addr outside => if_neg outside
  have mirrors := built.mirrors
  refine ⟨⟨⟨?_, mirrors.nodup, mirrors.answered, mirrors.supply, mirrors.taken, ?_⟩, same.refines built.refines,
    same.permitted built.permitted, built.mapped, built.count⟩, same⟩
  · refine mirrors.owned.withMem fun addr inBitmaps => kept addr fun inside => ?_
    exact Mirrors.outside laid managed inside inBitmaps
  · intro other otherManaged index bound
    have otherAligned := Mirrors.aligned laid otherManaged
    by_cases here : other = page
    · subst here
      exact (if_pos ⟨by omega, by omega⟩).symm
    · have unchanged : (wordsIn m page mem).load (other + 8 * index) = m.load (other + 8 * index) := if_neg (by omega)
      rw [unchanged, ← mirrors.words other otherManaged index bound]
      refine ByteMemory.loadInt_congr fun position small => kept _ fun inside => ?_
      unfold InPage at inside
      omega

/-- The bytes of a managed frame, by its words. -/
theorem Mirrors.bytes_of_words {s' : PhysMem} {m' : PagingMem} (laid : Laid regions)
    (before : Mirrors regions held final s m) (after : Mirrors regions held final s' m')
    (managed : Managed regions page) (kept : ∀ addr, InPage page addr → m'.mem addr = m.mem addr) (addr : Nat)
    (inside : InPage page addr) : s'.pmm.mem addr = s.pmm.mem addr := by
  have aligned := Mirrors.aligned laid managed
  unfold InPage at inside
  obtain ⟨index, position, bound, small, rfl⟩ : ∃ index position, index < 512 ∧ position < 8 ∧
      addr = page + 8 * index + position := ⟨(addr - page) / 8, (addr - page) % 8, by omega, by omega, by omega⟩
  have word : s'.load (page + 8 * index) = s.load (page + 8 * index) := by
    rw [after.words page managed index bound, before.words page managed index bound]
    exact kept _ ⟨by omega, by omega⟩
  have bytes : ∀ mem : ByteMemory, ByteMemory.byteOf (mem.loadInt (page + 8 * index) 8) position =
      mem (page + 8 * index + position) := fun mem => ByteMemory.byteOf_loadInt small
  exact (bytes _).symm.trans ((congrArg (ByteMemory.byteOf · position) word).trans (bytes _))

section

variable {paddr vaddr flags : Nat} (laid : Laid regions)
  (physical : ∀ page, Managed regions page → page + 4096 ≤ 2 ^ 52)
include laid physical

/-- A mapping leaves alone a frame that `pmm_alloc` has answered and that is no table. -/
theorem Built.map_spares (built : Built regions held final s m root others calls) (bound : paddr < 2 ^ 52)
    (small : flags < 64) (answered : Answered final (s.pagingMap (4096 * root) paddr vaddr flags).answers)
    (given : page ∈ s.answers) (noTable : NoTable m root page) :
    NoTable (pagingMap m (4096 * root) paddr vaddr flags) root page ∧ ∀ addr, InPage page addr →
      (s.pagingMap (4096 * root) paddr vaddr flags).pmm.mem addr = s.pmm.mem addr := by
  have mirrors := built.mirrors
  have valid := built.refines.valid
  have managed := mirrors.managed given
  have next := mirrors.pagingMap laid physical valid bound small answered
  have supply := next.fresh laid physical
  rw [next.supply, ← mirrors.supply] at supply
  obtain ⟨earlier, before, rfl⟩ := List.getElem_of_mem given
  have taken := (pagingMap_taken m (4096 * root) paddr vaddr flags).1
  have first := mirrors.answer earlier before
  rw [← mirrors.taken] at before
  have notNew : ∀ call, m.taken ≤ call → call < (pagingMap m (4096 * root) paddr vaddr flags).taken →
      m.pmm call ≠ s.answers[earlier] := fun call since later same => by
    have equal := supply.distinct earlier (by omega) call later (first.trans same.symm)
    omega
  have spared := pagingMap_spares valid small supply (Mirrors.aligned laid managed) noTable notNew
  exact ⟨spared.noTable, mirrors.bytes_of_words laid next managed spared.kept⟩

omit physical in
/-- A frame that `pmm_alloc` answers with is no table, and no byte outside the bitmaps changes. -/
theorem Built.alloc_spares (built : Built regions held final s m root others calls)
    (answered : Answered final s.alloc.2.answers) :
    NoTable m root s.alloc.1 ∧ ∀ addr, (∃ page, Managed regions page ∧ InPage page addr) →
      s.alloc.2.pmm.mem addr = s.pmm.mem addr := by
  obtain ⟨answer, managed, next⟩ := built.mirrors.alloc laid answered
  refine ⟨fun path within table reached same => ?_, fun addr inFrame => ?_⟩
  · obtain ⟨call, earlier, supplied⟩ := built.refines.valid.supplied path table within reached
    have old := built.mirrors.wasAnswered earlier
    rw [supplied, same] at old
    have new := next.nodup
    rw [PhysMem.alloc, List.nodup_append] at new
    exact new.2.2 _ old _ (List.mem_singleton_self _) rfl
  · obtain ⟨page, managedPage, inside⟩ := inFrame
    refine pmmAlloc_outside s.pmm fun inBitmaps => ?_
    exact Mirrors.outside laid managedPage inside (built.mirrors.owned.inBitmaps_iff.mp inBitmaps)

end

end

end Bwuhos
