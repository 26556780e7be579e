import Bwuhos.Fat.Listing

namespace Bwuhos

open Bwuhos.Data

/-! # Walks over a directory

On a volume that delivers its blocks, the loops of `fat.c` compute parts of the listing.
-/

/-- A device of 512-byte blocks that delivers its contents. -/
structure Volume {World : Type} (dev : Blkdev World) (contents : Nat → List UInt8) : Prop where
  delivers : Delivers dev contents
  blkSize : dev.blkSize = 512
  bounded : dev.nblk * 512 < 2 ^ 64

/-- The cache is coherent, and has loaded a block of the device. -/
structure Warm {World : Type} (s : FatState World) (dev : Blkdev World) (contents : Nat → List UInt8) : Prop where
  coherent : Coherent s.driver.blkCache dev contents
  loaded : s.driver.blkCache.loadedBlk < dev.nblk

section Read

variable {World : Type} {platform : Platform World} {dev : Blkdev World} {contents : Nat → List UInt8}
  {s after : FatState World} {pos : Nat}

theorem Volume.nblk_lt (volume : Volume dev contents) : dev.nblk < 2 ^ 64 := by
  have := volume.bounded
  omega

/-- An entry lies inside one block. -/
theorem blkCacheRd_ent {cache : BlkCache World} (world : World) (blkSize : cache.blkdev.blkSize = 512)
    (aligned : pos % 32 = 0) (bound : pos + 32 ≤ 2 ^ 64) :
    blkCacheRd platform cache pos 32 world = blkCacheRdWithin platform cache pos 32 world := by
  have oneBlock : pos / 512 = u64 (pos + 32 - 1) / 512 := by
    rw [u64_of_lt (by omega)]
    omega
  rw [blkCacheRd, if_neg (by decide), blkSize, if_neg (by decide), if_neg (not_not.mpr oneBlock)]

theorem readEnt_inside (platform : Platform World) (volume : Volume dev contents)
    (coherent : Coherent s.driver.blkCache dev contents)
    (aligned : pos % 32 = 0) (inside : pos + 32 ≤ dev.nblk * 512) :
    ∃ after, readEnt platform s pos = .ok (some (entAt contents pos), after) ∧ Warm after dev contents := by
  obtain ⟨delivers, blkSize, bounded⟩ := volume
  have same := coherent.blkdev
  have within := @blkCacheRd_ent World platform pos s.driver.blkCache s.world (same ▸ blkSize) aligned (by omega)
  have existing : pos / dev.blkSize < dev.nblk := by rw [blkSize]; omega
  obtain ⟨result, returned, ret, reads⟩ := blkCacheRdWithin_spec platform 32 s.world
    coherent delivers (by omega) existing
  have bytes := (reads.mpr (by rw [blkSize]; omega)).1
  rw [blkSize] at bytes
  have kept := coherent.kept delivers (by omega) (within.trans returned)
  have loaded : result.cache.loadedBlk < dev.nblk := by
    rw [← same] at existing ⊢
    rcases blkCacheRdWithin_ok returned with ⟨hit, _, _, cache⟩ | ⟨_, _, _, _, ⟨_, failed, _⟩ | ⟨_, _, cache⟩⟩
    · rw [cache, ← hit]
      exact existing
    · exact absurd ret failed
    · rw [cache]
      exact existing
  refine ⟨{ driver := { s.driver with blkCache := result.cache }, world := result.world }, ?_, ⟨kept, loaded⟩⟩
  unfold readEnt
  rw [within, returned]
  simp only [bind, Except.bind, ret, ne_eq, not_true_eq_false, if_false, bytes]
  rfl

theorem readEnt_end (platform : Platform World) (volume : Volume dev contents) (warm : Warm s dev contents)
    (behind : pos = dev.nblk * 512) :
    ∃ after, readEnt platform s pos = .ok (none, after) ∧ Warm after dev contents := by
  obtain ⟨_, blkSize, bounded⟩ := volume
  obtain rfl := warm.coherent.blkdev
  have block : pos / 512 = s.driver.blkCache.blkdev.nblk := by omega
  have miss : ¬pos / 512 = s.driver.blkCache.loadedBlk := by
    have := warm.loaded
    omega
  have rejected : blkdevRd s.driver.blkCache.blkdev s.driver.blkCache.blkdev.nblk 1 s.world =
      { ret := 1, call := none, world := s.world } := by
    rw [blkdevRd, if_pos]
    rw [u64_of_lt (by omega)]
    exact Nat.lt_succ_self _
  have returned : blkCacheRd platform s.driver.blkCache pos 32 s.world = .ok {
      ret := 1, dst := [], copy := none, read := some { ret := 1, call := none, world := s.world }
      cache := s.driver.blkCache, world := s.world } := by
    have noData : ({ ret := 1, call := none, world := s.world } : BlkRd World).data = [] := rfl
    rw [blkCacheRd_ent s.world blkSize (by omega) (by omega), blkCacheRdWithin]
    simp only [blkSize]
    rw [if_neg miss, block, rejected, noData, Buffer.write_nil]
    rfl
  refine ⟨s, ?_, warm⟩
  unfold readEnt
  rw [returned]
  rfl

/-- Where the allocation of its buffer has failed, the cache writes to the null pointer. -/
theorem readEnt_null (platform : Platform World) (volume : Volume dev contents)
    (same : s.driver.blkCache.blkdev = dev) (null : s.driver.blkCache.buf = none) (aligned : pos % 32 = 0)
    (inside : pos + 32 ≤ dev.nblk * 512) : readEnt platform s pos = .error .nullDeref := by
  have bounded := volume.bounded
  have within := @blkCacheRd_ent World platform pos s.driver.blkCache s.world (same ▸ volume.blkSize) aligned (by omega)
  rw [readEnt, within, blkCacheRdWithin, null, same, volume.blkSize]
  by_cases hit : pos / 512 = s.driver.blkCache.loadedBlk
  · rw [if_pos hit]
    rfl
  · have existing : pos / 512 + 1 ≤ dev.nblk := by omega
    have data := (volume.delivers.blkdevRd s.world existing volume.nblk_lt).2
    have size := volume.delivers.sized (pos / 512)
    rw [List.range'_one, List.flatMap_singleton] at data
    rw [volume.blkSize] at size
    rw [if_neg hit]
    dsimp only
    rw [data]
    cases stored : contents (pos / 512) with
    | nil =>
        rw [stored] at size
        cases size
    | cons first rest => rfl

end Read

/-- The long-name entries before the next standard entry fit into the name. -/
def OrdersFit (contents : Nat → List UInt8) (pos count : Nat) : Prop :=
  ∀ index < count, (∀ earlier < index, ¬EndsDirectory (entAt contents (pos + 32 * earlier)) ∧
      ¬StandardEnt (entAt contents (pos + 32 * earlier))) →
    ¬EndsDirectory (entAt contents (pos + 32 * index)) → OrderFits (entAt contents (pos + 32 * index))

section Name

variable {ent name : List UInt8}

theorem putChars_fit {places : List (Nat × UInt8)} (fits : ∀ place ∈ places, place.1 < name.length) :
    places.foldlM putChar name = .ok (places.foldl (fun name place => name.set place.1 place.2) name) ∧
      (places.foldl (fun name place => name.set place.1 place.2) name).length = name.length := by
  induction places generalizing name with
  | nil => exact ⟨rfl, rfl⟩
  | cons place rest ih =>
      have stored : putChar name place = .ok (name.set place.1 place.2) := if_pos (fits place (List.mem_cons_self ..))
      have fits' : ∀ other ∈ rest, other.1 < (name.set place.1 place.2).length := fun other member => by
        rw [List.length_set]
        exact fits other (List.mem_cons_of_mem _ member)
      have more := ih fits'
      rw [List.length_set] at more
      rw [List.foldlM_cons, stored, List.foldl_cons]
      exact more

theorem putName_fits (length : name.length = 255) (order : lfnOrder ent ≤ 18) :
    (lfnChars ent).foldlM putChar name = .ok (putName name ent) ∧ (putName name ent).length = 255 := by
  rw [← length]
  refine putChars_fit fun place member => ?_
  simp only [lfnChars, List.mem_append, List.mem_map, List.mem_range] at member
  rcases member with (⟨i, bound, rfl⟩ | ⟨i, bound, rfl⟩) | ⟨i, bound, rfl⟩ <;> simp only <;> omega

end Name

section Skip

variable {World : Type} {platform : Platform World} {dev : Blkdev World} {contents : Nat → List UInt8}
  {s after : FatState World} {start pos count fuel : Nat} {name : List UInt8}

theorem OrdersFit.tail (fit : OrdersFit contents pos (count + 1)) (notEnd : ¬EndsDirectory (entAt contents pos))
    (notStandard : ¬StandardEnt (entAt contents pos)) : OrdersFit contents (pos + 32) count := by
  intro index bound earlier notEnd'
  have shift : ∀ k, pos + 32 + 32 * k = pos + 32 * (k + 1) := fun k => by omega
  rw [shift] at notEnd' ⊢
  refine fit (index + 1) (Nat.succ_lt_succ bound)
    (Nat.forall_lt_succ_left.mpr ⟨⟨notEnd, notStandard⟩, fun k before => ?_⟩) notEnd'
  exact shift k ▸ earlier k before

theorem getDirentRound_eq {ent : List UInt8} (read : readEnt platform s pos = .ok (some ent, after))
    (bound : pos + 32 < 2 ^ 64) : getDirentRound platform pos name s =
      if byteAt ent 0 = 0 then .ok (.inr (none, after))
      else if byteAt ent 0 = 0xe5 then .ok (.inl (pos + 32, name, after))
      else if direntAttr ent = fdaLfn then
        (lfnChars ent).foldlM putChar name >>= fun name => .ok (.inl (pos + 32, name, after))
      else .ok (.inr (some { pos, info := direntInfo name ent }, after)) := by
  unfold getDirentRound
  rw [read, u64_of_lt bound]
  rfl

theorem skipRound_eq {ent : List UInt8} (read : readEnt platform s pos = .ok (some ent, after))
    (bound : pos + 32 < 2 ^ 64) : skipRound platform pos s =
      if byteAt ent 0 = 0 then .ok (.inr (.ret 0, after))
      else if byteAt ent 0 = 0xe5 then .ok (.inl (pos + 32, after))
      else if direntAttr ent = fdaLfn then .ok (.inl (pos + 32, after))
      else .ok (.inr (.at pos, after)) := by
  unfold skipRound
  rw [read, u64_of_lt bound]
  rfl

theorem getDirentLoop_next {next : Nat} {name' : List UInt8} {after : FatState World}
    (round : getDirentRound platform pos name s = .ok (.inl (next, name', after))) :
    getDirentLoop platform (fuel + 1) s pos name = getDirentLoop platform fuel after next name' :=
  loop_next round

theorem getDirentLoop_done {found : Option DirentAt} {after : FatState World}
    (round : getDirentRound platform pos name s = .ok (.inr (found, after))) :
    getDirentLoop platform (fuel + 1) s pos name = .ok (found, after) :=
  loop_done round

theorem getDirentLoop_stopped {fault : Stop} (round : getDirentRound platform pos name s = .error fault) :
    getDirentLoop platform (fuel + 1) s pos name = .error fault :=
  loop_stopped round

theorem getDirentLoop_spec (volume : Volume dev contents) (aligned : pos % 32 = 0)
    (room : pos + 32 * count = dev.nblk * 512) (coherent : Coherent s.driver.blkCache dev contents)
    (warm : count = 0 → Warm s dev contents) (length : name.length = 255) (fit : OrdersFit contents pos count)
    (enough : count < fuel) :
    ∃ after, getDirentLoop platform fuel s pos name =
        .ok ((logicalEnts start name pos (entsFrom contents pos count)).head?.map LogicalEnt.dirent, after) ∧
      Warm after dev contents := by
  obtain ⟨fuel, rfl⟩ := Nat.exists_eq_succ_of_ne_zero (Nat.ne_zero_of_lt enough)
  have bounded := volume.bounded
  induction count generalizing pos name s fuel start with
  | zero =>
      obtain ⟨after, read, warm⟩ := readEnt_end platform volume (warm rfl) (by omega : pos = dev.nblk * 512)
      refine ⟨after, getDirentLoop_done ?_, warm⟩
      simp only [getDirentRound, read, bind, Except.bind]
      rfl
  | succ count ih =>
      obtain ⟨after, read, warm⟩ := readEnt_inside platform volume coherent aligned
        (by omega : pos + 32 ≤ dev.nblk * 512)
      have bound : pos + 32 < 2 ^ 64 := by omega
      obtain ⟨fuel, rfl⟩ := Nat.exists_eq_succ_of_ne_zero (Nat.ne_zero_of_lt (Nat.lt_of_succ_lt_succ enough))
      have continued : ∀ name', name'.length = 255 → OrdersFit contents (pos + 32) count →
          getDirentRound platform pos name s = .ok (.inl (pos + 32, name', after)) →
          ∃ last, getDirentLoop platform (fuel + 1 + 1) s pos name =
              .ok ((logicalEnts start name' (pos + 32) (entsFrom contents (pos + 32) count)).head?.map
                LogicalEnt.dirent, last) ∧ Warm last dev contents := by
        intro name' length' fit' round
        obtain ⟨last, found, warm'⟩ := ih (by omega) (by omega) warm.coherent (fun _ => warm) length' fit' fuel
          (Nat.lt_of_succ_lt_succ enough)
        exact ⟨last, (getDirentLoop_next round).trans found, warm'⟩
      rw [entsFrom, logicalEnts_cons]
      split
      · next ends =>
          refine ⟨after, getDirentLoop_done ((getDirentRound_eq read bound).trans ?_), warm⟩
          rw [if_pos ends]
          rfl
      · next ends =>
          split
          · next unused =>
              refine continued name length (fit.tail ends fun standard => standard.2.1 unused) ?_
              rw [getDirentRound_eq read bound, if_neg ends, if_pos unused]
          · next unused =>
              split
              · next long =>
                  have order : lfnOrder (entAt contents pos) ≤ 18 :=
                    fit 0 (Nat.succ_pos _) (fun earlier before => absurd before (Nat.not_lt_zero _)) ends unused long
                  obtain ⟨stored, length'⟩ := putName_fits length order
                  refine continued _ length' (fit.tail ends fun standard => standard.2.2 long) ?_
                  rw [getDirentRound_eq read bound, if_neg ends, if_neg unused, if_pos long, stored]
                  rfl
              · next long =>
                  refine ⟨after, getDirentLoop_done ((getDirentRound_eq read bound).trans ?_), warm⟩
                  rw [if_neg ends, if_neg unused, if_neg long]
                  rfl

theorem fatGetDirentInfo_spec (platform : Platform World) (volume : Volume dev contents) (aligned : pos % 32 = 0)
    (room : pos + 32 * count = dev.nblk * 512) (coherent : Coherent s.driver.blkCache dev contents)
    (warm : count = 0 → Warm s dev contents) (fit : OrdersFit contents pos count) (enough : count < fuel) :
    ∃ after, fatGetDirentInfo platform fuel s pos =
        .ok ((logicalEnts pos emptyName pos (entsFrom contents pos count)).head?.map LogicalEnt.dirent, after) ∧
      Warm after dev contents :=
  getDirentLoop_spec volume aligned room coherent warm List.length_replicate fit enough

theorem getDirentLoop_standard {index : Nat} (volume : Volume dev contents) (aligned : pos % 32 = 0)
    (inside : pos + 32 * index < dev.nblk * 512) (coherent : Coherent s.driver.blkCache dev contents)
    (deleted : ∀ earlier < index, byteAt (entAt contents (pos + 32 * earlier)) 0 = 0xe5)
    (standard : StandardEnt (entAt contents (pos + 32 * index))) (enough : index < fuel) :
    ∃ after, getDirentLoop platform fuel s pos name =
      .ok (some { pos := pos + 32 * index, info := direntInfo name (entAt contents (pos + 32 * index)) }, after) := by
  obtain ⟨fuel, rfl⟩ := Nat.exists_eq_succ_of_ne_zero (Nat.ne_zero_of_lt enough)
  have bounded := volume.bounded
  induction index generalizing pos s fuel with
  | zero =>
      obtain ⟨after, read, _⟩ := readEnt_inside platform volume coherent aligned (by omega)
      obtain ⟨used, kept, short⟩ := standard
      refine ⟨after, getDirentLoop_done ((getDirentRound_eq read (by omega)).trans ?_)⟩
      exact (if_neg used).trans ((if_neg kept).trans (if_neg short))
  | succ index ih =>
      have unused : byteAt (entAt contents pos) 0 = 0xe5 := deleted 0 (Nat.succ_pos _)
      have notEnd : byteAt (entAt contents pos) 0 ≠ 0 := by
        rw [unused]
        decide
      have shift : pos + 32 * (index + 1) = pos + 32 + 32 * index := by omega
      obtain ⟨after, read, warm⟩ := readEnt_inside platform volume coherent aligned (by omega)
      obtain ⟨fuel, rfl⟩ := Nat.exists_eq_succ_of_ne_zero (Nat.ne_zero_of_lt (Nat.lt_of_succ_lt_succ enough))
      rw [shift] at inside standard ⊢
      obtain ⟨last, found⟩ := ih (by omega) inside warm.coherent (fun earlier before => by
        rw [show pos + 32 + 32 * earlier = pos + 32 * (earlier + 1) by omega]
        exact deleted (earlier + 1) (Nat.succ_lt_succ before)) standard fuel (Nat.lt_of_succ_lt_succ enough)
      have round : getDirentRound platform pos name s = .ok (.inl (pos + 32, name, after)) := by
        rw [getDirentRound_eq read (by omega), if_neg notEnd, if_pos unused]
      exact ⟨last, (getDirentLoop_next round).trans found⟩

/-- The information of a standard entry, asked for at the entry or at a deleted one before it. -/
theorem fatGetDirentInfo_standard {index : Nat} (platform : Platform World) (volume : Volume dev contents)
    (aligned : pos % 32 = 0) (inside : pos + 32 * index < dev.nblk * 512)
    (coherent : Coherent s.driver.blkCache dev contents)
    (deleted : ∀ earlier < index, byteAt (entAt contents (pos + 32 * earlier)) 0 = 0xe5)
    (standard : StandardEnt (entAt contents (pos + 32 * index))) (enough : index < fuel) :
    ∃ after, fatGetDirentInfo platform fuel s pos = .ok
      (some { pos := pos + 32 * index, info := direntInfo emptyName (entAt contents (pos + 32 * index)) }, after) :=
  getDirentLoop_standard volume aligned inside coherent deleted standard enough

theorem fatGetDirentInfo_null (platform : Platform World) (volume : Volume dev contents) (aligned : pos % 32 = 0)
    (inside : pos < dev.nblk * 512) (same : s.driver.blkCache.blkdev = dev) (null : s.driver.blkCache.buf = none)
    (enough : 0 < fuel) : fatGetDirentInfo platform fuel s pos = .error .nullDeref := by
  obtain ⟨fuel, rfl⟩ := Nat.exists_eq_succ_of_ne_zero (Nat.ne_zero_of_lt enough)
  have read := readEnt_null platform volume same null aligned (by omega)
  apply getDirentLoop_stopped
  rw [getDirentRound, read]
  rfl

theorem skipDirent_next {next : Nat} {after : FatState World}
    (round : skipRound platform pos s = .ok (.inl (next, after))) :
    skipDirent platform (fuel + 1) s pos = skipDirent platform fuel after next :=
  loop_next round

theorem skipDirent_done {walk : EntWalk} {after : FatState World}
    (round : skipRound platform pos s = .ok (.inr (walk, after))) :
    skipDirent platform (fuel + 1) s pos = .ok (walk, after) :=
  loop_done round

/-- Where the first loop of `fat_next_dirent` comes to an end on a volume that has `count`
entries from `pos` on. -/
def skipEnd (contents : Nat → List UInt8) (pos : Nat) : (count : Nat) → EntWalk
  | 0 => .ret 1
  | count + 1 =>
      if byteAt (entAt contents pos) 0 = 0 then .ret 0
      else if byteAt (entAt contents pos) 0 = 0xe5 ∨ direntAttr (entAt contents pos) = fdaLfn then
        skipEnd contents (pos + 32) count
      else .at pos

theorem skipDirent_eq (platform : Platform World) (volume : Volume dev contents) (aligned : pos % 32 = 0)
    (room : pos + 32 * count = dev.nblk * 512) (coherent : Coherent s.driver.blkCache dev contents)
    (warm : count = 0 → Warm s dev contents) (enough : count < fuel) :
    ∃ after, skipDirent platform fuel s pos = .ok (skipEnd contents pos count, after) ∧ Warm after dev contents := by
  obtain ⟨fuel, rfl⟩ := Nat.exists_eq_succ_of_ne_zero (Nat.ne_zero_of_lt enough)
  have bounded := volume.bounded
  induction count generalizing pos s fuel with
  | zero =>
      obtain ⟨after, read, warm⟩ := readEnt_end platform volume (warm rfl) (by omega : pos = dev.nblk * 512)
      refine ⟨after, skipDirent_done ?_, warm⟩
      simp only [skipRound, read, bind, Except.bind]
      rfl
  | succ count ih =>
      obtain ⟨after, read, warm⟩ := readEnt_inside platform volume coherent aligned
        (by omega : pos + 32 ≤ dev.nblk * 512)
      have bound : pos + 32 < 2 ^ 64 := by omega
      obtain ⟨fuel, rfl⟩ := Nat.exists_eq_succ_of_ne_zero (Nat.ne_zero_of_lt (Nat.lt_of_succ_lt_succ enough))
      have continued : skipRound platform pos s = .ok (.inl (pos + 32, after)) →
          ∃ last, skipDirent platform (fuel + 1 + 1) s pos = .ok (skipEnd contents (pos + 32) count, last) ∧
            Warm last dev contents := by
        intro round
        obtain ⟨last, ended, warm'⟩ : ∃ last, skipDirent platform (fuel + 1) after (pos + 32) =
            .ok (skipEnd contents (pos + 32) count, last) ∧ Warm last dev contents :=
          ih (by omega) (by omega) warm.coherent (fun _ => warm) fuel (Nat.lt_of_succ_lt_succ enough)
        exact ⟨last, (skipDirent_next round).trans ended, warm'⟩
      rw [skipEnd]
      split
      · next ends =>
          refine ⟨after, skipDirent_done ((skipRound_eq read bound).trans ?_), warm⟩
          rw [if_pos ends]
      · next notEnd =>
          split
          · next passed =>
              apply continued
              rw [skipRound_eq read bound, if_neg notEnd]
              split
              · rfl
              · next used => rw [if_pos (passed.resolve_left used)]
          · next standard =>
              refine ⟨after, skipDirent_done ((skipRound_eq read bound).trans ?_), warm⟩
              obtain ⟨used, short⟩ := not_or.mp standard
              rw [if_neg notEnd, if_neg used, if_neg short]

/-- The first loop ends at the standard entry of the first logical entry. -/
theorem skipEnd_first {logical : LogicalEnt}
    (first : (logicalEnts start name pos (entsFrom contents pos count)).head? = some logical) :
    skipEnd contents pos count = .at logical.dirent.pos := by
  induction count generalizing pos name with
  | zero => cases first
  | succ count ih =>
      rw [entsFrom, logicalEnts_cons] at first
      rw [skipEnd]
      split at first
      · cases first
      · next notEnd =>
          rw [if_neg notEnd]
          split at first
          · next unused =>
              rw [if_pos (Or.inl unused)]
              exact ih first
          · next used =>
              split at first
              · next long =>
                  rw [if_pos (Or.inr long)]
                  exact ih first
              · next short =>
                  cases first
                  exact if_neg (not_or.mpr ⟨used, short⟩)

theorem skipDirent_spec {logical : LogicalEnt} (platform : Platform World) (volume : Volume dev contents)
    (aligned : pos % 32 = 0)
    (room : pos + 32 * count = dev.nblk * 512) (coherent : Coherent s.driver.blkCache dev contents)
    (first : (logicalEnts start name pos (entsFrom contents pos count)).head? = some logical) (enough : count < fuel) :
    ∃ after, skipDirent platform fuel s pos = .ok (.at logical.dirent.pos, after) ∧ Warm after dev contents := by
  have nonempty : count ≠ 0 := fun none => by
    rw [none] at first
    cases first
  rw [← skipEnd_first first]
  exact skipDirent_eq platform volume aligned room coherent (fun none => absurd none nonempty) enough

/-- The second loop of `fat_next_dirent` reads a standard entry again, and so ends at once. -/
theorem nextAfter_spec (platform : Platform World) (fuel : Nat) (volume : Volume dev contents)
    (coherent : Coherent s.driver.blkCache dev contents)
    (aligned : pos % 32 = 0) (inside : pos + 32 ≤ dev.nblk * 512) (standard : StandardEnt (entAt contents pos)) :
    ∃ after, nextAfter platform (fuel + 1) s pos = .ok (.at (pos + 32), after) ∧ Warm after dev contents := by
  have bounded := volume.bounded
  obtain ⟨after, read, warm⟩ := readEnt_inside platform volume coherent aligned inside
  refine ⟨after, loop_done ?_, warm⟩
  simp only [nextRound, read, bind, Except.bind]
  rw [if_neg standard.1, if_neg standard.2.1, u64_of_lt (by omega)]
  rfl

theorem fatNextDirent_spec {logical : LogicalEnt} (platform : Platform World) (volume : Volume dev contents)
    (aligned : pos % 32 = 0)
    (room : pos + 32 * count = dev.nblk * 512) (coherent : Coherent s.driver.blkCache dev contents)
    (first : (logicalEnts start name pos (entsFrom contents pos count)).head? = some logical) (enough : count < fuel) :
    ∃ after, fatNextDirent platform fuel s pos = .ok (logical.dirent.pos + 32, after) ∧ Warm after dev contents := by
  obtain ⟨rest, listed⟩ := List.head?_eq_some_iff.mp first
  obtain ⟨_, index, later, total, position, standard, _⟩ := logicalEnts_split listed
  obtain ⟨middle, skipped, skipWarm⟩ := skipDirent_spec platform volume aligned room coherent first enough
  obtain ⟨fuel, rfl⟩ := Nat.exists_eq_succ_of_ne_zero (Nat.ne_zero_of_lt enough)
  obtain ⟨after, moved, warm⟩ := nextAfter_spec platform fuel volume skipWarm.coherent
    (by omega) (by omega) (position ▸ standard.2.1)
  refine ⟨after, ?_, warm⟩
  unfold fatNextDirent
  rw [skipped]
  simp only [bind, Except.bind]
  rw [moved]
  rfl

end Skip

section Find

variable {World : Type} {platform : Platform World} {dev : Blkdev World} {contents : Nat → List UInt8}
  {s : FatState World} {pos count fuel rounds : Nat} {name : List UInt8} {ents : List LogicalEnt}

theorem OrdersMet.fit (met : OrdersMet contents pos count name) : OrdersFit contents pos count := by
  intro index bound notStandard notEnd
  refine met index bound (fun earlier before => (notStandard earlier before).1) fun logical member before => ?_
  obtain ⟨earlier, position, standard⟩ := logicalEnts_index (Nat.le_refl _) member
  exact absurd standard.2.1 (notStandard earlier (by omega)).2

theorem findRound_next {middle after : FatState World} {logical : LogicalEnt} (examined : List DirentAt)
    (got : fatGetDirentInfo platform fuel s pos = .ok (some logical.dirent, middle)) (other : ¬Named name logical)
    (moved : fatNextDirent platform fuel middle pos = .ok (logical.dirent.pos + 32, after)) :
    findRound platform fuel name pos examined s =
      .ok (.inl (logical.dirent.pos + 32, examined ++ [logical.dirent], after)) := by
  simp only [findRound, got, bind, Except.bind, moved]
  rw [if_neg (show ¬direntDiff name logical.dirent.info.name = 0 from other), if_neg (Nat.succ_ne_zero _)]
  rfl

theorem findLoop_spec (platform : Platform World) (examined : List DirentAt) (volume : Volume dev contents)
    (aligned : pos % 32 = 0)
    (room : pos + 32 * count = dev.nblk * 512) (coherent : Coherent s.driver.blkCache dev contents)
    (warm : count = 0 → Warm s dev contents) (met : OrdersMet contents pos count name) (enough : count < fuel)
    (listed : logicalEnts pos emptyName pos (entsFrom contents pos count) = ents) (many : ents.length < rounds) :
    ∃ state, loop .outOfFuel (fun (de, examined, s) => findRound platform fuel name de examined s) rounds
        (pos, examined, s) = .ok {
          ret := ((firstNamed name ents).map LogicalEnt.start).getD 0
          examined := examined ++ (upToNamed name ents).map LogicalEnt.dirent, state } ∧
      Warm state dev contents := by
  obtain ⟨rounds, rfl⟩ := Nat.exists_eq_succ_of_ne_zero (Nat.ne_zero_of_lt many)
  induction ents generalizing pos count s examined rounds with
  | nil =>
      obtain ⟨after, got, warm'⟩ := fatGetDirentInfo_spec platform volume aligned room coherent warm
        met.fit enough
      refine ⟨after, loop_done ?_, warm'⟩
      rw [listed] at got
      have nothing : examined ++ (upToNamed name []).map LogicalEnt.dirent = examined := List.append_nil _
      rw [nothing]
      simp only [findRound, got, bind, Except.bind]
      rfl
  | cons logical rest ih =>
      obtain ⟨middle, got, gotWarm⟩ := fatGetDirentInfo_spec platform volume aligned room coherent warm
        met.fit enough
      rw [listed] at got
      obtain ⟨same, index, later, total, position, standard, remaining⟩ := logicalEnts_split listed
      by_cases named : Named name logical
      · refine ⟨middle, loop_done ?_, gotWarm⟩
        rw [firstNamed_here named, upToNamed_here named, Option.map_some, same]
        simp only [findRound, got, bind, Except.bind, List.head?_cons, Option.map_some]
        rw [if_pos (show direntDiff name logical.dirent.info.name = 0 from named)]
        rfl
      · obtain ⟨after, moved, movedWarm⟩ := fatNextDirent_spec platform volume aligned room
          gotWarm.coherent (congrArg List.head? listed) enough
        obtain ⟨rounds, rfl⟩ := Nat.exists_eq_succ_of_ne_zero (Nat.ne_zero_of_lt (Nat.lt_of_succ_lt_succ many))
        obtain ⟨state, found, warm'⟩ := ih (examined ++ [logical.dirent]) (by omega) (by omega)
          movedWarm.coherent (fun _ => movedWarm) (met.tail listed named total position standard remaining) (by omega)
          remaining.symm rounds (Nat.lt_of_succ_lt_succ many)
        refine ⟨state, (loop_next (findRound_next examined got named moved)).trans ?_, warm'⟩
        rw [found, firstNamed_later named, upToNamed_later named, List.map_cons, List.append_assoc,
          List.singleton_append]

/-- A search stops where its first read does. -/
theorem fatFindDirent_stopped {fault : Stop} (read : readEnt platform s pos = .error fault) :
    fatFindDirent platform (fuel + 1) s pos name = .error fault := by
  have round : getDirentRound platform pos emptyName s = .error fault := by
    rw [getDirentRound, read]
    rfl
  have got : fatGetDirentInfo platform (fuel + 1) s pos = .error fault := getDirentLoop_stopped round
  apply loop_stopped
  simp only [findRound, got]
  rfl

theorem fatFindDirent_spec (platform : Platform World) (volume : Volume dev contents) (aligned : pos % 32 = 0)
    (inside : pos < dev.nblk * 512)
    (coherent : Coherent s.driver.blkCache dev contents)
    (met : OrdersMet contents pos ((dev.nblk * 512 - pos) / 32) name) (enough : (dev.nblk * 512 - pos) / 32 < fuel) :
    ∃ state, fatFindDirent platform fuel s pos name = .ok {
        ret := ((firstNamed name (listing contents dev.nblk pos)).map LogicalEnt.start).getD 0
        examined := (upToNamed name (listing contents dev.nblk pos)).map LogicalEnt.dirent, state } ∧
      Warm state dev contents := by
  have few : (listing contents dev.nblk pos).length < fuel :=
    Nat.lt_of_le_of_lt (logicalEnts_length.trans (Nat.le_of_eq entsFrom_length)) enough
  exact findLoop_spec platform [] volume aligned (by omega) coherent (fun none => by omega) met enough rfl few

end Find

end Bwuhos
