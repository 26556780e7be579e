import Bwuhos.Fat.Names
import Bwuhos.Fat.Runs
import Mathlib.Data.Nat.Find

namespace Bwuhos

open Bwuhos.Data

/-! # The entry behind an entry

The second loop of `fat_next_dirent` tests the standard entry again that the first one has
ended at, and not the entries that it counts on.
-/

/-- Neither the end of the directory nor a deleted entry. -/
def UsedEnt (ent : List UInt8) : Prop := byteAt ent 0 ≠ 0 ∧ byteAt ent 0 ≠ 0xe5

/-- None of the entries before number `index` from `pos` on ends the directory or is a standard one. -/
structure FirstStop (contents : Nat → List UInt8) (pos count index : Nat) : Prop where
  bound : index < count
  before : ∀ earlier < index, ¬EndsDirectory (entAt contents (pos + 32 * earlier)) ∧
    ¬StandardEnt (entAt contents (pos + 32 * earlier))

/-- The standard entry at `last` ends the logical entry at `cur`. -/
def EndsLogical (contents : Nat → List UInt8) (nblk cur last : Nat) : Prop :=
  ∃ index, FirstStop contents cur ((nblk * 512 - cur) / 32) index ∧ last = cur + 32 * index ∧
    StandardEnt (entAt contents last)

/-- Between the entries at `last` and `next` there are only deleted ones. -/
def DeletedBetween (contents : Nat → List UInt8) (nblk last next : Nat) : Prop :=
  ∃ between, next = last + 32 * (between + 1) ∧ next + 32 ≤ nblk * 512 ∧
    ∀ earlier < between, byteAt (entAt contents (last + 32 * (earlier + 1))) 0 = 0xe5

/-- From `cur` on the directory ends before a used entry behind the logical entry. -/
def NothingFollows (contents : Nat → List UInt8) (nblk cur : Nat) : Prop :=
  (∃ index, FirstStop contents cur ((nblk * 512 - cur) / 32) index ∧
      EndsDirectory (entAt contents (cur + 32 * index))) ∨
    ∃ last, EndsLogical contents nblk cur last ∧
      ∃ next, DeletedBetween contents nblk last next ∧ EndsDirectory (entAt contents next)

/-- What `fat_next_dirent` should return.  The code 1 says that it has failed. -/
structure NextDirentMeets (contents : Nat → List UInt8) (nblk cur ret : Nat) : Prop where
  next : ret ≠ 0 → ret ≠ 1 → ∃ last, EndsLogical contents nblk cur last ∧
    DeletedBetween contents nblk last ret ∧ UsedEnt (entAt contents ret)
  ended : NothingFollows contents nblk cur → ret = 0

/-- Directly behind the standard entry that ends the logical entry lies a used one. -/
def UsedBehind (contents : Nat → List UInt8) (nblk cur : Nat) : Prop :=
  ∀ last, EndsLogical contents nblk cur last → last + 64 ≤ nblk * 512 ∧ UsedEnt (entAt contents (last + 32))

section Scan

variable {contents : Nat → List UInt8} {nblk cur pos count index last next ret : Nat}

theorem standardEnt_iff {ent : List UInt8} (notEnd : ¬byteAt ent 0 = 0) :
    StandardEnt ent ↔ ¬(byteAt ent 0 = 0xe5 ∨ direntAttr ent = fdaLfn) := by
  rw [StandardEnt, not_or, and_iff_right notEnd]

/-- The first loop passes over the entries before the first one that stops it. -/
theorem skipEnd_add (before : ∀ earlier < index, ¬EndsDirectory (entAt contents (pos + 32 * earlier)) ∧
    ¬StandardEnt (entAt contents (pos + 32 * earlier))) :
    skipEnd contents pos (index + count) = skipEnd contents (pos + 32 * index) count := by
  induction index generalizing pos with
  | zero => rw [Nat.zero_add, Nat.mul_zero, Nat.add_zero]
  | succ index ih =>
      obtain ⟨notEnd, notStandard⟩ : ¬byteAt (entAt contents pos) 0 = 0 ∧ ¬StandardEnt (entAt contents pos) :=
        before 0 (Nat.succ_pos _)
      have passed : byteAt (entAt contents pos) 0 = 0xe5 ∨ direntAttr (entAt contents pos) = fdaLfn := by
        by_contra standard
        exact notStandard ((standardEnt_iff notEnd).mpr standard)
      have shift : ∀ k, pos + 32 + 32 * k = pos + 32 * (k + 1) := fun k => by omega
      have later := @ih (pos + 32) fun earlier sooner => by
        rw [shift]
        exact before (earlier + 1) (Nat.succ_lt_succ sooner)
      rw [Nat.add_right_comm, skipEnd, if_neg notEnd, if_pos passed, later, shift]

theorem FirstStop.skipEnd (first : FirstStop contents pos count index) :
    ∃ later, skipEnd contents pos count = Bwuhos.skipEnd contents (pos + 32 * index) (later + 1) := by
  obtain ⟨later, rfl⟩ := Nat.exists_eq_add_of_lt first.bound
  exact ⟨later, @skipEnd_add contents pos (later + 1) index first.before⟩

theorem FirstStop.skipEnd_ret (first : FirstStop contents pos count index)
    (ends : EndsDirectory (entAt contents (pos + 32 * index))) : Bwuhos.skipEnd contents pos count = .ret 0 := by
  obtain ⟨later, same⟩ := first.skipEnd
  exact same.trans (if_pos ends)

theorem FirstStop.skipEnd_at (first : FirstStop contents pos count index)
    (standard : StandardEnt (entAt contents (pos + 32 * index))) :
    Bwuhos.skipEnd contents pos count = .at (pos + 32 * index) := by
  obtain ⟨later, same⟩ := first.skipEnd
  rw [same, Bwuhos.skipEnd, if_neg standard.1, if_neg ((standardEnt_iff standard.1).mp standard)]

theorem skipEnd_cases (contents : Nat → List UInt8) (pos count : Nat) :
    (∃ index, FirstStop contents pos count index ∧ EndsDirectory (entAt contents (pos + 32 * index)) ∧
      skipEnd contents pos count = .ret 0) ∨
    (∃ index, FirstStop contents pos count index ∧ StandardEnt (entAt contents (pos + 32 * index)) ∧
      skipEnd contents pos count = .at (pos + 32 * index)) ∨
    skipEnd contents pos count = .ret 1 := by
  classical
  by_cases stops : ∃ index, index < count ∧
      (EndsDirectory (entAt contents (pos + 32 * index)) ∨ StandardEnt (entAt contents (pos + 32 * index)))
  · obtain ⟨bound, stop⟩ := Nat.find_spec stops
    have first : FirstStop contents pos count (Nat.find stops) := ⟨bound, fun earlier sooner =>
      not_or.mp fun early => Nat.find_min stops sooner ⟨Nat.lt_trans sooner bound, early⟩⟩
    cases stop with
    | inl ends => exact Or.inl ⟨_, first, ends, first.skipEnd_ret ends⟩
    | inr standard => exact Or.inr (Or.inl ⟨_, first, standard, first.skipEnd_at standard⟩)
  · have passed := @skipEnd_add contents pos 0 count fun earlier sooner =>
      not_or.mp fun stop => stops ⟨earlier, sooner, stop⟩
    exact Or.inr (Or.inr passed)

theorem EndsLogical.skipEnd (ends : EndsLogical contents nblk cur last) :
    skipEnd contents cur ((nblk * 512 - cur) / 32) = .at last := by
  obtain ⟨index, first, rfl, standard⟩ := ends
  exact first.skipEnd_at standard

end Scan

section Next

variable {World : Type} {platform : Platform World} {dev : Blkdev World} {contents : Nat → List UInt8}
  {s after : FatState World} {nblk cur last fuel ret : Nat}

/-- What `fat_next_dirent` returns on a volume: the position behind the standard entry,
whatever lies there. -/
def nextEnd : EntWalk → Nat
  | .ret code => code
  | .at last => last + 32

theorem fatNextDirent_eq (platform : Platform World) (volume : Volume dev contents)
    (coherent : Coherent s.driver.blkCache dev contents) (aligned : cur % 32 = 0) (inside : cur < dev.nblk * 512)
    (enough : dev.nblk * 512 < fuel) :
    ∃ after, fatNextDirent platform fuel s cur =
      .ok (nextEnd (skipEnd contents cur ((dev.nblk * 512 - cur) / 32)), after) := by
  obtain ⟨fuel, rfl⟩ := Nat.exists_eq_succ_of_ne_zero (Nat.ne_zero_of_lt enough)
  have less : (dev.nblk * 512 - cur) / 32 < fuel + 1 := by omega
  obtain ⟨middle, skipped, warm⟩ :=
    skipDirent_eq platform volume aligned (by omega) coherent (fun none => by omega) less
  rcases skipEnd_cases contents cur ((dev.nblk * 512 - cur) / 32) with
    ⟨index, first, ends, same⟩ | ⟨index, first, standard, same⟩ | same
  · rw [same] at skipped ⊢
    exact ⟨middle, by rw [fatNextDirent, skipped]; rfl⟩
  · have bound := first.bound
    rw [same] at skipped ⊢
    obtain ⟨after, moved, _⟩ := nextAfter_spec platform fuel volume warm.coherent
      (by omega : (cur + 32 * index) % 32 = 0) (by omega) standard
    exact ⟨after, by simp only [fatNextDirent, skipped, bind, Except.bind, moved]; rfl⟩
  · rw [same] at skipped ⊢
    exact ⟨middle, by rw [fatNextDirent, skipped]; rfl⟩

/-- Where a used entry follows directly, the directory ends only before the standard entry. -/
theorem UsedBehind.skipEnd (behind : UsedBehind contents nblk cur) (nothing : NothingFollows contents nblk cur) :
    skipEnd contents cur ((nblk * 512 - cur) / 32) = .ret 0 := by
  cases nothing with
  | inl early =>
      obtain ⟨index, first, done⟩ := early
      exact first.skipEnd_ret done
  | inr late =>
      obtain ⟨last, ends, next, ⟨between, rfl, _, deleted⟩, done⟩ := late
      have used := (behind last ends).2
      cases between with
      | zero => exact absurd done used.1
      | succ between => exact absurd (deleted 0 (Nat.succ_pos _)) used.2

theorem nextDirentMeets_iff :
    NextDirentMeets contents nblk cur (nextEnd (skipEnd contents cur ((nblk * 512 - cur) / 32))) ↔
      UsedBehind contents nblk cur := by
  constructor
  · intro meets last ends
    have next := meets.next
    rw [ends.skipEnd] at next
    have somewhere : nextEnd (.at last) ≠ 1 := fun same => by
      simp only [nextEnd] at same
      omega
    obtain ⟨last', ends', ⟨between, position, room, _⟩, used⟩ := next (Nat.succ_ne_zero _) somewhere
    cases ends.skipEnd.symm.trans ends'.skipEnd
    exact ⟨room, used⟩
  · intro behind
    rcases skipEnd_cases contents cur ((nblk * 512 - cur) / 32) with
      ⟨index, first, done, same⟩ | ⟨index, first, standard, same⟩ | same
    · rw [same]
      exact ⟨fun wrong => absurd rfl wrong, fun _ => rfl⟩
    · have ends : EndsLogical contents nblk cur (cur + 32 * index) := ⟨index, first, rfl, standard⟩
      obtain ⟨room, used⟩ := behind _ ends
      have here : DeletedBetween contents nblk (cur + 32 * index) (cur + 32 * index + 32) :=
        ⟨0, rfl, room, fun earlier before => absurd before (Nat.not_lt_zero _)⟩
      rw [same]
      refine ⟨fun _ _ => ⟨_, ends, here, used⟩, fun nothing => ?_⟩
      cases same.symm.trans (behind.skipEnd nothing)
    · rw [same]
      refine ⟨fun _ wrong => absurd rfl wrong, fun nothing => ?_⟩
      cases same.symm.trans (behind.skipEnd nothing)

/-- On a volume, in every reachable state of a driver whose block cache has its buffer,
`fat_next_dirent` returns, and what it should exactly for the positions in a directory where a
used entry lies directly behind the standard entry that ends the logical entry. -/
theorem fat_next_dirent_iff (platform : Platform World) (dev : Blkdev World) (session : FatSession World)
    (reached : (fatSystem platform dev).Reachable session) (allocated : session.driver.blkCache.buf ≠ none)
    (contents : Nat → List UInt8) (volume : Volume dev contents) (cur : Nat) (aligned : cur % 32 = 0)
    (inside : cur < dev.nblk * 512) (fuel : Nat) (enough : dev.nblk * 512 < fuel) (world : World) :
    ∃ returned, fatNextDirent platform fuel { driver := session.driver, world } cur = .ok returned ∧
      (NextDirentMeets contents dev.nblk cur returned.1 ↔ UsedBehind contents dev.nblk cur) := by
  have coherent := (fat_reachable_ok reached).coherent volume allocated
  obtain ⟨after, returns⟩ := @fatNextDirent_eq World dev contents { driver := session.driver, world } cur
    fuel platform volume coherent aligned inside enough
  exact ⟨_, returns, nextDirentMeets_iff⟩

end Next

/-- In the root, a long-name entry comes before the entry of a directory, and that of a file follows. -/
theorem smallRoot_used : EndsLogical smallContents 4100 1024 1056 ∧ UsedEnt (entAt smallContents 1088) := by
  have long : ¬EndsDirectory (entAt smallContents (1024 + 32 * 0)) ∧
      direntAttr (entAt smallContents (1024 + 32 * 0)) = fdaLfn := by
    decide +kernel
  refine ⟨⟨1, ⟨by decide, fun earlier sooner => ?_⟩, rfl, ?_⟩, ?_⟩
  · obtain rfl : earlier = 0 := by omega
    exact ⟨long.1, fun standard => standard.2.2 long.2⟩
  · exact ⟨by decide +kernel, by decide +kernel, by decide +kernel⟩
  · exact ⟨by decide +kernel, by decide +kernel⟩

theorem fat_next_dirent_iff_small : ∃ returned,
    fatNextDirent .zeroed 2099201 { driver := smallDriver, world := () } 1024 = .ok returned ∧
      NextDirentMeets smallContents 4100 1024 returned.1 := by
  obtain ⟨returned, next, meets⟩ := fat_next_dirent_iff .zeroed smallDisk _ smallDriver_reachable
    smallDriver_allocated smallContents smallDisk_volume 1024 (by decide) (by decide) 2099201 (by decide) ()
  refine ⟨returned, next, meets.mpr fun last ends => ?_⟩
  cases ends.skipEnd.symm.trans smallRoot_used.1.skipEnd
  exact ⟨by decide, smallRoot_used.2⟩

/-- Behind the only file of a directory, `fat_next_dirent` returns the end of the directory. -/
theorem fat_next_dirent_end : NothingFollows smallContents 4100 2048 ∧
    ∃ after, fatNextDirent .zeroed 2099201 { driver := smallDriver, world := () } 2048 = .ok (2080, after) ∧
      ¬NextDirentMeets smallContents 4100 2048 2080 := by
  obtain ⟨index, position, _, standard, _⟩ := smallDir_standardAt.mpr rfl
  have ends : EndsLogical smallContents 4100 2048 2048 :=
    ⟨0, ⟨by decide, fun earlier before => absurd before (Nat.not_lt_zero _)⟩, rfl, position ▸ standard⟩
  have nothing : NothingFollows smallContents 4100 2048 := Or.inr ⟨2048, ends, 2080,
    ⟨0, rfl, by decide, fun earlier before => absurd before (Nat.not_lt_zero _)⟩, smallDir_end⟩
  have ok := fat_reachable_ok smallDriver_reachable
  obtain ⟨after, returned⟩ := @fatNextDirent_eq Unit smallDisk smallContents { driver := smallDriver, world := () } 2048
    2099201 .zeroed smallDisk_volume (ok.coherent smallDisk_volume smallDriver_allocated) (by decide) (by decide)
    (by decide)
  have stops : skipEnd smallContents 2048 ((smallDisk.nblk * 512 - 2048) / 32) = .at 2048 := ends.skipEnd
  rw [stops] at returned
  exact ⟨nothing, after, returned, fun meets => absurd (meets.ended nothing) (by decide)⟩

end Bwuhos
