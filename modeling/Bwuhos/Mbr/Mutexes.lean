import Bwuhos.Fat.Runs
import Bwuhos.Locking.Storage
import Bwuhos.Mbr

namespace Bwuhos.Synced

open Bwuhos.Data Locked
open Locking (bfSyncDepChild)

/-! # Partitions and their mutexes

`mbr_find` on devices with the mutexes that they lock.  A mutex is known by the address of
the device that it is a field of.
-/

/-- `struct blkdev`, with the mutex that `parent_mutex` points to. -/
structure Blkdev (World : Type) extends Bwuhos.Blkdev World where
  parentMutex : Option Nat

/-- A device at an address, and the array of its partitions, whose pointer may be null. -/
structure BlkNode (World : Type) where
  place : Nat
  dev : Blkdev World
  children : Option (List (Blkdev World))

section

variable {World : Type}

/-- The mutex that `blkdev_mk_part` takes. -/
def BlkNode.ownMutex (node : BlkNode World) : Option Nat :=
  if node.dev.flags &&& bfSyncDepChild ≠ 0 then node.dev.parentMutex else some node.place

/-- The mutex that `blkdev_rd` takes. -/
def BlkNode.syncMutex (node : BlkNode World) : Option Nat :=
  if node.dev.flags &&& bfPart ≠ 0 ∨ node.dev.flags &&& bfSyncDepChild ≠ 0 then node.dev.parentMutex
  else some node.place

/-- The partition that a device gets. -/
def BlkNode.part (node : BlkNode World) (mutex base limit : Nat) : Blkdev World :=
  { node.dev with partBase := base, flags := node.dev.flags ||| bfPart, nblk := limit, parentMutex := some mutex }

/-- What `blkdev_mk_part` does while it holds the mutex. -/
def BlkNode.mkPart (node : BlkNode World) (mutex base limit : Nat) :
    Except Stop (Option (Blkdev World) × BlkNode World) :=
  if (node.children.getD []).length ≥ blkdevMaxParts then .ok (none, node)
  else if u64 (base + limit) > node.dev.nblk then .ok (none, node)
  else
    match node.children with
    | none => .error .nullDeref
    | some children =>
        let part := node.part mutex base limit
        .ok (some part, { node with children := some (children ++ [part]) })

/-- The new partition, if there is one, and the device afterwards. -/
def blkdevMkPart (node : BlkNode World) (base limit : Nat) :
    Locked Nat Stop World (Option (Blkdev World) × BlkNode World) :=
  if node.dev.flags &&& bfPart ≠ 0 then return (none, node)
  else
    match node.ownMutex with
    | none => stop .nullDeref
    | some mutex => holding mutex (act fun world => (node.mkPart mutex base limit).map fun made => (made, world))

/-- `blkdev_rd` of the first block into a `struct mbr` on the stack: the result, and what it holds. -/
def readMbr (platform : Platform World) (node : BlkNode World) : Locked Nat Stop World (Nat × List UInt8) :=
  match node.syncMutex with
  | none => stop .nullDeref
  | some mutex => holding mutex (act fun world =>
      (readBootSector platform node.dev.toBlkdev world).map fun read => ((read.1, read.2.1), read.2.2))

def mbrPartition (mbr : List UInt8) : List Nat → BlkNode World → Locked Nat Stop World (BlkNode World)
  | [], node => return node
  | ent :: rest, node =>
      if mbrEntType mbr ent = 0 then mbrPartition mbr rest node
      else do
        let made ← blkdevMkPart node (mbrEntStartLba mbr ent) (mbrEntNsector mbr ent)
        mbrPartition mbr rest made.2

def mbrFindOn (platform : Platform World) (node : BlkNode World) : Locked Nat Stop World (BlkNode World) :=
  if node.dev.devType ≠ .diskDrive then return node
  else if node.dev.blkSize ≠ 512 then return node
  else do
    let read ← readMbr platform node
    if read.1 ≠ 0 then return node
    else if mbrVerify read.2 none ≠ 0 then return node
    else mbrPartition read.2 (List.range 4) node

def mbrFind (platform : Platform World) : List (BlkNode World) → Locked Nat Stop World (List (BlkNode World))
  | [] => return []
  | node :: rest => do
      let node ← mbrFindOn platform node
      let rest ← mbrFind platform rest
      return node :: rest

/-- The device in the model that has no mutexes. -/
def BlkNode.erase (node : BlkNode World) : Bwuhos.BlkNode World where
  dev := node.dev.toBlkdev
  children := node.children.map (List.map Blkdev.toBlkdev)

variable {platform : Platform World} {node after : BlkNode World} {held last : Nat → Bool} {world final : World}
  {mbr : List UInt8}

theorem BlkNode.erase_children (node : BlkNode World) :
    node.erase.children.getD [] = (node.children.getD []).map Blkdev.toBlkdev := by
  unfold erase
  cases node.children <;> rfl

theorem BlkNode.mkPart_erase {mutex base limit : Nat} {made : Option (Blkdev World) × BlkNode World}
    (whole : node.dev.flags &&& bfPart = 0) (returned : node.mkPart mutex base limit = .ok made) :
    Bwuhos.blkdevMkPart node.erase base limit = .ok (made.1.map Blkdev.toBlkdev, made.2.erase) := by
  have count : (node.erase.children.getD []).length = (node.children.getD []).length := by
    rw [erase_children, List.length_map]
  have erased : ¬node.erase.dev.flags &&& bfPart ≠ 0 := not_not.mpr whole
  rw [Bwuhos.blkdevMkPart, if_neg erased, count]
  unfold mkPart at returned
  split at returned
  · next full =>
      cases returned
      exact if_pos full
  · next room =>
      rw [if_neg room]
      split at returned
      · next beyond =>
          cases returned
          exact if_pos beyond
      · next fits =>
          have erasedFits : ¬u64 (base + limit) > node.erase.dev.nblk := fits
          rw [if_neg erasedFits]
          split at returned
          · cases returned
          · next children present =>
              cases returned
              simp only [erase, present, Option.map_some, List.map_append, List.map_cons, List.map_nil]
              rfl

theorem blkdevMkPart_erase {base limit : Nat} {made : Option (Blkdev World) × BlkNode World}
    (returned : blkdevMkPart node base limit held world = .returned made last final) :
    world = final ∧ Bwuhos.blkdevMkPart node.erase base limit = .ok (made.1.map Blkdev.toBlkdev, made.2.erase) := by
  unfold blkdevMkPart at returned
  split at returned
  · next part =>
      obtain ⟨rfl, rfl⟩ := pure_returned returned
      exact ⟨rfl, if_pos part⟩
  · next whole =>
      cases chosen : node.ownMutex with
      | none =>
          rw [chosen] at returned
          cases returned
      | some mutex =>
          rw [chosen] at returned
          have stepped := holding_returned returned
          cases inner : node.mkPart mutex base limit with
          | error stop =>
              rw [inner] at stepped
              cases stepped
          | ok result =>
              rw [inner] at stepped
              cases stepped
              exact ⟨rfl, BlkNode.mkPart_erase (not_not.mp whole) inner⟩

theorem mbrPartition_erase {ents : List Nat}
    (returned : mbrPartition mbr ents node held world = .returned after last final) :
    world = final ∧ Bwuhos.mbrPartition mbr ents node.erase = .ok after.erase := by
  induction ents generalizing node held world with
  | nil =>
      obtain ⟨rfl, rfl⟩ := pure_returned returned
      exact ⟨rfl, rfl⟩
  | cons ent rest ih =>
      rw [mbrPartition] at returned
      rw [Bwuhos.mbrPartition]
      split at returned
      · next untyped =>
          rw [if_pos untyped]
          exact ih returned
      · next typed =>
          rw [if_neg typed]
          obtain ⟨made, between, middle, first, remaining⟩ := bind_returned returned
          obtain ⟨rfl, made⟩ := blkdevMkPart_erase first
          rw [made]
          exact ih remaining

theorem readMbr_erase {read : Nat × List UInt8}
    (returned : readMbr platform node held world = .returned read last final) :
    readBootSector platform node.erase.dev world = .ok (read.1, read.2, final) := by
  unfold readMbr at returned
  cases chosen : node.syncMutex with
  | none =>
      rw [chosen] at returned
      cases returned
  | some mutex =>
      rw [chosen] at returned
      have stepped := holding_returned returned
      cases boot : readBootSector platform node.dev.toBlkdev world with
      | error stop =>
          rw [boot] at stepped
          cases stepped
      | ok result =>
          rw [boot] at stepped
          cases stepped
          exact boot

theorem mbrFindOn_erase (returned : mbrFindOn platform node held world = .returned after last final) :
    Bwuhos.mbrFindOn platform node.erase world = .ok (after.erase, final) := by
  unfold mbrFindOn at returned
  unfold Bwuhos.mbrFindOn
  split at returned
  · next other =>
      obtain ⟨rfl, rfl⟩ := pure_returned returned
      exact if_pos other
  · next disk =>
      refine (if_neg disk).trans ?_
      split at returned
      · next unsupported =>
          obtain ⟨rfl, rfl⟩ := pure_returned returned
          exact if_pos unsupported
      · next supported =>
          refine (if_neg supported).trans ?_
          obtain ⟨read, between, middle, first, remaining⟩ := bind_returned returned
          rw [readMbr_erase first]
          simp only [bind, Except.bind]
          split at remaining
          · next failed =>
              obtain ⟨rfl, rfl⟩ := pure_returned remaining
              exact if_pos failed
          · next succeeded =>
              rw [if_neg succeeded]
              split at remaining
              · next unsigned =>
                  obtain ⟨rfl, rfl⟩ := pure_returned remaining
                  exact if_pos unsigned
              · next signed =>
                  obtain ⟨rfl, parted⟩ := mbrPartition_erase remaining
                  rw [if_neg signed, parted]
                  rfl

/-- Where `mbr_find` returns, it does to the devices what the model without mutexes says. -/
theorem mbrFind_erase {disks blkdevs : List (BlkNode World)}
    (returned : mbrFind platform disks held world = .returned blkdevs last final) :
    Bwuhos.mbrFind platform (disks.map BlkNode.erase) world = .ok (blkdevs.map BlkNode.erase, final) := by
  induction disks generalizing held world blkdevs last with
  | nil =>
      obtain ⟨rfl, rfl⟩ := pure_returned returned
      rfl
  | cons node rest ih =>
      obtain ⟨after, between, middle, first, remaining⟩ := bind_returned returned
      obtain ⟨others, later, end_, found, finished⟩ := bind_returned remaining
      obtain ⟨rfl, rfl⟩ := pure_returned finished
      rw [List.map_cons, Bwuhos.mbrFind, mbrFindOn_erase first, List.map_cons]
      simp only [bind, Except.bind, ih found]
      rfl

/-- The entry has a type, and its partition ends inside the disk. -/
def BlkNode.EntFits (node : BlkNode World) (mbr : List UInt8) (ent : Nat) : Prop :=
  mbrEntType mbr ent ≠ 0 ∧ mbrEntStartLba mbr ent + mbrEntNsector mbr ent ≤ node.dev.nblk

instance (node : BlkNode World) (mbr : List UInt8) : DecidablePred (node.EntFits mbr) :=
  fun _ => inferInstanceAs (Decidable (_ ∧ _))

/-- The partitions for these entries of the table, in their order. -/
def BlkNode.entParts (node : BlkNode World) (mbr : List UInt8) (ents : List Nat) : List (Blkdev World) :=
  (ents.filter fun ent => node.EntFits mbr ent).map fun ent =>
    { node.dev with
      partBase := mbrEntStartLba mbr ent
      nblk := mbrEntNsector mbr ent
      flags := node.dev.flags ||| bfPart
      parentMutex := node.ownMutex }

/-- The partitions that the first sector of a disk describes. -/
def BlkNode.parts (node : BlkNode World) (sector : List UInt8) : List (Blkdev World) :=
  if node.dev.blkSize = 512 ∧ node.dev.nblk ≠ 0 ∧ mbrSig sector = 0xaa55 then node.entParts sector (List.range 4)
  else []

def BlkNode.withParts (node : BlkNode World) (parts : List (Blkdev World)) : BlkNode World :=
  { node with children := node.children.map (· ++ parts) }

/-- A registered disk without children, with its first sector.  It is no partition, and has
a mutex to take.  Its array of children was allocated, unless none will be put there. -/
structure RegisteredDisk (node : BlkNode World) (sector : List UInt8) : Prop where
  devType : node.dev.devType = .diskDrive
  whole : node.dev.flags &&& bfPart = 0
  synced : node.ownMutex ≠ none
  unparted : node.children.getD [] = []
  allocated : node.children = none → node.parts sector = []
  sized : sector.length = 512
  delivers : node.dev.blkSize = 512 → node.dev.nblk ≠ 0 → ∀ world, (node.dev.rd 0 1 world).1.data = sector

theorem BlkNode.withParts_nil (node : BlkNode World) : node.withParts [] = node := by
  obtain ⟨place, dev, children⟩ := node
  cases children <;> simp [withParts]

theorem BlkNode.withParts_append (node : BlkNode World) (first rest : List (Blkdev World)) :
    (node.withParts first).withParts rest = node.withParts (first ++ rest) := by
  obtain ⟨place, dev, children⟩ := node
  cases children <;> simp [withParts]

theorem BlkNode.withParts_children (node : BlkNode World) (parts : List (Blkdev World)) :
    (node.withParts parts).children = node.children.map (· ++ parts) := rfl

theorem BlkNode.withParts_length (node : BlkNode World) (parts : List (Blkdev World)) :
    ((node.withParts parts).children.getD []).length ≤ (node.children.getD []).length + parts.length := by
  rw [withParts_children]
  cases node.children with
  | none => exact Nat.zero_le _
  | some children =>
      simp only [Option.map_some, Option.getD_some, List.length_append]
      omega

theorem BlkNode.entParts_cons (node : BlkNode World) (ent : Nat) (rest : List Nat) :
    node.entParts mbr (ent :: rest) = node.entParts mbr [ent] ++ node.entParts mbr rest := by
  rw [entParts, entParts, entParts, ← List.map_append, ← List.filter_append]
  rfl

theorem BlkNode.entParts_skip {ent : Nat} (refused : ¬node.EntFits mbr ent) : node.entParts mbr [ent] = [] := by
  rw [entParts, List.filter_cons_of_neg (by simpa using refused)]
  rfl

theorem BlkNode.entParts_length (node : BlkNode World) (mbr : List UInt8) (ents : List Nat) :
    (node.entParts mbr ents).length ≤ ents.length := by
  rw [entParts, List.length_map]
  exact List.length_filter_le _ _

/-- One entry of a type gives its partition, or nothing. -/
theorem blkdevMkPart_ent {mutex ent : Nat} (whole : node.dev.flags &&& bfPart = 0) (own : node.ownMutex = some mutex)
    (free : held mutex = false) (typed : mbrEntType mbr ent ≠ 0)
    (room : (node.children.getD []).length < blkdevMaxParts)
    (allocated : node.children = none → node.entParts mbr [ent] = []) :
    ∃ made, blkdevMkPart node (mbrEntStartLba mbr ent) (mbrEntNsector mbr ent) held world =
      .returned (made, node.withParts (node.entParts mbr [ent])) held world := by
  have start : mbrEntStartLba mbr ent < 2 ^ 32 := le32_lt _ _
  have count : mbrEntNsector mbr ent < 2 ^ 32 := le32_lt _ _
  have sum : u64 (mbrEntStartLba mbr ent + mbrEntNsector mbr ent) = mbrEntStartLba mbr ent + mbrEntNsector mbr ent :=
    u64_of_lt (by omega)
  have inner : ∃ made, node.mkPart mutex (mbrEntStartLba mbr ent) (mbrEntNsector mbr ent) =
      .ok (made, node.withParts (node.entParts mbr [ent])) := by
    rw [BlkNode.mkPart, if_neg (Nat.not_le.mpr room), sum]
    by_cases fits : node.EntFits mbr ent
    · rw [if_neg (Nat.not_lt.mpr fits.2)]
      have single : node.entParts mbr [ent] =
          [node.part mutex (mbrEntStartLba mbr ent) (mbrEntNsector mbr ent)] := by
        rw [BlkNode.entParts, List.filter_cons_of_pos (by simpa using fits), own]
        rfl
      cases present : node.children with
      | none => cases single.symm.trans (allocated present)
      | some children =>
          rw [single]
          refine ⟨_, congrArg Except.ok (Prod.ext rfl ?_)⟩
          simp only [BlkNode.withParts, present, Option.map_some]
    · have beyond : node.dev.nblk < mbrEntStartLba mbr ent + mbrEntNsector mbr ent :=
        Nat.lt_of_not_le fun inside => fits ⟨typed, inside⟩
      rw [if_pos beyond, BlkNode.entParts_skip fits, BlkNode.withParts_nil]
      exact ⟨none, rfl⟩
  obtain ⟨made, inner⟩ := inner
  refine ⟨made, ?_⟩
  rw [blkdevMkPart, if_neg (not_not.mpr whole), own]
  refine holding_act free ?_
  rw [inner]
  rfl

/-- The loop over the entries adds a partition for each that fits, and passes over the others. -/
theorem mbrPartition_spec {mutex : Nat} {ents : List Nat} (whole : node.dev.flags &&& bfPart = 0)
    (own : node.ownMutex = some mutex) (free : held mutex = false)
    (room : (node.children.getD []).length + ents.length ≤ blkdevMaxParts)
    (allocated : node.children = none → node.entParts mbr ents = []) :
    mbrPartition mbr ents node held world =
      .returned (node.withParts (node.entParts mbr ents)) held world := by
  induction ents generalizing node with
  | nil =>
      rw [show node.entParts mbr [] = [] from rfl, BlkNode.withParts_nil]
      rfl
  | cons ent rest ih =>
      rw [List.length_cons] at room
      rw [BlkNode.entParts_cons] at allocated ⊢
      have allocatedRest : node.children = none → node.entParts mbr rest = [] := fun null =>
        (List.append_eq_nil_iff.mp (allocated null)).2
      rw [mbrPartition]
      by_cases untyped : mbrEntType mbr ent = 0
      · rw [if_pos untyped, BlkNode.entParts_skip fun fits => fits.1 untyped, List.nil_append]
        exact ih whole own (by omega) allocatedRest
      · rw [if_neg untyped]
        obtain ⟨made, first⟩ := @blkdevMkPart_ent World node held world mbr mutex ent whole own free untyped (by omega)
          fun null => (List.append_eq_nil_iff.mp (allocated null)).1
        have one := node.entParts_length mbr [ent]
        have fits : ((node.withParts (node.entParts mbr [ent])).children.getD []).length + rest.length ≤
            blkdevMaxParts := by
          have grown := node.withParts_length (node.entParts mbr [ent])
          rw [List.length_singleton] at one
          omega
        have remaining := @ih (node.withParts (node.entParts mbr [ent])) whole own fits fun null =>
          allocatedRest (Option.map_eq_none_iff.mp null)
        rw [← BlkNode.withParts_append]
        change andThen (blkdevMkPart node _ _) (fun made => mbrPartition mbr rest made.2) held world = _
        rw [andThen, first]
        exact remaining

theorem readMbr_returns {sector : List UInt8} {mutex : Nat} (disk : RegisteredDisk node sector)
    (own : node.ownMutex = some mutex) (free : held mutex = false) (supported : node.dev.blkSize = 512)
    (world : World) : ∃ final, readMbr platform node held world =
      .returned (if node.dev.nblk = 0 then 1 else 0,
        if node.dev.nblk = 0 then (platform.uninit 512 world).val else sector) held final := by
  have sync : node.syncMutex = some mutex := by
    rw [BlkNode.syncMutex, disk.whole]
    rw [BlkNode.ownMutex] at own
    simpa using own
  have boot : ∃ final, readBootSector platform node.dev.toBlkdev world =
      .ok (if node.dev.nblk = 0 then 1 else 0,
        if node.dev.nblk = 0 then (platform.uninit 512 world).val else sector, final) := by
    unfold readBootSector blkdevRd
    rw [u64_of_lt (by decide)]
    by_cases empty : node.dev.nblk = 0
    · rw [if_pos (by omega), if_pos empty, if_pos empty]
      exact ⟨world, rfl⟩
    · have here : node.dev.toBlkdev.addr 0 = 0 := if_pos disk.whole
      have data := disk.delivers supported empty world
      have full : sector.length = (platform.uninit 512 world).val.length := by
        rw [disk.sized, (platform.uninit 512 world).property]
      rw [if_neg (by omega), if_neg empty, if_neg empty, here]
      simp only [BlkRd.data, Option.map_some, Option.getD_some, data, Buffer.write_full full]
      exact ⟨_, rfl⟩
  obtain ⟨final, boot⟩ := boot
  refine ⟨final, ?_⟩
  rw [readMbr, sync]
  refine holding_act free ?_
  rw [boot]
  rfl

theorem mbrVerify_null : mbrVerify mbr none = 0 ↔ mbrSig mbr = 0xaa55 := by
  unfold mbrVerify
  split
  · next unsigned => exact iff_of_false Nat.one_ne_zero unsigned
  · next signed => exact iff_of_true rfl (not_not.mp signed)

theorem mbrFindOn_spec {sector : List UInt8} (disk : RegisteredDisk node sector)
    (free : ∀ mutex, node.ownMutex = some mutex → held mutex = false) (world : World) :
    ∃ final, mbrFindOn platform node held world =
      .returned (node.withParts (node.parts sector)) held final := by
  obtain ⟨mutex, own⟩ := Option.ne_none_iff_exists'.mp disk.synced
  have kept : ∀ final, node.parts sector = [] → (pure node : Locked Nat Stop World (BlkNode World)) held final =
      .returned (node.withParts (node.parts sector)) held final := by
    intro final none
    rw [none, BlkNode.withParts_nil]
    rfl
  rw [mbrFindOn, if_neg (not_not.mpr disk.devType)]
  by_cases supported : node.dev.blkSize = 512
  · obtain ⟨final, read⟩ := @readMbr_returns World platform node held sector mutex disk own (free mutex own)
      supported world
    rw [if_neg (not_not.mpr supported)]
    refine ⟨final, ?_⟩
    change andThen (readMbr platform node) (fun read => if read.1 ≠ 0 then pure node
      else if mbrVerify read.2 none ≠ 0 then pure node else mbrPartition read.2 (List.range 4) node) held world = _
    rw [andThen, read]
    by_cases empty : node.dev.nblk = 0
    · simp only [if_pos empty, ne_eq, one_ne_zero, not_false_eq_true, if_true]
      exact kept final (if_neg fun valid => valid.2.1 empty)
    · simp only [if_neg empty, ne_eq, not_true_eq_false, if_false]
      by_cases signed : mbrSig sector = 0xaa55
      · have described : node.parts sector = node.entParts sector (List.range 4) :=
          if_pos ⟨supported, empty, signed⟩
        rw [if_neg (not_not.mpr (mbrVerify_null.mpr signed)), described]
        refine mbrPartition_spec disk.whole own (free mutex own) ?_ fun null => described ▸ disk.allocated null
        rw [disk.unparted, List.length_nil, List.length_range]
        decide
      · rw [if_pos fun verified => signed (mbrVerify_null.mp verified)]
        exact kept final (if_neg fun valid => signed valid.2.2)
  · rw [if_pos supported]
    exact ⟨world, kept world (if_neg fun valid => supported valid.1)⟩

/-- The new partitions of a registered disk are all that it has. -/
theorem RegisteredDisk.children_withParts {sector : List UInt8} (disk : RegisteredDisk node sector) :
    (node.withParts (node.parts sector)).children.getD [] = node.parts sector := by
  have unparted := disk.unparted
  rw [BlkNode.withParts_children]
  cases present : node.children with
  | none => exact (disk.allocated present).symm
  | some children =>
      rw [present] at unparted
      cases unparted
      rfl

/-- `mbr_find` gives each disk with blocks of 512 bytes, a block and a valid signature the
partitions for the entries of its table that have a type and end inside the disk, in the
order of the table.  These lock the mutex of the disk.  Nothing else changes. -/
theorem mbr_find_partitions (platform : Platform World) (disks : List (BlkNode World)) (sectors : Nat → List UInt8)
    (registered : ∀ index node, disks[index]? = some node → RegisteredDisk node (sectors index))
    (held : Nat → Bool) (free : ∀ node ∈ disks, ∀ mutex, node.ownMutex = some mutex → held mutex = false)
    (world : World) :
    ∃ (blkdevs : List (BlkNode World)) (final : World),
      mbrFind platform disks held world = .returned blkdevs held final ∧
      blkdevs.length = disks.length ∧
      ∀ index (node : BlkNode World), disks[index]? = some node → ∃ after : BlkNode World,
        blkdevs[index]? = some after ∧
        after.children.getD [] = node.parts (sectors index) ∧ after = { node with children := after.children } := by
  induction disks generalizing sectors world with
  | nil =>
      refine ⟨[], world, rfl, rfl, fun index node there => ?_⟩
      cases there
  | cons node rest ih =>
      obtain ⟨middle, first⟩ := @mbrFindOn_spec World platform node held (sectors 0) (registered 0 node rfl)
        (free node List.mem_cons_self) world
      obtain ⟨others, final, found, length, described⟩ := ih (fun index => sectors (index + 1))
        (fun index other there => registered (index + 1) other there)
        (fun other member => free other (List.mem_cons_of_mem _ member)) middle
      refine ⟨node.withParts (node.parts (sectors 0)) :: others, final, ?_, congrArg Nat.succ length, ?_⟩
      · change andThen (mbrFindOn platform node) (fun node => andThen (mbrFind platform rest) fun rest =>
          ret (node :: rest)) held world = _
        simp only [andThen, first, found, ret]
      · intro index other there
        cases index with
        | zero =>
            cases there
            exact ⟨_, rfl, (registered 0 node rfl).children_withParts, rfl⟩
        | succ index => exact described index other there

end

/-- A table whose first entry is free, whose second and fourth describe partitions and
whose third describes one that is too long. -/
def tableSector : List UInt8 :=
  List.replicate 446 0 ++ List.replicate 16 0 ++
    [0, 0, 0, 0, 0x0e, 0, 0, 0, 1, 0, 0, 0, 3, 0, 0, 0] ++ [0, 0, 0, 0, 0x0e, 0, 0, 0, 4, 0, 0, 0, 9, 0, 0, 0] ++
      [0, 0, 0, 0, 0x0e, 0, 0, 0, 4, 0, 0, 0, 4, 0, 0, 0] ++ [0x55, 0xaa]

def tableDisk : BlkNode Unit where
  place := 0x1000
  dev := { memoryDisk (fun _ => tableSector) 8 with parentMutex := none }
  children := some []

theorem tableDisk_registered : RegisteredDisk tableDisk tableSector where
  devType := rfl
  whole := rfl
  synced := by decide
  unparted := rfl
  allocated := fun null => by cases null
  sized := by decide +kernel
  delivers := fun _ _ _ => List.append_nil _

theorem mbr_find_partitions_two : ∃ after final,
    mbrFind .zeroed [tableDisk] (fun _ => false) () = .returned [after] (fun _ => false) final ∧
      (after.children.getD []).map (fun part => (part.partBase, part.nblk, part.flags, part.parentMutex)) =
        [(1, 3, bfPart, some 0x1000), (4, 4, bfPart, some 0x1000)] := by
  obtain ⟨blkdevs, final, found, length, described⟩ := mbr_find_partitions .zeroed [tableDisk] (fun _ => tableSector)
    (fun index node there => by
      cases index with
      | zero =>
          cases there
          exact tableDisk_registered
      | succ index => cases there)
    (fun _ => false) (fun _ _ _ _ => rfl) ()
  obtain ⟨after, there, parts, _⟩ := described 0 tableDisk rfl
  obtain ⟨only, rfl⟩ := List.length_eq_one_iff.mp length
  cases there
  refine ⟨_, final, found, ?_⟩
  rw [parts]
  decide +kernel

end Bwuhos.Synced
