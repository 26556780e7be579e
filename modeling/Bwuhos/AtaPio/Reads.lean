import Bwuhos.AtaPio

namespace Bwuhos

open Bwuhos.Data

/-! # What a read of several sectors leaves in memory

The device answers the command with the requested sectors, in order and without an error.
`ata_pio_dev_rd` does not advance `dst` from one sector to the next, and reads no sector
at all where the count is the one that wraps to 0.
-/

section

variable {World : Type} (bus : AtaBus World) (dev : AtaPioDev)

/-- The device is busy for some polls, then ready. -/
inductive Ready : World → World → Prop
  | ready {world after : World} {status : Nat} :
      portRd bus.ports (dev.busIoPort + irStatus) .ps8 world = (status, after) →
      status &&& sBsy = 0 → status &&& sErr = 0 → Ready world after
  | busy {world next after : World} {status : Nat} :
      portRd bus.ports (dev.busIoPort + irStatus) .ps8 world = (status, next) →
      status &&& sBsy ≠ 0 → status &&& sErr = 0 → Ready next after → Ready world after

inductive DeliversWords : List UInt16 → World → World → Prop
  | nil (world : World) : DeliversWords [] world world
  | cons {word : UInt16} {words : List UInt16} {world next after : World} :
      portRd bus.ports (dev.busIoPort + irData) .ps16 world = (word.toNat, next) →
      DeliversWords words next after → DeliversWords (word :: words) world after

inductive DeliversSectors : List (List UInt16) → World → Prop
  | nil (world : World) : DeliversSectors [] world
  | cons {words : List UInt16} {sectors : List (List UInt16)} {world ready next : World} :
      Ready bus dev world ready → DeliversWords bus dev words ready next → DeliversSectors sectors next →
      DeliversSectors (words :: sectors) world

def sectorBytes (words : List UInt16) : List UInt8 :=
  words.flatMap fun word : UInt16 => [word.toUInt8, (word >>> 8).toUInt8]

/-- Sector `src + index` of the disk lies at its place in a buffer that begins with sector `src`. -/
def InPlace (disk : Nat → List UInt16) (src : Nat) (bytes : List UInt8) (index : Nat) : Prop :=
  (bytes.drop (index * dev.sectorSize)).take dev.sectorSize = sectorBytes (disk (src + index))

instance (disk : Nat → List UInt16) (src : Nat) (bytes : List UInt8) : DecidablePred (InPlace dev disk src bytes) :=
  fun _ => inferInstanceAs (Decidable (_ = _))

/-- A call that returns 0 leaves each of the sectors at its place in `dst`. -/
def SectorsPlaced (disk : Nat → List UInt16) (bytes : List UInt8) (src nsector : Nat) (s : AtaState World) : Prop :=
  ∀ fuel after, ataPioDevRd bus dev fuel (some bytes) src nsector s = .ok after → after.ret = 0 →
    ∃ filled, after.dst = some filled ∧ ∀ index, index < nsector → InPlace dev disk src filled index

/-- What has to be in `dst` before the call: the sectors that the transfer does not put at
their places, which are all but the first; and the first holds what the last does, or,
where the count wraps to 0, is already in place itself. -/
def AlreadyPlaced (disk : Nat → List UInt16) (bytes : List UInt8) (src nsector : Nat) : Prop :=
  (∀ index, 0 < index → index < nsector → InPlace dev disk src bytes index) ∧
    if nsector = maxSectors dev then InPlace dev disk src bytes 0 else disk src = disk (src + nsector - 1)

end

variable {World : Type} {bus : AtaBus World} {dev : AtaPioDev} {words : List UInt16} {sectors : List (List UInt16)}
  {world after : World} {bytes : List UInt8} {index : Nat}

theorem sectorBytes_cons (word : UInt16) (words : List UInt16) :
    sectorBytes (word :: words) = [word.toUInt8, (word >>> 8).toUInt8] ++ sectorBytes words :=
  List.flatMap_cons

@[simp] theorem sectorBytes_length (words : List UInt16) : (sectorBytes words).length = 2 * words.length := by
  induction words with
  | nil => rfl
  | cons word rest ih =>
      rw [sectorBytes_cons, List.length_append, ih]
      simp only [List.length_cons, List.length_nil]
      omega

theorem UInt16.bytes_injective {left right : UInt16} (low : left.toUInt8 = right.toUInt8)
    (high : (left >>> 8).toUInt8 = (right >>> 8).toUInt8) : left = right := by
  have lows := congrArg UInt8.toNat low
  have highs := congrArg UInt8.toNat high
  have eight : (8 : UInt16).toNat % 16 = 8 := rfl
  simp only [UInt16.toNat_toUInt8, UInt16.toNat_shiftRight, Nat.shiftRight_eq_div_pow, eight] at lows highs
  have leftBound := left.toNat_lt
  have rightBound := right.toNat_lt
  refine UInt16.toNat_inj.mp ?_
  omega

theorem sectorBytes_injective {left right : List UInt16} (same : sectorBytes left = sectorBytes right) :
    left = right := by
  induction left generalizing right with
  | nil =>
      have length := congrArg List.length same
      rw [sectorBytes_length, sectorBytes_length] at length
      exact (List.length_eq_zero_iff.mp (by simpa using length.symm)).symm
  | cons word rest ih =>
      cases right with
      | nil =>
          have length := congrArg List.length same
          simp at length
      | cons other others =>
          simp only [sectorBytes_cons, List.cons_append, List.nil_append, List.cons.injEq] at same
          rw [UInt16.bytes_injective same.1 same.2.1, ih same.2.2]

theorem pollStatus_ready (ready : Ready bus dev world after) :
    ∃ status, status &&& sErr = 0 ∧ Settles .outOfFuel (fun fuel => pollStatus bus dev fuel world)
      (status, after) := by
  induction ready with
  | @ready world after status read notBusy noError =>
      refine ⟨status, noError, settles_loop_done ?_⟩
      simp only [read]
      rw [if_neg fun busy => busy.1 notBusy]
  | @busy world next after status read busy noError _ ih =>
      obtain ⟨last, accepted, settles⟩ := ih
      refine ⟨last, accepted, settles_loop_next ?_ settles⟩
      simp only [read]
      rw [if_pos ⟨busy, noError⟩]

theorem readWords_delivers (index : Nat) (bytes : List UInt8) (delivers : DeliversWords bus dev words world after)
    (room : 2 * (index + words.length) ≤ bytes.length) :
    readWords bus dev words.length index (some bytes) world =
      .ok (some (bytes.take (2 * index) ++ sectorBytes words ++ bytes.drop (2 * (index + words.length))), after) := by
  induction delivers generalizing index bytes with
  | nil world =>
      have whole : bytes.take (2 * index) ++ [] ++ bytes.drop (2 * index) = bytes := by
        rw [List.append_nil, List.take_append_drop]
      exact congrArg (fun bytes => Except.ok (some bytes, world)) whole.symm
  | @cons word rest world next after read _ ih =>
      rw [List.length_cons] at room
      let stored := bytes.take (2 * index) ++ [word.toUInt8, (word >>> 8).toUInt8]
      have length : stored.length = 2 * (index + 1) := by
        simp only [stored, List.length_append, List.length_take_of_le (show 2 * index ≤ bytes.length by omega)]
        rfl
      have store : Buffer.store16 (some bytes) index (.ofNat word.toNat) =
          .ok (some (stored ++ bytes.drop (2 * index + 2))) := by
        rw [Buffer.store16, if_pos (by omega), UInt16.ofNat_toNat]
      have behind : (stored ++ bytes.drop (2 * index + 2)).drop (2 * (index + 1 + rest.length)) =
          bytes.drop (2 * (index + (rest.length + 1))) := by
        rw [List.drop_append, List.drop_eq_nil_of_le (by omega), List.nil_append, List.drop_drop, length]
        exact congrArg bytes.drop (by omega)
      simp only [List.length_cons, readWords, read, store, bind, Except.bind]
      rw [ih (index + 1) (stored ++ bytes.drop (2 * index + 2))
        (by rw [List.length_append, length, List.length_drop]; omega),
        List.take_left' length, behind, sectorBytes_cons, ← List.append_assoc (bytes.take (2 * index))]

/-- The sectors all go to the start of the buffer, so that the last one stays there. -/
theorem readSectors_delivers {s : AtaState World} (delivers : DeliversSectors bus dev sectors s.world)
    (whole : ∀ words ∈ sectors, 2 * words.length = dev.sectorSize) (room : dev.sectorSize ≤ bytes.length) :
    ∃ last, Settles .outOfFuel (fun fuel => readSectors bus dev fuel sectors.length (some bytes) s)
      { ret := 0, state := last
        dst := some ((sectors.getLast?.map sectorBytes).getD (bytes.take dev.sectorSize) ++
          bytes.drop dev.sectorSize) } := by
  induction sectors generalizing bytes s with
  | nil =>
      refine ⟨s, ?_⟩
      simp only [List.getLast?_nil, Option.map_none, Option.getD_none, List.take_append_drop]
      exact Settles.now
  | cons words rest ih =>
      cases delivers with
      | @cons _ _ world ready next polled transferred remaining =>
          have size := whole words List.mem_cons_self
          have half : dev.sectorSize / 2 = words.length := by omega
          have length : (sectorBytes words).length = dev.sectorSize := (sectorBytes_length words).trans size
          obtain ⟨status, noError, settles⟩ := pollStatus_ready polled
          have fits : dev.sectorSize ≤ (sectorBytes words ++ bytes.drop dev.sectorSize).length := by
            rw [List.length_append, length]
            omega
          obtain ⟨last, restSettles⟩ := ih (s := { s with world := next }) remaining
            (fun other member => whole other (List.mem_cons_of_mem _ member)) fits
          rw [List.take_left' length, List.drop_left' length, Option.getD_map] at restSettles
          refine ⟨last, settles.bind ?_⟩
          have transfer := readWords_delivers 0 bytes transferred (by omega)
          rw [Nat.zero_add, Nat.mul_zero, List.take_zero, List.nil_append, size] at transfer
          simp only [noError, half, transfer, bind, Except.bind, pure, Except.pure, ne_eq, not_true_eq_false, if_false,
            List.getLast?_cons, Option.map_some, Option.getD_some]
          exact restSettles

theorem maxSectors_pos (dev : AtaPioDev) : 0 < maxSectors dev := by
  rw [maxSectors]
  split <;> decide

theorem inPlace_first {disk : Nat → List UInt16} {src : Nat} {first rest : List UInt8}
    (length : first.length = dev.sectorSize) :
    InPlace dev disk src (first ++ rest) 0 ↔ first = sectorBytes (disk src) := by
  rw [InPlace, Nat.zero_mul, List.drop_zero, List.take_left' length, Nat.add_zero]

theorem inPlace_later {disk : Nat → List UInt16} {src : Nat} {first : List UInt8}
    (length : first.length = dev.sectorSize) (later : 0 < index) :
    InPlace dev disk src (first ++ bytes.drop dev.sectorSize) index ↔ InPlace dev disk src bytes index := by
  have reach : dev.sectorSize ≤ index * dev.sectorSize := Nat.le_mul_of_pos_left _ later
  have same : (first ++ bytes.drop dev.sectorSize).drop (index * dev.sectorSize) =
      bytes.drop (index * dev.sectorSize) := by
    rw [List.drop_append, List.drop_eq_nil_of_le (by omega), List.nil_append, List.drop_drop, length,
      Nat.add_sub_cancel' reach]
  rw [InPlace, InPlace, same]

section

variable {disk : Nat → List UInt16} {src nsector : Nat} {s : AtaState World}

/-- A full count wraps to 0, and then no sector is read. -/
theorem ataPioDevRd_wrapped (most : nsector = maxSectors dev) :
    Settles .outOfFuel (fun fuel => ataPioDevRd bus dev fuel (some bytes) src nsector s)
      { ret := 0, dst := some bytes, state := issueRead bus dev src 0 s } := by
  have positive : nsector ≠ 0 := Nat.ne_of_gt (most ▸ maxSectors_pos dev)
  have wrapped : wrapSectors dev nsector = 0 := if_pos most
  simp only [ataPioDevRd, if_neg positive, if_neg (Nat.not_lt.mpr (Nat.le_of_eq most)), wrapped, readSectors]
  exact Settles.now

theorem ataPioDevRd_fewer (whole : ∀ sector, 2 * (disk sector).length = dev.sectorSize) (positive : 0 < nsector)
    (fewer : nsector < maxSectors dev) (room : dev.sectorSize ≤ bytes.length)
    (delivers : DeliversSectors bus dev ((List.range' src nsector).map disk) (issueRead bus dev src nsector s).world) :
    ∃ last, Settles .outOfFuel (fun fuel => ataPioDevRd bus dev fuel (some bytes) src nsector s)
      { ret := 0, state := last
        dst := some (sectorBytes (disk (src + nsector - 1)) ++ bytes.drop dev.sectorSize) } := by
  have nonempty : nsector ≠ 0 := Nat.ne_of_gt positive
  have kept : wrapSectors dev nsector = nsector := if_neg (Nat.ne_of_lt fewer)
  simp only [ataPioDevRd, if_neg nonempty, if_neg (Nat.not_lt.mpr (Nat.le_of_lt fewer)), kept]
  have sized : ∀ words ∈ (List.range' src nsector).map disk, 2 * words.length = dev.sectorSize := by
    intro words member
    obtain ⟨sector, _, rfl⟩ := List.mem_map.mp member
    exact whole sector
  have settles := readSectors_delivers delivers sized room
  rw [List.length_map, List.length_range', List.getLast?_map, List.getLast?_range', if_neg nonempty] at settles
  exact settles

theorem sectorsPlaced_iff {filled : List UInt8} {last : AtaState World}
    (settles : Settles .outOfFuel (fun fuel => ataPioDevRd bus dev fuel (some bytes) src nsector s)
      { ret := 0, dst := some filled, state := last }) :
    SectorsPlaced bus dev disk bytes src nsector s ↔ ∀ index, index < nsector → InPlace dev disk src filled index := by
  constructor
  · intro placed
    obtain ⟨fuel, returned⟩ := settles.returns
    obtain ⟨found, same, all⟩ := placed fuel _ returned rfl
    cases same
    exact all
  · intro all fuel after returned _
    exact ⟨filled, congrArg AtaRd.dst (settles.unique returned), all⟩

/-- Up to `max_sectors` sectors arrive where they belong exactly when nothing but the first
place had to be filled, and with what the last sector holds; one sector always does. -/
theorem ataPioDevRd_places_sectors_iff (bus : AtaBus World) (dev : AtaPioDev) (disk : Nat → List UInt16)
    (bytes : List UInt8) (src nsector : Nat) (s : AtaState World)
    (whole : ∀ sector, 2 * (disk sector).length = dev.sectorSize)
    (positive : 0 < nsector) (bounded : nsector ≤ maxSectors dev) (room : nsector * dev.sectorSize ≤ bytes.length)
    (delivers : DeliversSectors bus dev ((List.range' src nsector).map disk)
      (issueRead bus dev src (wrapSectors dev nsector) s).world) :
    (∃ fuel after, ataPioDevRd bus dev fuel (some bytes) src nsector s = .ok after ∧ after.ret = 0) ∧
      (SectorsPlaced bus dev disk bytes src nsector s ↔ AlreadyPlaced dev disk bytes src nsector) := by
  by_cases most : nsector = maxSectors dev
  · obtain ⟨fuel, returned⟩ := (ataPioDevRd_wrapped most).returns
    refine ⟨⟨fuel, _, returned, rfl⟩, (sectorsPlaced_iff (ataPioDevRd_wrapped most)).trans ?_⟩
    rw [AlreadyPlaced, if_pos most]
    constructor
    · exact fun all => ⟨fun index _ bound => all index bound, all 0 positive⟩
    · rintro ⟨later, first⟩ index bound
      cases index with
      | zero => exact first
      | succ index => exact later _ (Nat.succ_pos index) bound
  · have kept : wrapSectors dev nsector = nsector := if_neg most
    rw [kept] at delivers
    have reach : dev.sectorSize ≤ bytes.length := Nat.le_trans (Nat.le_mul_of_pos_left _ positive) room
    obtain ⟨last, settles⟩ := ataPioDevRd_fewer whole positive (Nat.lt_of_le_of_ne bounded most) reach delivers
    have length : (sectorBytes (disk (src + nsector - 1))).length = dev.sectorSize :=
      (sectorBytes_length _).trans (whole _)
    obtain ⟨fuel, returned⟩ := settles.returns
    refine ⟨⟨fuel, _, returned, rfl⟩, (sectorsPlaced_iff settles).trans ?_⟩
    rw [AlreadyPlaced, if_neg most]
    constructor
    · intro all
      refine ⟨fun index later bound => (inPlace_later length later).mp (all index bound), ?_⟩
      exact (sectorBytes_injective ((inPlace_first length).mp (all 0 positive))).symm
    · rintro ⟨later, first⟩ index bound
      cases index with
      | zero => exact (inPlace_first length).mpr (congrArg sectorBytes first.symm)
      | succ index => exact (inPlace_later length (Nat.succ_pos index)).mpr (later _ (Nat.succ_pos index) bound)

end

/-! ## A disk of 256 sectors of one word

Each sector holds its own number.
-/

structure WordDisk where
  count : UInt8
  num : UInt8
  queue : List UInt16

def wordDisk (sector : Nat) : List UInt16 := [.ofNat sector]

def wordBus : AtaBus WordDisk where
  ports := {
    portRd8 := fun _ world => (0x40, world)
    portRd16 := fun _ world => (world.queue.headD 0, { world with queue := world.queue.tail })
    portRd32 := fun _ world => (0, world)
    portWr8 := fun p value world =>
      if p = 0x1f2 then { world with count := value }
      else if p = 0x1f3 then { world with num := value }
      else if p = 0x1f7 then
        let count := if world.count = 0 then 256 else world.count.toNat
        { world with queue := (List.range' world.num.toNat count).flatMap wordDisk }
      else world
    portWr16 := fun _ _ world => world
    portWr32 := fun _ _ world => world
  }
  beyond := { ioPort := 0, selDevNum := 0, selData := 0 }

def wordDev : AtaPioDev where
  sectorSize := 2
  nsector := 256
  busIoPort := 0x1f0
  busCtlPort := 0x3f6
  devNum := 0
  support := apdsLba

def wordState : AtaState WordDisk := { busCache := [], world := { count := 0, num := 0, queue := [] } }

theorem ataPioDevRd_places_sectors_iff_oneSector :
    SectorsPlaced wordBus wordDev wordDisk [0, 0] 3 1 wordState :=
  (ataPioDevRd_places_sectors_iff wordBus wordDev wordDisk [0, 0] 3 1 wordState (fun _ => rfl) (by decide) (by decide)
    (by decide) (.cons (.ready rfl rfl rfl) (.cons rfl (.nil _)) (.nil _))).2.mpr
    ⟨fun index later bound => absurd bound (by omega), rfl⟩

/-- Two sectors: the second lands on the first, and nothing is put in its own place. -/
theorem ataPioDevRd_sector_lost :
    DeliversSectors wordBus wordDev [wordDisk 3, wordDisk 4] (issueRead wordBus wordDev 3 2 wordState).world ∧
      (ataPioDevRd wordBus wordDev 1 (some [0, 0, 0, 0]) 3 2 wordState).toOption.map
        (fun after => (after.ret, after.dst)) = some (0, some [4, 0, 0, 0]) ∧
      ¬SectorsPlaced wordBus wordDev wordDisk [0, 0, 0, 0] 3 2 wordState := by
  have lost : (ataPioDevRd wordBus wordDev 1 (some [0, 0, 0, 0]) 3 2 wordState).toOption.map
      (fun after => (after.ret, after.dst)) = some (0, some [4, 0, 0, 0]) := by decide
  refine ⟨.cons (.ready rfl rfl rfl) (.cons rfl (.nil _)) (.cons (.ready rfl rfl rfl) (.cons rfl (.nil _)) (.nil _)),
    lost, fun placed => ?_⟩
  cases returned : ataPioDevRd wordBus wordDev 1 (some [0, 0, 0, 0]) 3 2 wordState with
  | error stop =>
      rw [returned] at lost
      cases lost
  | ok after =>
      rw [returned] at lost
      have both := Prod.mk.inj (Option.some.inj lost)
      obtain ⟨filled, dst, all⟩ := placed 1 after returned both.1
      have bytes : filled = [4, 0, 0, 0] := Option.some.inj (dst.symm.trans both.2)
      have first := all 0 (by decide)
      rw [bytes] at first
      exact absurd first (by decide)

end Bwuhos
