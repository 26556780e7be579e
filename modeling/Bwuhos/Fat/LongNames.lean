import Bwuhos.Fat.Search

namespace Bwuhos

open Bwuhos.Data

/-! # Long names

`fat_get_dirent_info` multiplies the sequence byte of a long-name entry by 13 as it is
stored: with the flag 0x40 of the last segment, and counted from 1.
-/

section Places

variable {name ent : List UInt8}

theorem putChars_unfit {places : List (Nat × UInt8)} (unfit : ∃ place ∈ places, ¬place.1 < name.length) :
    places.foldlM putChar name = .error .outOfBounds := by
  induction places generalizing name with
  | nil =>
      obtain ⟨place, member, _⟩ := unfit
      cases member
  | cons place rest ih =>
      rw [List.foldlM_cons]
      by_cases fits : place.1 < name.length
      · have stored : putChar name place = .ok (name.set place.1 place.2) := if_pos fits
        have later : ∃ other ∈ rest, ¬other.1 < (name.set place.1 place.2).length := by
          obtain ⟨other, member, behind⟩ := unfit
          cases member with
          | head => exact absurd fits behind
          | tail _ member => exact ⟨other, member, by rwa [List.length_set]⟩
        rw [stored]
        exact ih later
      · have stopped : putChar name place = .error .outOfBounds := if_neg fits
        rw [stopped]
        rfl

theorem putName_unfit (length : name.length = 255) (order : ¬lfnOrder ent ≤ 18) :
    (lfnChars ent).foldlM putChar name = .error .outOfBounds := by
  have last : (13 * lfnOrder ent + 11 + 1, ent.getD (28 + 2 * 1) 0) ∈ lfnChars ent := by
    apply List.mem_append_right
    exact List.mem_map.mpr ⟨1, by decide, rfl⟩
  apply putChars_unfit
  exact ⟨_, last, by simp only; omega⟩

/-- The three copies that make up a DOS name, and where in `name` they go. -/
def dosCopies (ent : List UInt8) : List (Nat × List UInt8) :=
  let base := beforeSpace (ent.take 8)
  let ext := beforeSpace ((ent.drop 8).take 3)
  if base ≠ [] ∧ ext ≠ [] then [(0, base), (base.length, [0x2e]), (base.length + 1, ext)]
  else if base ≠ [] then [(0, base)]
  else if ext ≠ [] then [(0, ext)]
  else []

theorem dosName_copies : dosName name ent =
    (dosCopies ent).foldl (fun name copy => overlay name copy.1 copy.2) name := by
  unfold dosName dosCopies
  simp only
  split
  · rfl
  · split
    · rfl
    · split <;> rfl

theorem beforeSpace_length (field : List UInt8) : (beforeSpace field).length ≤ field.length :=
  (List.takeWhile_sublist _).length_le

theorem dosCopies_inside : ∀ copy ∈ dosCopies ent, copy.1 + copy.2.length ≤ 12 := by
  have base : (beforeSpace (ent.take 8)).length ≤ 8 :=
    (beforeSpace_length _).trans (List.length_take_le 8 ent)
  have ext : (beforeSpace ((ent.drop 8).take 3)).length ≤ 3 :=
    (beforeSpace_length _).trans (List.length_take_le 3 (ent.drop 8))
  intro copy member
  simp only [dosCopies] at member
  split at member
  · simp only [List.mem_cons, List.not_mem_nil, or_false] at member
    obtain rfl | rfl | rfl := member <;> simp only [List.length_singleton] <;> omega
  · split at member
    · obtain rfl := List.mem_singleton.mp member
      simp only
      omega
    · split at member
      · obtain rfl := List.mem_singleton.mp member
        simp only
        omega
      · cases member

end Places

section Overrun

variable {World : Type} {platform : Platform World} {dev : Blkdev World} {contents : Nat → List UInt8}
  {s after : FatState World} {pos count fuel : Nat} {name : List UInt8}

theorem OrdersFit.zero : OrdersFit contents pos 0 := fun _ bound => absurd bound (Nat.not_lt_zero _)

theorem OrdersFit.cons (first : ¬EndsDirectory (entAt contents pos) → OrderFits (entAt contents pos))
    (later : ¬EndsDirectory (entAt contents pos) → ¬StandardEnt (entAt contents pos) →
      OrdersFit contents (pos + 32) count) : OrdersFit contents pos (count + 1) := by
  intro index bound earlier notEnd
  cases index with
  | zero => exact first notEnd
  | succ index =>
      have shift : ∀ k, pos + 32 * (k + 1) = pos + 32 + 32 * k := fun k => by omega
      have here := earlier 0 (Nat.succ_pos _)
      rw [shift] at notEnd ⊢
      refine later here.1 here.2 index (Nat.lt_of_succ_lt_succ bound) (fun k before => ?_) notEnd
      have := earlier (k + 1) (Nat.succ_lt_succ before)
      rwa [shift] at this

theorem getDirentLoop_unfit (volume : Volume dev contents) (aligned : pos % 32 = 0)
    (room : pos + 32 * count = dev.nblk * 512) (coherent : Coherent s.driver.blkCache dev contents)
    (length : name.length = 255) (unfit : ¬OrdersFit contents pos count) (enough : count < fuel) :
    getDirentLoop platform fuel s pos name = .error .outOfBounds := by
  obtain ⟨fuel, rfl⟩ := Nat.exists_eq_succ_of_ne_zero (Nat.ne_zero_of_lt enough)
  have bounded := volume.bounded
  induction count generalizing pos name s fuel with
  | zero => exact absurd OrdersFit.zero unfit
  | succ count ih =>
      obtain ⟨after, read, warm⟩ := readEnt_inside platform volume coherent aligned
        (by omega : pos + 32 ≤ dev.nblk * 512)
      have bound : pos + 32 < 2 ^ 64 := by omega
      obtain ⟨fuel, rfl⟩ := Nat.exists_eq_succ_of_ne_zero (Nat.ne_zero_of_lt (Nat.lt_of_succ_lt_succ enough))
      have continued : ∀ name', name'.length = 255 → OrderFits (entAt contents pos) →
          getDirentRound platform pos name s = .ok (.inl (pos + 32, name', after)) →
          getDirentLoop platform (fuel + 1 + 1) s pos name = .error .outOfBounds := by
        intro name' length' fits round
        have later : ¬OrdersFit contents (pos + 32) count := fun fit =>
          unfit (OrdersFit.cons (fun _ => fits) fun _ _ => fit)
        rw [getDirentLoop_next round]
        exact ih (by omega) (by omega) warm.coherent length' later fuel (Nat.lt_of_succ_lt_succ enough)
      by_cases ends : EndsDirectory (entAt contents pos)
      · exact absurd (OrdersFit.cons (fun open_ => absurd ends open_) fun open_ => absurd ends open_) unfit
      · have open_ : ¬byteAt (entAt contents pos) 0 = 0 := ends
        by_cases unused : byteAt (entAt contents pos) 0 = 0xe5
        · refine continued name length (fun used => absurd unused used) ?_
          rw [getDirentRound_eq read bound, if_neg open_, if_pos unused]
        · by_cases long : direntAttr (entAt contents pos) = fdaLfn
          · by_cases order : lfnOrder (entAt contents pos) ≤ 18
            · obtain ⟨stored, length'⟩ := putName_fits length order
              refine continued _ length' (fun _ _ => order) ?_
              rw [getDirentRound_eq read bound, if_neg open_, if_neg unused, if_pos long, stored]
              rfl
            · apply getDirentLoop_stopped
              rw [getDirentRound_eq read bound, if_neg open_, if_neg unused, if_pos long, putName_unfit length order]
              rfl
          · have standard : StandardEnt (entAt contents pos) := ⟨open_, unused, long⟩
            exact absurd (OrdersFit.cons (fun _ _ here => absurd here long) fun _ other => absurd standard other) unfit

/-- On a volume that delivers its blocks, after every history of the cache, the characters
of long-name entries stay inside the name exactly when the entries up to the standard one
have sequence bytes of at most 18.  A DOS name always stays inside. -/
theorem fat_name_writes_inside_iff (platform : Platform World) (dev : Blkdev World) (contents : Nat → List UInt8)
    (volume : Volume dev contents) (s : FatState World)
    (reached : (blkCacheSystem platform dev).Reachable s.driver.blkCache) (allocated : s.driver.blkCache.buf ≠ none)
    (pos : Nat) (aligned : pos % 32 = 0) (inside : pos < dev.nblk * 512) (fuel : Nat)
    (enough : (dev.nblk * 512 - pos) / 32 < fuel) :
    ((∃ found after, fatGetDirentInfo platform fuel s pos = .ok (found, after)) ↔
        OrdersFit contents pos ((dev.nblk * 512 - pos) / 32)) ∧
      (fatGetDirentInfo platform fuel s pos = .error .outOfBounds ↔
        ¬OrdersFit contents pos ((dev.nblk * 512 - pos) / 32)) ∧
      ∀ ent, ∀ copy ∈ dosCopies ent, copy.1 + copy.2.length ≤ 255 := by
  have coherent := blkCache_reachable_coherent reached volume.delivers allocated volume.nblk_lt
  have room : pos + 32 * ((dev.nblk * 512 - pos) / 32) = dev.nblk * 512 := by omega
  have copies : ∀ ent, ∀ copy ∈ dosCopies ent, copy.1 + copy.2.length ≤ 255 := fun ent copy member =>
    (dosCopies_inside copy member).trans (by decide)
  by_cases fit : OrdersFit contents pos ((dev.nblk * 512 - pos) / 32)
  · obtain ⟨after, got, _⟩ := fatGetDirentInfo_spec platform volume aligned room coherent
      (fun none => by omega) fit enough
    refine ⟨iff_of_true ⟨_, after, got⟩ fit, iff_of_false (fun stopped => ?_) (not_not.mpr fit), copies⟩
    cases stopped.symm.trans got
  · have stopped : fatGetDirentInfo platform fuel s pos = .error .outOfBounds :=
      getDirentLoop_unfit volume aligned room coherent List.length_replicate fit enough
    refine ⟨iff_of_false (fun returned => ?_) fit, iff_of_true stopped fit, copies⟩
    obtain ⟨_, _, got⟩ := returned
    cases stopped.symm.trans got

/-- Without a standard entry, a search meets what the first look at an entry meets. -/
theorem OrdersMet.nil (fit : OrdersFit contents pos count)
    (listed : logicalEnts pos emptyName pos (entsFrom contents pos count) = []) :
    OrdersMet contents pos count name := by
  intro index bound notEnd _
  by_cases ends : EndsDirectory (entAt contents (pos + 32 * index))
  · exact ends.orderFits
  · refine fit index bound (fun earlier before => ⟨notEnd earlier before, fun standard => ?_⟩) ends
    obtain ⟨logical, member, _⟩ := (@mem_logicalEnts_iff contents pos pos count emptyName earlier (Nat.le_refl pos)).mpr
      ⟨before.trans bound, standard, fun sooner lt => notEnd sooner (lt.trans before)⟩
    rw [listed] at member
    cases member

/-- Behind a standard entry of another name a search goes on. -/
theorem OrdersMet.cons {logical : LogicalEnt} {rest : List LogicalEnt} {index later : Nat}
    (fit : OrdersFit contents pos count)
    (listed : logicalEnts pos emptyName pos (entsFrom contents pos count) = logical :: rest)
    (total : count = index + 1 + later) (position : logical.dirent.pos = pos + 32 * index)
    (remaining : rest = logicalEnts (logical.dirent.pos + 32) emptyName (logical.dirent.pos + 32)
      (entsFrom contents (logical.dirent.pos + 32) later))
    (tail : ¬Named name logical → OrdersMet contents (logical.dirent.pos + 32) later name) :
    OrdersMet contents pos count name := by
  intro place bound notEnd others
  by_cases ends : EndsDirectory (entAt contents (pos + 32 * place))
  · exact ends.orderFits
  · by_cases before : place ≤ index
    · refine fit place bound (fun earlier sooner => ⟨notEnd earlier sooner, fun standard => ?_⟩) ends
      -- the first standard entry is the one at `index`
      obtain ⟨other, member, at_⟩ := (@mem_logicalEnts_iff contents pos pos count emptyName earlier
        (Nat.le_refl pos)).mpr ⟨sooner.trans bound, standard, fun first lt => notEnd first (lt.trans sooner)⟩
      rw [listed] at member
      cases member with
      | head => omega
      | tail _ member =>
          rw [remaining] at member
          have behind := (logicalEnts_bounds (Nat.le_refl _) other member).2.2
          omega
    · have shift : ∀ k, logical.dirent.pos + 32 + 32 * k = pos + 32 * (index + 1 + k) := fun k => by omega
      have different : ¬Named name logical := others logical (listed ▸ List.mem_cons_self) (by omega)
      have here : index + 1 + (place - (index + 1)) = place := by omega
      have met := tail different (place - (index + 1)) (by omega)
      rw [shift, here] at met
      refine met (fun earlier sooner => ?_) fun other member lt => ?_
      · rw [shift]
        exact notEnd _ (by omega)
      · exact others other (listed ▸ List.mem_cons_of_mem _ (remaining ▸ member)) lt

theorem findLoop_unfit {rounds : Nat} {ents : List LogicalEnt} (examined : List DirentAt) (volume : Volume dev contents)
    (aligned : pos % 32 = 0) (room : pos + 32 * count = dev.nblk * 512)
    (coherent : Coherent s.driver.blkCache dev contents) (warm : count = 0 → Warm s dev contents)
    (unmet : ¬OrdersMet contents pos count name) (enough : count < fuel)
    (listed : logicalEnts pos emptyName pos (entsFrom contents pos count) = ents) (many : ents.length < rounds) :
    loop .outOfFuel (fun (de, examined, s) => findRound platform fuel name de examined s) rounds
      (pos, examined, s) = .error .outOfBounds := by
  have stops : ∀ {pos count s}, pos % 32 = 0 → pos + 32 * count = dev.nblk * 512 →
      Coherent s.driver.blkCache dev contents → count < fuel → ¬OrdersFit contents pos count → ∀ examined rounds,
        loop .outOfFuel (fun (de, examined, s) => findRound platform fuel name de examined s) (rounds + 1)
          (pos, examined, s) = .error .outOfBounds := by
    intro pos count s aligned room coherent enough unfit examined rounds
    have stopped : fatGetDirentInfo platform fuel s pos = .error .outOfBounds :=
      getDirentLoop_unfit volume aligned room coherent List.length_replicate unfit enough
    apply loop_stopped
    simp only [findRound, stopped]
    rfl
  obtain ⟨rounds, rfl⟩ := Nat.exists_eq_succ_of_ne_zero (Nat.ne_zero_of_lt many)
  induction ents generalizing pos count s examined rounds with
  | nil => exact stops aligned room coherent enough (fun fit => unmet (.nil fit listed)) examined rounds
  | cons logical rest ih =>
      by_cases fit : OrdersFit contents pos count
      · obtain ⟨middle, got, gotWarm⟩ := fatGetDirentInfo_spec platform volume aligned room coherent warm fit enough
        rw [listed, List.head?_cons, Option.map_some] at got
        obtain ⟨_, index, later, total, position, _, remaining⟩ := logicalEnts_split listed
        have other : ¬Named name logical := fun named =>
          unmet (.cons fit listed total position remaining fun different => absurd named different)
        obtain ⟨after, moved, movedWarm⟩ := fatNextDirent_spec platform volume aligned room
          gotWarm.coherent (congrArg List.head? listed) enough
        obtain ⟨rounds, rfl⟩ := Nat.exists_eq_succ_of_ne_zero (Nat.ne_zero_of_lt (Nat.lt_of_succ_lt_succ many))
        rw [loop_next (findRound_next examined got other moved)]
        exact ih (examined ++ [logical.dirent]) (by omega) (by omega) movedWarm.coherent (fun _ => movedWarm)
          (fun tail => unmet (.cons fit listed total position remaining fun _ => tail)) (by omega) remaining.symm rounds
          (Nat.lt_of_succ_lt_succ many)
      · exact stops aligned room coherent enough fit examined rounds

/-- A search that meets a long-name entry with characters outside of the name stops there. -/
theorem fatFindDirent_unfit (volume : Volume dev contents) (aligned : pos % 32 = 0) (inside : pos < dev.nblk * 512)
    (coherent : Coherent s.driver.blkCache dev contents)
    (unmet : ¬OrdersMet contents pos ((dev.nblk * 512 - pos) / 32) name)
    (enough : (dev.nblk * 512 - pos) / 32 < fuel) :
    fatFindDirent platform fuel s pos name = .error .outOfBounds := by
  have few : (listing contents dev.nblk pos).length < fuel :=
    Nat.lt_of_le_of_lt (logicalEnts_length.trans (Nat.le_of_eq entsFrom_length)) enough
  exact findLoop_unfit [] volume aligned (by omega) coherent (fun none => by omega) unmet enough rfl few

end Overrun

/-- The 16-bit unit number `index` of a name: its characters, a terminator and padding. -/
def nameUnit (name : List UInt8) (index : Nat) : List UInt8 :=
  if index < name.length then [name.getD index 0, 0]
  else if index = name.length then [0, 0]
  else [0xff, 0xff]

def nameUnits (name : List UInt8) (start : Nat) : Nat → List UInt8
  | 0 => []
  | count + 1 => nameUnit name start ++ nameUnits name (start + 1) count

def segmentCnt (name : List UInt8) : Nat := (name.length + 12) / 13

/-- Sequence numbers count from 1, and the last segment carries a flag. -/
def segmentOrder (cnt segment : Nat) : UInt8 :=
  .ofNat (if segment + 1 = cnt then (segment + 1) ||| 0x40 else segment + 1)

def lfnSegment (name : List UInt8) (chk : UInt8) (segment : Nat) : List UInt8 :=
  [segmentOrder (segmentCnt name) segment] ++ nameUnits name (13 * segment) 5 ++ [0x0f, 0, chk] ++
    nameUnits name (13 * segment + 5) 6 ++ [0, 0] ++ nameUnits name (13 * segment + 11) 2

/-- The entries for a long name before its standard entry, the last segment first. -/
def vfatEnts (name : List UInt8) (chk : UInt8) : List (List UInt8) :=
  (List.range (segmentCnt name)).reverse.map (lfnSegment name chk)

section Vfat

variable {World : Type} {platform : Platform World} {dev : Blkdev World} {contents : Nat → List UInt8}
  {s : FatState World} {pos : Nat} {name : List UInt8} {chk : UInt8}

theorem nameUnit_length {index : Nat} : (nameUnit name index).length = 2 := by
  unfold nameUnit
  split
  · rfl
  · split <;> rfl

theorem nameUnits_length {start count : Nat} : (nameUnits name start count).length = 2 * count := by
  induction count generalizing start with
  | zero => rfl
  | succ count ih =>
      rw [nameUnits, List.length_append, nameUnit_length, ih]
      omega

theorem lfnSegment_order {segment : Nat} :
    byteAt (lfnSegment name chk segment) 0 = (segmentOrder (segmentCnt name) segment).toNat := by
  simp [lfnSegment, byteAt]

theorem lfnSegment_attr {segment : Nat} : direntAttr (lfnSegment name chk segment) = fdaLfn := by
  have first : (nameUnits name (13 * segment) 5).length = 10 := nameUnits_length
  simp only [direntAttr, byteAt, lfnSegment, List.append_assoc, List.cons_append, List.nil_append,
    List.getD_cons_succ]
  rw [List.getD_append_right _ _ _ _ (Nat.le_of_eq first), first]
  rfl

theorem segmentOrder_flagged : ∀ segment < 19, 65 ≤ (segmentOrder (segment + 1) segment).toNat ∧
    (segmentOrder (segment + 1) segment).toNat ≠ 0xe5 := by
  decide

theorem vfatEnts_flagged {last : Nat} (total : segmentCnt name = last + 1) : vfatEnts name chk =
    lfnSegment name chk last :: (List.range last).reverse.map (lfnSegment name chk) := by
  rw [vfatEnts, total, List.range_succ, List.reverse_append]
  rfl

/-- The first entry for a long name is flagged, and so the driver leaves its name array with it. -/
theorem getDirentLoop_flagged {collected : List UInt8} {fuel : Nat} (volume : Volume dev contents)
    (aligned : pos % 32 = 0) (coherent : Coherent s.driver.blkCache dev contents) (nonempty : 1 ≤ name.length)
    (short : name.length ≤ 247) (room : pos + 32 * segmentCnt name ≤ dev.nblk * 512)
    (stored : entsFrom contents pos (segmentCnt name) = vfatEnts name chk) (length : collected.length = 255) :
    getDirentLoop platform (fuel + 1) s pos collected = .error .outOfBounds := by
  have bounded := volume.bounded
  obtain ⟨last, total⟩ : ∃ last, segmentCnt name = last + 1 := ⟨segmentCnt name - 1, by unfold segmentCnt; omega⟩
  have few : last < 19 := by unfold segmentCnt at total; omega
  obtain ⟨after, read, _⟩ := readEnt_inside platform volume coherent aligned (by omega : pos + 32 ≤ dev.nblk * 512)
  have first : entAt contents pos = lfnSegment name chk last := by
    rw [vfatEnts_flagged total, total] at stored
    exact (List.cons.inj stored).1
  have order : byteAt (entAt contents pos) 0 = (segmentOrder (last + 1) last).toNat := by
    rw [first, lfnSegment_order, total]
  have flagged := segmentOrder_flagged last few
  have long : direntAttr (entAt contents pos) = fdaLfn := by rw [first, lfnSegment_attr]
  apply getDirentLoop_stopped
  rw [getDirentRound_eq read (by omega), if_neg (by omega), if_neg (by omega), if_pos long,
    putName_unfit length (by unfold lfnOrder; omega)]
  rfl

/-- `fat_get_dirent_info` succeeds with exactly this name as a NUL-terminated string. -/
def ReturnsName (platform : Platform World) (s : FatState World) (pos : Nat) (name : List UInt8) : Prop :=
  ∃ fuel dirent after, fatGetDirentInfo platform fuel s pos = .ok (some dirent, after) ∧
    name ++ [0] <+: dirent.info.name

theorem not_returnsName_of_stopped {fault : Stop}
    (stopped : ∀ fuel, fatGetDirentInfo platform (fuel + 1) s pos = .error fault) :
    ¬ReturnsName platform s pos name := by
  intro returns
  obtain ⟨fuel, dirent, after, got, _⟩ := returns
  cases fuel with
  | zero => cases got
  | succ fuel => cases (stopped fuel).symm.trans got

/-- No name that is stored as VFAT stores it is returned, whatever follows its entries. -/
theorem fat_long_name_never_returned (platform : Platform World) (dev : Blkdev World) (contents : Nat → List UInt8)
    (volume : Volume dev contents) (s : FatState World)
    (reached : (blkCacheSystem platform dev).Reachable s.driver.blkCache) (allocated : s.driver.blkCache.buf ≠ none)
    (name : List UInt8) (nonempty : 1 ≤ name.length) (short : name.length ≤ 247) (chk : UInt8)
    (pos : Nat) (aligned : pos % 32 = 0) (room : pos + 32 * segmentCnt name ≤ dev.nblk * 512)
    (stored : entsFrom contents pos (segmentCnt name) = vfatEnts name chk) :
    ¬ReturnsName platform s pos name ∧
      ∀ fuel, fatGetDirentInfo platform (fuel + 1) s pos = .error .outOfBounds := by
  have coherent := blkCache_reachable_coherent reached volume.delivers allocated volume.nblk_lt
  have stopped : ∀ fuel, fatGetDirentInfo platform (fuel + 1) s pos = .error .outOfBounds := fun fuel =>
    getDirentLoop_flagged volume aligned coherent nonempty short room stored List.length_replicate
  exact ⟨not_returnsName_of_stopped stopped, stopped⟩

end Vfat

def longRoot : List UInt8 :=
  (vfatEnts [0x61] 0).flatten ++ stdEnt [0x41, 0x20, 0x20, 0x20, 0x20, 0x20, 0x20, 0x20, 0x20, 0x20, 0x20] 0x20 2 5

def longContents (blk : Nat) : List UInt8 := if blk = 2 then padBlock longRoot else smallContents blk

def longDisk : Blkdev Unit := memoryDisk longContents 4100

def longDriver : FatDriver Unit := { smallDriver with blkCache := (blkCacheCreate .zeroed longDisk ()).1 }

theorem longContents_sized (blk : Nat) : (longContents blk).length = 512 := by
  unfold longContents
  split
  · exact padBlock_length (by decide)
  · exact smallContents_sized blk

theorem longDisk_volume : Volume longDisk longContents :=
  ⟨memoryDisk_delivers longContents_sized 4100, rfl, by decide⟩

theorem longDriver_allocated : longDriver.blkCache.buf ≠ none := by
  simp [longDriver, blkCacheCreate, Platform.alloc, Platform.zeroed]

theorem longRoot_stored : entsFrom longContents 1024 (segmentCnt [0x61]) = vfatEnts [0x61] 0 := by decide +kernel

theorem longRoot_stopped (fuel : Nat) : fatGetDirentInfo .zeroed (fuel + 1) { driver := longDriver, world := () } 1024 =
    .error .outOfBounds :=
  getDirentLoop_flagged longDisk_volume (by decide)
    (blkCache_reachable_coherent (.initial ⟨(), rfl⟩) longDisk_volume.delivers longDriver_allocated (by decide))
    (by decide) (by decide) (by decide) longRoot_stored List.length_replicate

theorem fat_name_writes_inside_iff_small :
    ∃ found after, fatGetDirentInfo .zeroed 65569 { driver := smallDriver, world := () } 1024 = .ok (found, after) :=
  (fat_name_writes_inside_iff .zeroed smallDisk smallContents smallDisk_volume { driver := smallDriver, world := () }
    (.initial ⟨(), rfl⟩) smallDriver_allocated 1024 (by decide)
    (by decide) 65569 (by decide)).1.mpr (smallRoot_met _ []).fit

theorem fat_name_writes_outside : lfnOrder (entAt longContents 1024) = 0x41 ∧
    fatGetDirentInfo .zeroed 2 { driver := longDriver, world := () } 1024 = .error .outOfBounds :=
  ⟨by decide +kernel, longRoot_stopped 1⟩

theorem fat_long_name_never_returned_a : ¬ReturnsName .zeroed { driver := longDriver, world := () } 1024 [0x61] :=
  (fat_long_name_never_returned .zeroed longDisk longContents longDisk_volume { driver := longDriver, world := () }
    (.initial ⟨(), rfl⟩) longDriver_allocated [0x61] (by decide) (by decide) 0 1024 (by decide) (by decide)
    longRoot_stored).1

theorem fat_long_name_lost : entsFrom longContents 1024 1 = vfatEnts [0x61] 0 ∧
    ¬ReturnsName .zeroed { driver := longDriver, world := () } 1024 [0x61] :=
  ⟨longRoot_stored, not_returnsName_of_stopped longRoot_stopped⟩

end Bwuhos
