import Bwuhos.Blkdev
import Bwuhos.Data.Transition

namespace Bwuhos

open Bwuhos.Data

/-! # The blocks that an access can touch -/

structure BlkSystem (World : Type) where
  blkdevs : List (BlkNode World)
  world : World

inductive BlkdevCall (World : Type) where
  | register (rd : (src n : Nat) → World → RdAnswer × World)
      (wr : (dst : Nat) → (src : List UInt8) → (n : Nat) → World → Int × World) (devType : BlkdevDevType)
      (driver : BlkdevDriver) (flags : UInt8) (blkSize nblk : UInt64)
  | mkPart (target : BlkTarget) (base limit : UInt64)
  | rd (target : BlkTarget) (src n : UInt64)
  | wr (target : BlkTarget) (dst : UInt64) (src : List UInt8) (n : UInt64)

section

variable {World : Type}

namespace BlkSystem

/-- The whole device under a target and the device that the target stands for. -/
def device (system : BlkSystem World) : BlkTarget → Option (Blkdev World × Blkdev World)
  | .whole which => system.blkdevs[which]?.map fun node => (node.dev, node.dev)
  | .part which child =>
      system.blkdevs[which]?.bind fun node => (node.children.getD [])[child]?.map fun part => (node.dev, part)

/-- `blkdev_mk_part` on a registered device, or on a partition, which has no children. -/
def mkPart (system : BlkSystem World) (target : BlkTarget) (base limit : Nat) : Option (BlkSystem World) :=
  match target with
  | .whole which =>
      match system.blkdevs[which]? with
      | none => none
      | some node =>
          match blkdevMkPart node base limit with
          | .error _ => none
          | .ok made => some { system with blkdevs := system.blkdevs.set which made.2 }
  | .part _ _ =>
      match system.device target with
      | none => none
      | some (_, part) =>
          match blkdevMkPart { dev := part, children := none } base limit with
          | .error _ => none
          | .ok _ => some system

end BlkSystem

/-- Runs that build a device tree and access it. -/
def blkdevSystem (platform : Platform World) : TransitionSystem (BlkSystem World) (BlkdevCall World) where
  initial system := system.blkdevs = []
  step before call after :=
    match call with
    | .register rd wr devType driver flags blkSize nblk =>
        let node := blkdevCreate platform rd wr devType driver flags.toNat blkSize.toNat nblk.toNat before.world
        after = { blkdevs := (blkdevRegister before.blkdevs node.1).2, world := node.2 }
    | .mkPart target base limit => before.mkPart target base.toNat limit.toNat = some after
    | .rd target src n => ∃ whole dev, before.device target = some (whole, dev) ∧
        after = { before with world := (blkdevRd dev src.toNat n.toNat before.world).world }
    | .wr target dst src n => ∃ whole dev, before.device target = some (whole, dev) ∧
        after = { before with world := (blkdevWr dev dst.toNat src n.toNat before.world).world }

/-- The blocks from `addr` on lie inside `dev` and inside the whole device under it. -/
def InsideDevice (whole dev : Blkdev World) (addr n : Nat) : Prop :=
  dev.partBase ≤ addr ∧ addr + n ≤ dev.partBase + dev.nblk ∧ addr + n ≤ whole.nblk

/-- A range that wraps around 2^64 is not accepted by the call. -/
def NoWrap (before : BlkSystem World) : BlkdevCall World → Prop
  | .register .. => True
  | .mkPart (.whole which) base limit => ∀ node, before.blkdevs[which]? = some node →
      u64 (base.toNat + limit.toNat) > node.dev.nblk ∨ base.toNat + limit.toNat < 2 ^ 64
  | .mkPart (.part ..) _ _ => True
  | .rd target src n => ∀ whole dev, before.device target = some (whole, dev) →
      u64 (src.toNat + n.toNat) > dev.nblk ∨ src.toNat + n.toNat < 2 ^ 64
  | .wr target dst _ n => ∀ whole dev, before.device target = some (whole, dev) →
      u64 (dst.toNat + n.toNat) > dev.nblk ∨ dst.toNat + n.toNat < 2 ^ 64

/-- A whole device and its partitions, each of which lies inside it. -/
structure NodeInside (node : BlkNode World) : Prop where
  whole : node.dev.partBase = 0
  bounded : node.dev.nblk < 2 ^ 64
  parts : ∀ part ∈ node.children.getD [],
    part.flags &&& bfPart ≠ 0 ∧ part.partBase + part.nblk ≤ node.dev.nblk

variable {platform : Platform World} {system : BlkSystem World} {node : BlkNode World} {whole dev : Blkdev World}
  {target : BlkTarget} {base limit start n : Nat}

theorem partFlags_set (flags : Nat) : (flags ||| bfPart) &&& bfPart ≠ 0 := by
  have set : ((flags ||| bfPart) &&& bfPart).testBit 0 = true := by
    rw [Nat.testBit_and, Nat.testBit_or]
    simp [bfPart]
  intro zero
  simp [zero] at set

theorem blkdevMkPart_keeps {after : BlkNode World} {part : Option (Blkdev World)}
    (returned : blkdevMkPart node base limit = .ok (part, after)) :
    after.dev = node.dev ∧ (after.children = none ↔ node.children = none) := by
  unfold blkdevMkPart at returned
  split at returned
  · cases returned
    exact ⟨rfl, Iff.rfl⟩
  · split at returned
    · cases returned
      exact ⟨rfl, Iff.rfl⟩
    · split at returned
      · cases returned
        exact ⟨rfl, Iff.rfl⟩
      · split at returned
        case h_1 => cases returned
        case h_2 children present =>
          cases returned
          exact ⟨rfl, iff_of_false nofun (by rw [present]; nofun)⟩

theorem blkdevMkPart_returns (present : node.children ≠ none) (base limit : Nat) :
    ∃ made, blkdevMkPart node base limit = .ok made := by
  cases children : node.children with
  | none => exact absurd children present
  | some parts =>
      unfold blkdevMkPart
      rw [children]
      split
      · exact ⟨_, rfl⟩
      · split
        · exact ⟨_, rfl⟩
        · split <;> exact ⟨_, rfl⟩

theorem NodeInside.mkPart (inside : NodeInside node)
    (noWrap : u64 (base + limit) > node.dev.nblk ∨ base + limit < 2 ^ 64)
    {made : Option (Blkdev World) × BlkNode World}
    (returned : blkdevMkPart node base limit = .ok made) : NodeInside made.2 := by
  unfold blkdevMkPart at returned
  split at returned
  · cases returned
    exact inside
  · split at returned
    · cases returned
      exact inside
    · split at returned
      · cases returned
        exact inside
      · next accepted =>
          cases children : node.children with
          | none => simp only [children, reduceCtorEq] at returned
          | some others =>
              simp only [children, Except.ok.injEq] at returned
              subst returned
              refine ⟨inside.whole, inside.bounded, fun part member => ?_⟩
              rcases List.mem_append.mp member with old | new
              · exact inside.parts part (by rw [children]; exact old)
              · rw [List.mem_singleton.mp new]
                have noSum := noWrap.resolve_left accepted
                rw [u64_of_lt noSum] at accepted
                exact ⟨partFlags_set _, Nat.le_of_not_gt accepted⟩

theorem blkdevCreate_inside {rd wr devType driver flags blkSize nblk} {world : World} (bound : nblk < 2 ^ 64) :
    NodeInside (blkdevCreate platform rd wr devType driver flags blkSize nblk world).1 := by
  refine ⟨rfl, bound, fun part member => ?_⟩
  simp only [blkdevCreate] at member
  cases pointer : (platform.alloc (blkdevSize * blkdevMaxParts) world).1 <;> simp [pointer] at member

theorem register_inside {blkdevs : List (BlkNode World)} (inside : ∀ node ∈ blkdevs, NodeInside node)
    (new : NodeInside node) : ∀ other ∈ (blkdevRegister blkdevs node).2, NodeInside other := by
  unfold blkdevRegister
  split
  · exact inside
  · intro other member
    rcases List.mem_append.mp member with old | same
    · exact inside other old
    · exact List.mem_singleton.mp same ▸ new

theorem mkPart_inside {before after : BlkSystem World} {base limit : UInt64}
    (inside : ∀ node ∈ before.blkdevs, NodeInside node) (noWrap : NoWrap before (.mkPart target base limit))
    (made : before.mkPart target base.toNat limit.toNat = some after) : ∀ node ∈ after.blkdevs, NodeInside node := by
  cases target with
  | whole which =>
      simp only [BlkSystem.mkPart] at made
      cases found : before.blkdevs[which]? with
      | none => simp only [found, reduceCtorEq] at made
      | some node =>
          cases returned : blkdevMkPart node base.toNat limit.toNat with
          | error stop => simp only [found, returned, reduceCtorEq] at made
          | ok changed =>
              simp only [found, returned, Option.some.injEq] at made
              subst made
              have kept := (inside node (List.mem_of_getElem? found)).mkPart (noWrap node found) returned
              intro other member
              rcases List.mem_or_eq_of_mem_set member with old | same
              · exact inside other old
              · exact same ▸ kept
  | part which child =>
      have same : after = before := by
        simp only [BlkSystem.mkPart] at made
        split at made
        · cases made
        · split at made
          · cases made
          · exact (Option.some.inj made).symm
      exact same ▸ inside

theorem blkdevs_reachable_inside (reached : ((blkdevSystem platform).restrict NoWrap).Reachable system) :
    ∀ node ∈ system.blkdevs, NodeInside node := by
  refine reached.invariant (fun system => ∀ node ∈ system.blkdevs, NodeInside node) ?_ ?_
  · intro system empty node member
    rw [show system.blkdevs = [] from empty] at member
    cases member
  · intro before call after _ inside taken
    obtain ⟨step, noWrap⟩ := taken
    cases call with
    | register rd wr devType driver flags blkSize nblk =>
        subst step
        exact register_inside inside (blkdevCreate_inside nblk.toNat_lt)
    | mkPart target base limit => exact mkPart_inside inside noWrap step
    | rd target src n =>
        obtain ⟨_, _, _, rfl⟩ := step
        exact inside
    | wr target dst src n =>
        obtain ⟨_, _, _, rfl⟩ := step
        exact inside

theorem device_inside (inside : ∀ node ∈ system.blkdevs, NodeInside node)
    (found : system.device target = some (whole, dev)) :
    whole.nblk < 2 ^ 64 ∧ dev.partBase + dev.nblk ≤ whole.nblk ∧ (dev.flags &&& bfPart ≠ 0 ∨ dev.partBase = 0) := by
  cases target with
  | whole which =>
      obtain ⟨node, member, same⟩ := Option.map_eq_some_iff.mp found
      obtain ⟨rfl, rfl⟩ := Prod.mk.inj same
      have ok := inside node (List.mem_of_getElem? member)
      exact ⟨ok.bounded, by rw [ok.whole, Nat.zero_add], Or.inr ok.whole⟩
  | part which child =>
      obtain ⟨node, member, rest⟩ := Option.bind_eq_some_iff.mp found
      obtain ⟨part, inChildren, same⟩ := Option.map_eq_some_iff.mp rest
      obtain ⟨rfl, rfl⟩ := Prod.mk.inj same
      have ok := inside node (List.mem_of_getElem? member)
      have partOk := ok.parts part (List.mem_of_getElem? inChildren)
      exact ⟨ok.bounded, partOk.2, Or.inl partOk.1⟩

theorem addr_eq (start64 : start < 2 ^ 64) (translated : dev.flags &&& bfPart ≠ 0 ∨ dev.partBase = 0) :
    dev.addr start = u64 (start + dev.partBase) := by
  unfold Blkdev.addr
  split
  case isTrue isWhole =>
    rw [translated.resolve_left (fun part => part isWhole), Nat.add_zero, u64_of_lt start64]
  case isFalse => rfl

theorem accepted_inside_iff (bounded : whole.nblk < 2 ^ 64) (fits : dev.partBase + dev.nblk ≤ whole.nblk)
    (translated : dev.flags &&& bfPart ≠ 0 ∨ dev.partBase = 0) (start64 : start < 2 ^ 64) {n : Nat} (n64 : n < 2 ^ 64)
    (accepted : ¬u64 (start + n) > dev.nblk) :
    InsideDevice whole dev (dev.addr start) n ↔ start + n < 2 ^ 64 := by
  rw [addr_eq start64 translated]
  simp only [InsideDevice, u64] at accepted ⊢
  omega

/-- In a tree built without accepted wraps, the blocks handed to a callback lie inside
the device and the whole device under it exactly when the range of the access does not
wrap. -/
theorem blkdev_callback_inside_iff (platform : Platform World) (system : BlkSystem World)
    (reached : ((blkdevSystem platform).restrict NoWrap).Reachable system) (target : BlkTarget)
    (whole dev : Blkdev World) (found : system.device target = some (whole, dev)) (start n : UInt64) :
    (∀ call, (blkdevRd dev start.toNat n.toNat system.world).call = some call →
      (InsideDevice whole dev call.addr call.n ↔ start.toNat + n.toNat < 2 ^ 64)) ∧
    ∀ src call, (blkdevWr dev start.toNat src n.toNat system.world).call = some call →
      (InsideDevice whole dev call.addr call.n ↔ start.toNat + n.toNat < 2 ^ 64) := by
  obtain ⟨bounded, fits, translated⟩ := device_inside (blkdevs_reachable_inside reached) found
  have exact := fun accepted =>
    accepted_inside_iff bounded fits translated start.toNat_lt n.toNat_lt accepted
  constructor
  · intro call made
    unfold blkdevRd at made
    split at made
    · cases made
    · next accepted =>
        cases made
        exact exact accepted
  · intro src call made
    unfold blkdevWr at made
    split at made
    · cases made
    · next accepted =>
        cases made
        exact exact accepted

end

def zeroDisk (nblk : Nat) : Blkdev Unit := memoryDisk (fun _ => List.replicate 512 0) nblk

def oneDisk : BlkSystem Unit where
  blkdevs := [{ dev := zeroDisk 100, children := some [] }]
  world := ()

theorem oneDisk_reachable : ((blkdevSystem .zeroed).restrict NoWrap).Reachable oneDisk := by
  have start : ((blkdevSystem .zeroed).restrict NoWrap).initial { blkdevs := [], world := () } := rfl
  have registered : ((blkdevSystem .zeroed).restrict NoWrap).step { blkdevs := [], world := () }
      (.register (zeroDisk 100).rd (zeroDisk 100).wr .diskDrive .ataPio 0 512 100) oneDisk := ⟨rfl, trivial⟩
  exact .step (.initial start) registered

theorem blkdev_callback_inside_iff_lastBlocks : InsideDevice (zeroDisk 100) (zeroDisk 100) 90 10 :=
  ((blkdev_callback_inside_iff .zeroed oneDisk oneDisk_reachable (.whole 0) (zeroDisk 100) (zeroDisk 100) rfl 90 10).1
    { addr := 90, n := 10
      answer := { ret := 0, data := (List.range' 90 10).flatMap fun _ => List.replicate 512 0 } } rfl).mpr (by decide)

/-- Two blocks from block 2^64 - 1 on pass the range check of a disk of 100 blocks. -/
theorem blkdev_wrapped_read_outside :
    (blkdevSystem .zeroed).Reachable oneDisk ∧ oneDisk.device (.whole 0) = some (zeroDisk 100, zeroDisk 100) ∧
      (blkdevRd (zeroDisk 100) (2 ^ 64 - 1) 2 oneDisk.world).call =
        some { addr := 2 ^ 64 - 1, n := 2
               answer := (memoryDisk (fun _ => List.replicate 512 0) 100).rd (2 ^ 64 - 1) 2 () |>.1 } ∧
      ¬InsideDevice (zeroDisk 100) (zeroDisk 100) (2 ^ 64 - 1) 2 :=
  ⟨oneDisk_reachable.of_restrict, rfl, rfl, fun inside => absurd inside.2.2 (by decide)⟩

end Bwuhos
