import Bwuhos.Blkdev
import Bwuhos.Data.Word
import Mathlib.Data.List.Basic

namespace Bwuhos

open Bwuhos.Data

/-! # Finding registered devices

`blkdev_get` finds a device by its number among those of its type and driver, and
`blkdev_get_which` tells that number.
-/

section

variable {World : Type}

def BlkNode.isOf (type : BlkdevDevType) (driver : BlkdevDriver) (node : BlkNode World) : Bool :=
  node.dev.devType = type && node.dev.driver = driver

/-- The loop of `blkdev_get` from number `i` on.  `which--` is evaluated for devices of the
type and driver only. -/
def blkdevGetFrom (type : BlkdevDevType) (driver : BlkdevDriver) :
    (i : Nat) → List (BlkNode World) → (which : Nat) → Option Nat
  | _, [], _ => none
  | i, node :: rest, which =>
      if node.isOf type driver then
        if which = 0 then some i else blkdevGetFrom type driver (i + 1) rest (u64Sub which 1)
      else blkdevGetFrom type driver (i + 1) rest which

/-- The place in `blkdevs` of the device that the pointer goes to. -/
def blkdevGet (blkdevs : List (BlkNode World)) (type : BlkdevDevType) (driver : BlkdevDriver) (which : Nat) :
    Option Nat :=
  blkdevGetFrom type driver 0 blkdevs which

/-- The loop of `blkdev_get_which` from number `i` on, for the device `dev` at `target`. -/
def blkdevGetWhichFrom (target : BlkTarget) (dev : Blkdev World) :
    (i : Nat) → List (BlkNode World) → (which : Nat) → Nat
  | _, [], _ => maxBlkdevCnt
  | i, node :: rest, which =>
      if target = .whole i then which
      else if node.isOf dev.devType dev.driver then blkdevGetWhichFrom target dev (i + 1) rest (u64 (which + 1))
      else blkdevGetWhichFrom target dev (i + 1) rest which

def blkdevGetWhich (blkdevs : List (BlkNode World)) (target : BlkTarget) (dev : Blkdev World) : Nat :=
  blkdevGetWhichFrom target dev 0 blkdevs 0

/-- The devices after these calls of `blkdev_register`. -/
def blkdevRegisterAll (devices : List (BlkNode World)) : List (BlkNode World) :=
  devices.foldl (fun blkdevs device => (blkdevRegister blkdevs device).2) []

variable {type : BlkdevDevType} {driver : BlkdevDriver} {blkdevs devices : List (BlkNode World)} {dev : Blkdev World}

theorem BlkNode.isOf_iff {node : BlkNode World} :
    node.isOf type driver = true ↔ node.dev.devType = type ∧ node.dev.driver = driver := by
  rw [isOf, Bool.and_eq_true, decide_eq_true_eq, decide_eq_true_eq]

theorem blkdevRegister_length (device : BlkNode World) (few : blkdevs.length ≤ maxBlkdevCnt) :
    (blkdevRegister blkdevs device).2.length ≤ maxBlkdevCnt := by
  unfold blkdevRegister
  split
  · exact few
  · next room =>
      rw [List.length_append, List.length_singleton]
      omega

theorem blkdevRegisterAll_length (devices : List (BlkNode World)) :
    (blkdevRegisterAll devices).length ≤ maxBlkdevCnt := by
  have step : ∀ blkdevs : List (BlkNode World), blkdevs.length ≤ maxBlkdevCnt →
      (devices.foldl (fun blkdevs device => (blkdevRegister blkdevs device).2) blkdevs).length ≤ maxBlkdevCnt := by
    induction devices with
    | nil => exact fun _ few => few
    | cons device rest ih => exact fun _ few => ih _ (blkdevRegister_length device few)
  exact step [] (Nat.zero_le _)

/-- `blkdev_get` finds the device with this many of its type and driver before it. -/
theorem blkdevGetFrom_eq {which : Nat} (bound : which < 2 ^ 64) (i : Nat) :
    blkdevGetFrom type driver i blkdevs which =
      if which < blkdevs.countP (BlkNode.isOf type driver) then
        some (i + blkdevs.findIdxNth (BlkNode.isOf type driver) which)
      else none := by
  induction blkdevs generalizing i which with
  | nil => rfl
  | cons node rest ih =>
      rw [blkdevGetFrom]
      by_cases here : node.isOf type driver = true
      · have count : (node :: rest).countP (BlkNode.isOf type driver) = rest.countP (BlkNode.isOf type driver) + 1 :=
          List.countP_cons_of_pos here
        rw [if_pos here, count, List.findIdxNth_cons_of_pos here]
        cases which with
        | zero =>
            rw [if_pos rfl, if_pos (Nat.succ_pos _)]
            rfl
        | succ which =>
            have less : u64Sub (which + 1) 1 = which := u64Sub_of_le (Nat.succ_pos _) bound
            rw [if_neg (Nat.succ_ne_zero _), less, ih (Nat.lt_of_succ_lt bound), if_neg (Nat.succ_ne_zero _),
              Nat.add_sub_cancel, Nat.add_assoc, Nat.add_comm 1]
            simp only [Nat.add_lt_add_iff_right]
      · have count : (node :: rest).countP (BlkNode.isOf type driver) = rest.countP (BlkNode.isOf type driver) :=
          List.countP_cons_of_neg here
        rw [if_neg here, count, List.findIdxNth_cons_of_neg (Bool.eq_false_iff.mpr here), ih bound, Nat.add_assoc,
          Nat.add_comm 1]

/-- `blkdev_get_which` counts the devices of the same type and driver before a device. -/
theorem blkdevGetWhichFrom_eq {index which : Nat} (inside : index < blkdevs.length)
    (bound : which + blkdevs.length < 2 ^ 64) (i : Nat) :
    blkdevGetWhichFrom (.whole (i + index)) dev i blkdevs which =
      which + blkdevs.countPBefore (BlkNode.isOf dev.devType dev.driver) index := by
  induction blkdevs generalizing i index which with
  | nil => exact absurd inside (Nat.not_lt_zero _)
  | cons node rest ih =>
      rw [List.length_cons] at inside bound
      rw [blkdevGetWhichFrom]
      cases index with
      | zero =>
          rw [Nat.add_zero, if_pos rfl, List.countPBefore_zero]
          rfl
      | succ index =>
          have further : i + (index + 1) = i + 1 + index := by omega
          have other : BlkTarget.whole (i + (index + 1)) ≠ .whole i := fun same => by
            have places := BlkTarget.whole.inj same
            omega
          rw [if_neg other, List.countPBefore_cons_succ, further]
          by_cases here : node.isOf dev.devType dev.driver = true
          · have counted : u64 (which + 1) = which + 1 := u64_of_lt (by omega)
            rw [if_pos here, counted, ih (by omega) (by omega)]
            simp only [here, if_true]
            omega
          · rw [if_neg here, ih (by omega) (by omega)]
            simp only [here, if_false, Bool.false_eq_true]

theorem blkdevGet_eq {which : Nat} (bound : which < 2 ^ 64) :
    blkdevGet blkdevs type driver which =
      if which < blkdevs.countP (BlkNode.isOf type driver) then
        some (blkdevs.findIdxNth (BlkNode.isOf type driver) which)
      else none := by
  rw [blkdevGet, blkdevGetFrom_eq bound, Nat.zero_add]

theorem blkdevGetWhich_eq {index : Nat} (few : blkdevs.length ≤ maxBlkdevCnt) (inside : index < blkdevs.length) :
    blkdevGetWhich blkdevs (.whole index) dev =
      blkdevs.countPBefore (BlkNode.isOf dev.devType dev.driver) index := by
  simp only [maxBlkdevCnt] at few
  have from0 := @blkdevGetWhichFrom_eq World blkdevs dev index 0 inside (by omega) 0
  rwa [Nat.zero_add, Nat.zero_add] at from0

/-- The number of a registered device selects it. -/
theorem blkdevGet_which {index : Nat} {node : BlkNode World} (few : blkdevs.length ≤ maxBlkdevCnt)
    (there : blkdevs[index]? = some node) :
    blkdevGet blkdevs node.dev.devType node.dev.driver (blkdevGetWhich blkdevs (.whole index) node.dev) =
      some index := by
  obtain ⟨inside, rfl⟩ := List.getElem?_eq_some_iff.mp there
  have own : blkdevs[index].isOf blkdevs[index].dev.devType blkdevs[index].dev.driver = true :=
    BlkNode.isOf_iff.mpr ⟨rfl, rfl⟩
  have below := List.countPBefore_lt_countP_of_lt_length_of_pos own
  have total := List.countP_le_length (p := BlkNode.isOf blkdevs[index].dev.devType blkdevs[index].dev.driver)
    (l := blkdevs)
  rw [blkdevGetWhich_eq few inside]
  simp only [maxBlkdevCnt] at few
  rw [blkdevGet_eq (by omega), if_pos below, List.findIdxNth_countPBefore_of_lt_length_of_pos own]

/-- What is selected is a device of the type and driver, and has the number. -/
theorem blkdevGetWhich_get {index which : Nat} (few : blkdevs.length ≤ maxBlkdevCnt) (bound : which < 2 ^ 64)
    (got : blkdevGet blkdevs type driver which = some index) :
    ∃ node : BlkNode World, blkdevs[index]? = some node ∧ node.isOf type driver = true ∧
      blkdevGetWhich blkdevs (.whole index) node.dev = which := by
  rw [blkdevGet_eq bound] at got
  obtain ⟨present, same⟩ := Option.ite_none_right_eq_some.mp got
  cases same
  have inside := List.findIdxNth_lt_length_of_lt_countP present
  have found := List.pos_findIdxNth_getElem (h := inside)
  obtain ⟨sameType, sameDriver⟩ := BlkNode.isOf_iff.mp found
  refine ⟨_, List.getElem?_eq_getElem inside, found, ?_⟩
  rw [blkdevGetWhich_eq few inside, sameType, sameDriver]
  exact List.countPBefore_findIdxNth_of_lt_countP present

/-- Among any registered devices, `blkdev_get` finds each by the number that
`blkdev_get_which` tells.  It finds a device for just the numbers below how many there are
of the type and driver, and that device has the number. -/
theorem blkdev_get_which_inverse (devices : List (BlkNode World)) :
    (∀ index (node : BlkNode World), (blkdevRegisterAll devices)[index]? = some node →
      blkdevGet (blkdevRegisterAll devices) node.dev.devType node.dev.driver
        (blkdevGetWhich (blkdevRegisterAll devices) (.whole index) node.dev) = some index) ∧
    ∀ type driver (which : UInt64),
      (blkdevGet (blkdevRegisterAll devices) type driver which.toNat ≠ none ↔
        which.toNat < (blkdevRegisterAll devices).countP (BlkNode.isOf type driver)) ∧
      ∀ index, blkdevGet (blkdevRegisterAll devices) type driver which.toNat = some index →
        ∃ node : BlkNode World, (blkdevRegisterAll devices)[index]? = some node ∧ node.isOf type driver = true ∧
          blkdevGetWhich (blkdevRegisterAll devices) (.whole index) node.dev = which.toNat := by
  have few := blkdevRegisterAll_length devices
  constructor
  · intro index node there
    exact blkdevGet_which few there
  · intro type driver which
    constructor
    · simp [blkdevGet_eq which.toNat_lt]
    · intro index got
      exact blkdevGetWhich_get few which.toNat_lt got

end

end Bwuhos
