import Bwuhos.Kdef

namespace Bwuhos

/-- One usable range of physical memory, as `meml_get` hands it out. -/
structure MemlEnt where
  base : Nat
  size : Nat
deriving Repr, DecidableEq

def memlMaxEnts : Nat := 32

/-- `struct limine_memmap_entry`. -/
structure LimineMemmapEntry where
  base : UInt64
  length : UInt64
  type : UInt64
deriving Repr, DecidableEq

/-- The loop of `meml_init` over the rest of the response; `usable` is `LIMINE_MEMMAP_USABLE`. -/
def memlCollect (usable : UInt64) : List LimineMemmapEntry → (mlEnts : List MemlEnt) → List MemlEnt
  | [], mlEnts => mlEnts
  | lmnEnt :: rest, mlEnts =>
      if mlEnts.length ≥ memlMaxEnts then mlEnts
      else if lmnEnt.type ≠ usable ∨ lmnEnt.length.toNat < 0x10 * pageSize then memlCollect usable rest mlEnts
      else memlCollect usable rest (mlEnts ++ [{ base := lmnEnt.base.toNat, size := lmnEnt.length.toNat }])

/-- What `meml_init` returns, and the entries that `meml_get` hands out afterwards. -/
def memlInit (usable : UInt64) (response : List LimineMemmapEntry) : Nat × List MemlEnt :=
  let mlEnts := memlCollect usable response []
  (if mlEnts.isEmpty then 1 else 0, mlEnts)

namespace MemlEnt

/-- What the bootloader promises of a usable entry, and the size that `meml_init`
insists on: page-aligned, at least sixteen pages, and ending at or below 2^64. -/
structure Usable (ent : MemlEnt) : Prop where
  aligned : ent.base % pageSize = 0
  large : 0x10 * pageSize ≤ ent.size
  ends : ent.base + ent.size ≤ 2 ^ 64

/-- Two entries share no byte. -/
def Disjoint (left right : MemlEnt) : Prop :=
  left.base + left.size ≤ right.base ∨ right.base + right.size ≤ left.base

end MemlEnt

section

variable {usable : UInt64} {response : List LimineMemmapEntry} {mlEnts : List MemlEnt}

theorem memlCollect_length (few : mlEnts.length ≤ memlMaxEnts) :
    (memlCollect usable response mlEnts).length ≤ memlMaxEnts := by
  induction response generalizing mlEnts with
  | nil => exact few
  | cons lmnEnt rest ih =>
      unfold memlCollect
      split
      · exact few
      · next room =>
          split
          · exact ih few
          · apply ih
            rw [List.length_append, List.length_singleton]
            omega

/-- `meml_init` keeps large entries that the bootloader says are usable. -/
theorem memlCollect_usable (placed : ∀ lmnEnt ∈ response, lmnEnt.type = usable →
      lmnEnt.base.toNat % pageSize = 0 ∧ lmnEnt.base.toNat + lmnEnt.length.toNat ≤ 2 ^ 64)
    (kept : ∀ ent ∈ mlEnts, ent.Usable) : ∀ ent ∈ memlCollect usable response mlEnts, ent.Usable := by
  induction response generalizing mlEnts with
  | nil => exact kept
  | cons lmnEnt rest ih =>
      have later := fun other member => placed other (List.mem_cons_of_mem _ member)
      unfold memlCollect
      split
      · exact kept
      · split
        · exact ih later kept
        · next wanted =>
            obtain ⟨usableType, large⟩ := not_or.mp wanted
            obtain ⟨aligned, ends⟩ := placed lmnEnt List.mem_cons_self (not_not.mp usableType)
            apply ih later
            intro ent member
            cases List.mem_append.mp member with
            | inl old => exact kept ent old
            | inr new =>
                rw [List.mem_singleton.mp new]
                exact ⟨aligned, Nat.le_of_not_lt large, ends⟩

end

end Bwuhos
