import Bwuhos.Kutil.Memory

namespace Bwuhos.Kutil

open Bwuhos.Data

/-! # Copies that fault

`ku_memcpy` on a machine that checks every address.  With page tables of four levels an address
that can be accessed is canonical.
-/

/-- Bits 47 to 63 are equal. -/
def Canonical (addr : BitVec 64) : Prop := addr.toNat < 2 ^ 47 ∨ 2 ^ 64 - 2 ^ 47 ≤ addr.toNat

instance (addr : BitVec 64) : Decidable (Canonical addr) := inferInstanceAs (Decidable (_ ∨ _))

/-- The addresses that a program can read and write. -/
structure AddressSpace where
  accessible : BitVec 64 → Bool
  canonical : ∀ addr, accessible addr = true → Canonical addr

namespace AddressSpace

def Spans (space : AddressSpace) (addr : BitVec 64) (count : Nat) : Prop :=
  ∀ index < count, space.accessible (addr + BitVec.ofNat 64 index) = true

instance (space : AddressSpace) (addr : BitVec 64) (count : Nat) : Decidable (space.Spans addr count) :=
  inferInstanceAs (Decidable (∀ index < count, _))

/-- Everything that four levels of page tables can map. -/
def whole : AddressSpace where
  accessible addr := decide (Canonical addr)
  canonical _ := of_decide_eq_true

variable {space : AddressSpace} {addr : BitVec 64} {count more : Nat}

theorem spans_zero : space.Spans addr 0 := fun _ below => absurd below (Nat.not_lt_zero _)

theorem spans_one : space.Spans addr 1 ↔ space.accessible addr = true := by
  constructor
  · intro spans
    have first := spans 0 Nat.zero_lt_one
    rwa [BitVec.add_zero] at first
  · intro first index below
    rw [Nat.lt_one_iff.mp below, BitVec.add_zero]
    exact first

theorem spans_add : space.Spans addr (count + more) ↔
    space.Spans addr count ∧ space.Spans (addr + BitVec.ofNat 64 count) more := by
  constructor
  · intro spans
    refine ⟨fun index below => spans index (by omega), fun index below => ?_⟩
    rw [BitVec.add_assoc, ← BitVec.ofNat_add]
    exact spans (count + index) (by omega)
  · intro both index below
    obtain ⟨front, back⟩ := both
    obtain inFront | inBack := Nat.lt_or_ge index count
    · exact front index inFront
    · have later := back (index - count) (by omega)
      rwa [BitVec.add_assoc, ← BitVec.ofNat_add, Nat.add_sub_cancel' inBack] at later

/-- The first address that is not canonical comes at most 2^48 bytes later. -/
theorem Spans.bound (spans : space.Spans addr count) : count ≤ 2 ^ 48 := by
  apply Nat.le_of_not_lt
  intro long
  have start := space.canonical _ (spans 0 (by omega))
  rw [BitVec.add_zero] at start
  have offset : (0x800000000000 - addr).toNat ≤ 2 ^ 48 := by
    unfold Canonical at start
    bv_omega
  have gap := space.canonical _ (spans _ (Nat.lt_of_le_of_lt offset long))
  rw [BitVec.ofNat_toNat, BitVec.setWidth_eq, BitVec.add_comm, BitVec.sub_add_cancel] at gap
  revert gap
  decide

end AddressSpace

section

variable (space : AddressSpace)

/-- `movsq`, unless one of its bytes faults. -/
def movsqIn (s : StringMachine) : Option StringMachine :=
  if space.Spans s.rdi 8 ∧ space.Spans s.rsi 8 then some (movsq s) else none

def roundsIn (instr : StringMachine → Option StringMachine) : Nat → StringMachine → Option StringMachine
  | 0, s => some s
  | count + 1, s => (instr s).bind fun next => roundsIn instr count { next with rcx := s.rcx - 1 }

def auFmc64In (mem : Ram) (rdi rsi rdx : BitVec 64) : Option Ram :=
  (roundsIn (movsqIn space) rdx.toNat { mem, rdi, rsi, rcx := rdx, rax := 0 }).map StringMachine.mem

def copyByteIn (dst src : BitVec 64) (mem : Ram) (i : Nat) : Option Ram :=
  if space.accessible (dst + BitVec.ofNat 64 i) ∧ space.accessible (src + BitVec.ofNat 64 i) then
    some (copyByte dst src mem i)
  else none

/-- `ku_memcpy`, or nothing where it faults. -/
def kuMemcpyIn (mem : Ram) (dst src n : BitVec 64) : Option Ram :=
  (auFmc64In space mem dst src (n / 8)).bind fun mem =>
    (byteIndices (n / 8 * 8).toNat n.toNat).foldlM (copyByteIn space dst src) mem

end

variable {space : AddressSpace} {mem : Ram} {dst src n : BitVec 64}

theorem roundsIn_eq (count : Nat) (s : StringMachine) : roundsIn (movsqIn space) count s =
    if space.Spans s.rdi (8 * count) ∧ space.Spans s.rsi (8 * count) then some (rounds movsq count s) else none := by
  induction count generalizing s with
  | zero => exact (if_pos ⟨AddressSpace.spans_zero, AddressSpace.spans_zero⟩).symm
  | succ count ih =>
      rw [roundsIn, movsqIn, Nat.mul_succ, Nat.add_comm (8 * count) 8]
      simp only [AddressSpace.spans_add]
      by_cases here : space.Spans s.rdi 8 ∧ space.Spans s.rsi 8
      · rw [if_pos here, Option.bind_some, ih]
        simp only [here.1, here.2, true_and]
        rfl
      · rw [if_neg here, if_neg fun both => here ⟨both.1.1, both.2.1⟩]
        rfl

theorem foldlM_copyByteIn (start count : Nat) (mem : Ram) :
    (List.range' start count).foldlM (copyByteIn space dst src) mem =
      if space.Spans (dst + BitVec.ofNat 64 start) count ∧ space.Spans (src + BitVec.ofNat 64 start) count then
        some ((List.range' start count).foldl (copyByte dst src) mem)
      else none := by
  induction count generalizing start mem with
  | zero => exact (if_pos ⟨AddressSpace.spans_zero, AddressSpace.spans_zero⟩).symm
  | succ count ih =>
      rw [List.range'_succ, List.foldlM_cons, List.foldl_cons, copyByteIn, Nat.add_comm count 1]
      simp only [AddressSpace.spans_add, AddressSpace.spans_one, BitVec.add_assoc, ← BitVec.ofNat_add]
      by_cases here : space.accessible (dst + BitVec.ofNat 64 start) ∧ space.accessible (src + BitVec.ofNat 64 start)
      · rw [if_pos here, Option.bind_eq_bind, Option.bind_some, ih]
        simp only [here.1, here.2, true_and]
      · rw [if_neg here, if_neg fun both => here ⟨both.1.1, both.2.1⟩]
        rfl

/-- The copy ends if and only if it can access all bytes of both objects. -/
theorem kuMemcpyIn_eq : kuMemcpyIn space mem dst src n =
    if space.Spans dst n.toNat ∧ space.Spans src n.toNat then some (kuMemcpy mem dst src n) else none := by
  obtain ⟨words, order⟩ := words_toNat n
  have tail : n.toNat = 8 * (n / 8).toNat + (n.toNat - 8 * (n / 8).toNat) := by omega
  have split := fun addr => @AddressSpace.spans_add space addr (8 * (n / 8).toNat) (n.toNat - 8 * (n / 8).toNat)
  rw [← tail] at split
  simp only [split]
  rw [kuMemcpyIn, auFmc64In, roundsIn_eq, kuMemcpy, auFmc64, rep, ← words]
  by_cases front : space.Spans dst (8 * (n / 8).toNat) ∧ space.Spans src (8 * (n / 8).toNat)
  · rw [if_pos front, Option.map_some, Option.bind_some, byteIndices, foldlM_copyByteIn]
    simp only [front.1, front.2, true_and]
  · rw [if_neg front, if_neg fun both => front ⟨both.1.1, both.2.1⟩]
    rfl

end Bwuhos.Kutil
