import Bwuhos.Data.Ram
import Bwuhos.Kutil
import Mathlib.Data.List.Range
import Mathlib.Tactic.IntervalCases

namespace Bwuhos.Kutil

open Bwuhos.Data

/-! # `ku_memset` and `ku_memcpy`

The two functions of `kutil.c` on the memory of the machine, with the string instructions of
`autil.S` under them.  The direction flag is clear, as the calling convention has it.
-/

/-- The registers of the string instructions, and memory. -/
structure StringMachine where
  mem : Ram
  rdi : BitVec 64
  rsi : BitVec 64
  rcx : BitVec 64
  rax : BitVec 64

def stosq (s : StringMachine) : StringMachine := { s with mem := s.mem.setWord s.rdi s.rax, rdi := s.rdi + 8 }

def movsq (s : StringMachine) : StringMachine :=
  { s with mem := s.mem.setWord s.rdi (s.mem.word s.rsi), rdi := s.rdi + 8, rsi := s.rsi + 8 }

/-- The rounds of a `rep` prefix, which are those that `rcx` counts. -/
def rounds (instr : StringMachine → StringMachine) : Nat → StringMachine → StringMachine
  | 0, s => s
  | count + 1, s => rounds instr count { instr s with rcx := s.rcx - 1 }

def rep (instr : StringMachine → StringMachine) (s : StringMachine) : StringMachine := rounds instr s.rcx.toNat s

/-- `mov rcx, rdx`, `mov rax, rsi`, `rep stosq`. -/
def auFms64 (mem : Ram) (rdi rsi rdx : BitVec 64) : Ram := (rep stosq { mem, rdi, rsi, rcx := rdx, rax := rsi }).mem

/-- `mov rcx, rdx`, `rep movsq`.  Nothing reads `rax`. -/
def auFmc64 (mem : Ram) (rdi rsi rdx : BitVec 64) : Ram := (rep movsq { mem, rdi, rsi, rcx := rdx, rax := 0 }).mem

/-- The byte in each byte of a word. -/
def fillWord (b : BitVec 8) : BitVec 64 :=
  b.setWidth 64 ||| b.setWidth 64 <<< 8 ||| b.setWidth 64 <<< 16 ||| b.setWidth 64 <<< 24 |||
    b.setWidth 64 <<< 32 ||| b.setWidth 64 <<< 40 ||| b.setWidth 64 <<< 48 ||| b.setWidth 64 <<< 56

/-- `*((uint8_t *)dst + i) = b`. -/
def setByte (dst : BitVec 64) (b : BitVec 8) (mem : Ram) (i : Nat) : Ram :=
  Function.update mem (dst + BitVec.ofNat 64 i) b

/-- `*((uint8_t *)dst + i) = *((uint8_t *)src + i)`. -/
def copyByte (dst src : BitVec 64) (mem : Ram) (i : Nat) : Ram :=
  Function.update mem (dst + BitVec.ofNat 64 i) (mem (src + BitVec.ofNat 64 i))

/-- The values of `i` in `for (size_t i = start; i < n; ++i)`. -/
def byteIndices (start n : Nat) : List Nat := List.range' start (n - start)

def kuMemset (mem : Ram) (dst : BitVec 64) (b : BitVec 8) (n : BitVec 64) : Ram :=
  (byteIndices (n / 8 * 8).toNat n.toNat).foldl (setByte dst b) (auFms64 mem dst (fillWord b) (n / 8))

def kuMemcpy (mem : Ram) (dst src n : BitVec 64) : Ram :=
  (byteIndices (n / 8 * 8).toNat n.toNat).foldl (copyByte dst src) (auFmc64 mem dst src (n / 8))

theorem shifted_byte (b : BitVec 8) {index shift : Nat} (bound : index < 8) :
    (b.setWidth 64 <<< (8 * shift)).extractLsb' (8 * index) 8 = if index = shift then b else 0 := by
  ext bit within
  rw [BitVec.getElem_extractLsb', BitVec.getLsbD_shiftLeft, BitVec.getLsbD_setWidth]
  have inWord : 8 * index + bit < 64 := by omega
  obtain before | rfl | behind := Nat.lt_trichotomy index shift
  · have front : 8 * index + bit < 8 * shift := by omega
    simp [front, Nat.ne_of_lt before]
  · have offset : 8 * index + bit - 8 * index = bit := by omega
    have behindStart : ¬8 * index + bit < 8 * index := by omega
    simp [inWord, offset, behindStart, within]
    omega
  · have above : 8 ≤ 8 * index + bit - 8 * shift := by omega
    simp [BitVec.getLsbD_of_ge b _ above, Nat.ne_of_gt behind]

theorem fillWord_eq (b : BitVec 8) : fillWord b =
    b.setWidth 64 <<< (8 * 0) ||| b.setWidth 64 <<< (8 * 1) ||| b.setWidth 64 <<< (8 * 2) |||
      b.setWidth 64 <<< (8 * 3) ||| b.setWidth 64 <<< (8 * 4) ||| b.setWidth 64 <<< (8 * 5) |||
      b.setWidth 64 <<< (8 * 6) ||| b.setWidth 64 <<< (8 * 7) := by
  rw [Nat.mul_zero, BitVec.shiftLeft_zero]
  rfl

theorem fillWord_byte (b : BitVec 8) {index : Nat} (bound : index < 8) :
    ByteMemory.byteOf (fillWord b).toNat index = b := by
  have extracted : ByteMemory.byteOf (fillWord b).toNat index = (fillWord b).extractLsb' (8 * index) 8 := by
    rw [ByteMemory.byteOf, BitVec.extractLsb', Nat.shiftRight_eq_div_pow, Nat.pow_mul]
  rw [extracted, fillWord_eq]
  simp only [BitVec.extractLsb'_or, shifted_byte b bound]
  interval_cases index <;> simp

section Rep

variable {instr : StringMachine → StringMachine} {s : StringMachine} {total done count : Nat}

theorem rep_eq : rep instr s = if s.rcx = 0 then s else rep instr { instr s with rcx := s.rcx - 1 } := by
  unfold rep
  cases value : s.rcx.toNat with
  | zero => rw [if_pos (BitVec.eq_of_toNat_eq value), rounds]
  | succ count =>
      have next : (s.rcx - 1).toNat = count := by bv_omega
      have some : s.rcx ≠ 0 := by
        intro zero
        rw [zero] at value
        cases value
      rw [if_neg some, rounds]
      simp only [next]

/-- What the rounds keep, of the number of rounds that are done. -/
theorem rounds_invariant (invariant : Nat → StringMachine → Prop)
    (round : ∀ done s, done < total → invariant done s → invariant (done + 1) { instr s with rcx := s.rcx - 1 })
    (start : invariant done s) (bound : done + count ≤ total) : invariant (done + count) (rounds instr count s) := by
  induction count generalizing done s with
  | zero => exact start
  | succ count ih =>
      have later := ih (round done s (by omega) start) (by omega)
      rwa [Nat.add_right_comm, Nat.add_assoc] at later

theorem rep_invariant (invariant : Nat → StringMachine → Prop) (start : invariant 0 s)
    (round : ∀ done now, done < s.rcx.toNat → invariant done now →
      invariant (done + 1) { instr now with rcx := now.rcx - 1 }) : invariant s.rcx.toNat (rep instr s) := by
  have kept := rounds_invariant invariant round start (Nat.le_of_eq (Nat.zero_add s.rcx.toNat))
  rwa [Nat.zero_add] at kept

end Rep

variable {mem : Ram} {dst src : BitVec 64} {b : BitVec 8} {n : BitVec 64} {bytes : Nat → BitVec 8}

/-- The first bytes at a destination are stored, and `rdi` is behind them. -/
structure Stored (mem : Ram) (dst : BitVec 64) (bytes : Nat → BitVec 8) (words : Nat) (s : StringMachine) : Prop where
  mem : s.mem = mem.setBytes dst bytes (8 * words)
  rdi : s.rdi = dst + BitVec.ofNat 64 (8 * words)

theorem Stored.setWord {words : Nat} {s next : StringMachine} {value : BitVec 64}
    (stored : Stored mem dst bytes words s) (bound : 8 * words + 8 ≤ 2 ^ 64)
    (same : ∀ index < 8, ByteMemory.byteOf value.toNat index = bytes (8 * words + index))
    (nextMem : next.mem = s.mem.setWord s.rdi value) (nextRdi : next.rdi = s.rdi + 8) :
    Stored mem dst bytes (words + 1) next where
  mem := by rw [nextMem, stored.mem, stored.rdi, Ram.setBytes_setWord bound same, Nat.mul_succ]
  rdi := by
    rw [nextRdi, stored.rdi, BitVec.add_assoc, Nat.mul_succ, BitVec.ofNat_add]
    rfl

theorem Stored.start {rsi rcx rax : BitVec 64} : Stored mem dst bytes 0 { mem, rdi := dst, rsi, rcx, rax } where
  mem := Ram.setBytes_zero.symm
  rdi := (BitVec.add_zero dst).symm

/-- `au_fms_64` after some of its words. -/
structure Filling (mem : Ram) (dst : BitVec 64) (b : BitVec 8) (words : Nat) (s : StringMachine) : Prop
    extends Stored mem dst (fun _ => b) words s where
  rax : s.rax = fillWord b

theorem Filling.round {words : Nat} {s : StringMachine} (filling : Filling mem dst b words s)
    (bound : 8 * words + 8 ≤ 2 ^ 64) :
    Filling mem dst b (words + 1) { stosq s with rcx := s.rcx - 1 } where
  toStored := filling.setWord bound (fun index small => by rw [filling.rax, fillWord_byte b small]) rfl rfl
  rax := filling.rax

theorem auFms64_eq (bound : 8 * n.toNat ≤ 2 ^ 64) :
    auFms64 mem dst (fillWord b) n = mem.setBytes dst (fun _ => b) (8 * n.toNat) := by
  have filled : Filling mem dst b n.toNat
      (rep stosq { mem, rdi := dst, rsi := fillWord b, rcx := n, rax := fillWord b }) :=
    rep_invariant (Filling mem dst b) ⟨Stored.start, rfl⟩ fun words s within filling =>
      filling.round (Nat.le_trans (Nat.mul_le_mul_left 8 within) bound)
  exact filled.mem

/-- No byte of the destination is one of the source. -/
def Apart (dst src : BitVec 64) (n : Nat) : Prop :=
  ∀ i < n, ∀ j < n, dst + BitVec.ofNat 64 i ≠ src + BitVec.ofNat 64 j

/-- The source is not written to. -/
theorem Apart.source {limit count index : Nat} (apart : Apart dst src limit) (within : index < limit)
    (bound : count ≤ limit) :
    mem.setBytes dst bytes count (src + BitVec.ofNat 64 index) = mem (src + BitVec.ofNat 64 index) := by
  apply Ram.setBytes_outside
  apply Nat.le_of_not_lt
  intro inside
  apply apart (src + BitVec.ofNat 64 index - dst).toNat (Nat.lt_of_lt_of_le inside bound) index within
  rw [BitVec.ofNat_toNat, BitVec.setWidth_eq, BitVec.add_comm, BitVec.sub_add_cancel]

/-- `au_fmc_64` after some of its words. -/
structure Copying (mem : Ram) (dst src : BitVec 64) (words : Nat) (s : StringMachine) : Prop
    extends Stored mem dst (fun i => mem (src + BitVec.ofNat 64 i)) words s where
  rsi : s.rsi = src + BitVec.ofNat 64 (8 * words)

theorem Copying.round {words limit : Nat} {s : StringMachine} (copying : Copying mem dst src words s)
    (apart : Apart dst src limit) (within : 8 * words + 8 ≤ limit) (bound : limit ≤ 2 ^ 64) :
    Copying mem dst src (words + 1) { movsq s with rcx := s.rcx - 1 } where
  toStored := by
    refine copying.setWord (Nat.le_trans within bound) (fun index small => ?_) rfl rfl
    rw [Ram.word_byte small, copying.mem, copying.rsi, BitVec.add_assoc, ← BitVec.ofNat_add]
    exact apart.source (by omega) (by omega)
  rsi := by
    rw [movsq, copying.rsi, BitVec.add_assoc, Nat.mul_succ, BitVec.ofNat_add]
    rfl

theorem auFmc64_eq {limit : Nat} (apart : Apart dst src limit) (within : 8 * n.toNat ≤ limit) (bound : limit ≤ 2 ^ 64) :
    auFmc64 mem dst src n = mem.setBytes dst (fun i => mem (src + BitVec.ofNat 64 i)) (8 * n.toNat) := by
  have copied : Copying mem dst src n.toNat (rep movsq { mem, rdi := dst, rsi := src, rcx := n, rax := 0 }) :=
    rep_invariant (Copying mem dst src) ⟨Stored.start, (BitVec.add_zero src).symm⟩ fun words s inside copying =>
      copying.round apart (Nat.le_trans (Nat.mul_le_mul_left 8 inside) within) bound
  exact copied.mem

theorem foldl_bytes {step : Ram → Nat → Ram} {start limit : Nat} (order : start ≤ limit)
    (next : ∀ i < limit, step (mem.setBytes dst bytes i) i = mem.setBytes dst bytes (i + 1)) :
    (byteIndices start limit).foldl step (mem.setBytes dst bytes start) = mem.setBytes dst bytes limit := by
  obtain ⟨count, rfl⟩ := Nat.exists_eq_add_of_le order
  rw [byteIndices, Nat.add_sub_cancel_left]
  clear order
  induction count generalizing start with
  | zero => rfl
  | succ count ih =>
      have shift : start + (count + 1) = start + 1 + count := by omega
      rw [List.range'_succ, List.foldl_cons, next start (by omega), shift]
      exact ih fun i bound => next i (by omega)

theorem foldl_setByte {start limit : Nat} (order : start ≤ limit) (bound : limit ≤ 2 ^ 64) :
    (byteIndices start limit).foldl (setByte dst b) (mem.setBytes dst (fun _ => b) start) =
      mem.setBytes dst (fun _ => b) limit :=
  foldl_bytes order fun _ within => Ram.setBytes_succ (Nat.lt_of_lt_of_le within bound)

theorem foldl_copyByte {start limit : Nat} (apart : Apart dst src limit) (order : start ≤ limit)
    (bound : limit ≤ 2 ^ 64) :
    (byteIndices start limit).foldl (copyByte dst src)
        (mem.setBytes dst (fun i => mem (src + BitVec.ofNat 64 i)) start) =
      mem.setBytes dst (fun i => mem (src + BitVec.ofNat 64 i)) limit := by
  apply foldl_bytes order
  intro i within
  rw [copyByte, apart.source within (Nat.le_of_lt within)]
  exact Ram.setBytes_succ (Nat.lt_of_lt_of_le within bound)

theorem words_toNat (n : BitVec 64) : 8 * (n / 8).toNat = (n / 8 * 8).toNat ∧ 8 * (n / 8).toNat ≤ n.toNat := by
  have words : (n / 8).toNat = n.toNat / 8 := BitVec.toNat_udiv
  have limit := n.isLt
  rw [BitVec.toNat_mul, words]
  constructor
  · rw [Nat.mod_eq_of_lt (by simp only [BitVec.ofNat_eq_ofNat, BitVec.reduceToNat]; omega), Nat.mul_comm]
    rfl
  · omega

/-- The loop that stores one byte after the other. -/
def setBytewise (mem : Ram) (dst : BitVec 64) (b : BitVec 8) (n : Nat) : Ram :=
  (byteIndices 0 n).foldl (setByte dst b) mem

def copyBytewise (mem : Ram) (dst src : BitVec 64) (n : Nat) : Ram :=
  (byteIndices 0 n).foldl (copyByte dst src) mem

theorem kuMemset_eq : kuMemset mem dst b n = mem.setBytes dst (fun _ => b) n.toNat := by
  obtain ⟨words, order⟩ := words_toNat n
  rw [kuMemset, auFms64_eq (Nat.le_trans order (Nat.le_of_lt n.isLt)), words]
  exact foldl_setByte (words ▸ order) (Nat.le_of_lt n.isLt)

theorem kuMemcpy_eq (apart : Apart dst src n.toNat) :
    kuMemcpy mem dst src n = mem.setBytes dst (fun i => mem (src + BitVec.ofNat 64 i)) n.toNat := by
  obtain ⟨words, order⟩ := words_toNat n
  rw [kuMemcpy, auFmc64_eq apart order (Nat.le_of_lt n.isLt), words]
  exact foldl_copyByte apart (words ▸ order) (Nat.le_of_lt n.isLt)

theorem setBytewise_eq {limit : Nat} (bound : limit ≤ 2 ^ 64) :
    setBytewise mem dst b limit = mem.setBytes dst (fun _ => b) limit := by
  have filled := @foldl_setByte mem dst b 0 limit (Nat.zero_le limit) bound
  rwa [Ram.setBytes_zero] at filled

theorem copyBytewise_eq {limit : Nat} (apart : Apart dst src limit) (bound : limit ≤ 2 ^ 64) :
    copyBytewise mem dst src limit = mem.setBytes dst (fun i => mem (src + BitVec.ofNat 64 i)) limit := by
  have copied := @foldl_copyByte mem dst src 0 limit apart (Nat.zero_le limit) bound
  rwa [Ram.setBytes_zero] at copied

/-- What storing bytes from an address on comes to, byte by byte. -/
theorem setBytes_effect {limit : Nat} (bound : limit ≤ 2 ^ 64) :
    (∀ i < limit, mem.setBytes dst bytes limit (dst + BitVec.ofNat 64 i) = bytes i) ∧
      ∀ pos, (∀ i < limit, pos ≠ dst + BitVec.ofNat 64 i) → mem.setBytes dst bytes limit pos = mem pos := by
  constructor
  · intro i within
    exact Ram.setBytes_byte within bound
  · intro pos other
    obtain ⟨offset, small, rfl⟩ := Ram.exists_offset dst pos
    rw [Ram.setBytes_apply small, if_neg fun within => other offset within rfl]

/-- The two functions do what a loop over the bytes does. -/
theorem kuMem_bytewise (mem : Ram) (dst src : BitVec 64) (b : BitVec 8) (n : BitVec 64) :
    (kuMemset mem dst b n = setBytewise mem dst b n.toNat ∧
      (∀ i < n.toNat, kuMemset mem dst b n (dst + BitVec.ofNat 64 i) = b) ∧
      ∀ pos, (∀ i < n.toNat, pos ≠ dst + BitVec.ofNat 64 i) → kuMemset mem dst b n pos = mem pos) ∧
    (Apart dst src n.toNat →
      kuMemcpy mem dst src n = copyBytewise mem dst src n.toNat ∧
        (∀ i < n.toNat, kuMemcpy mem dst src n (dst + BitVec.ofNat 64 i) = mem (src + BitVec.ofNat 64 i)) ∧
        ∀ pos, (∀ i < n.toNat, pos ≠ dst + BitVec.ofNat 64 i) → kuMemcpy mem dst src n pos = mem pos) := by
  have bound := Nat.le_of_lt n.isLt
  constructor
  · rw [kuMemset_eq, setBytewise_eq bound]
    exact ⟨rfl, setBytes_effect bound⟩
  · intro apart
    rw [kuMemcpy_eq apart, copyBytewise_eq apart bound]
    exact ⟨rfl, setBytes_effect bound⟩

theorem apart_thirteen : Apart 0x100 0x200 13 := by
  intro i one j two same
  have numbers := congrArg BitVec.toNat same
  simp only [BitVec.toNat_add, BitVec.toNat_ofNat, BitVec.ofNat_eq_ofNat] at numbers
  omega

theorem kuMem_bytewise_thirteen :
    kuMemcpy (fun pos => pos.setWidth 8) 0x100 0x200 13 = copyBytewise (fun pos => pos.setWidth 8) 0x100 0x200 13 :=
  ((kuMem_bytewise (fun pos => pos.setWidth 8) 0x100 0x200 0xff 13).2 apart_thirteen).1

/-! ## Objects

The bytes of an object as a list, which the file systems copy between.
-/

def object (mem : Ram) (addr : BitVec 64) (size : Nat) : List UInt8 :=
  (List.range size).map fun i => UInt8.ofBitVec (mem (addr + BitVec.ofNat 64 i))

theorem setBytes_inside {off size count index : Nat} (room : off + count ≤ size) (bound : size ≤ 2 ^ 64)
    (within : index < size) :
    mem.setBytes (dst + BitVec.ofNat 64 off) bytes count (dst + BitVec.ofNat 64 index) =
      if off ≤ index ∧ index < off + count then bytes (index - off) else mem (dst + BitVec.ofNat 64 index) := by
  by_cases inside : off ≤ index ∧ index < off + count
  · have shift : off + (index - off) = index := by omega
    have stored := @Ram.setBytes_byte mem (dst + BitVec.ofNat 64 off) bytes count (index - off) (by omega) (by omega)
    rw [BitVec.add_assoc, ← BitVec.ofNat_add, shift] at stored
    rw [if_pos inside, stored]
  · rw [if_neg inside]
    apply Ram.setBytes_outside
    simp only [BitVec.toNat_sub, BitVec.toNat_add, BitVec.toNat_ofNat]
    omega

/-- The copy between two objects is that of their bytes. -/
theorem kuMemcpy_object {off size srcSize : Nat} (room : off + n.toNat ≤ size) (source : n.toNat ≤ srcSize)
    (bound : size ≤ 2 ^ 64) (apart : Apart (dst + BitVec.ofNat 64 off) src n.toNat) :
    object (kuMemcpy mem (dst + BitVec.ofNat 64 off) src n) dst size =
      Bwuhos.kuMemcpy (object mem dst size) off (object mem src srcSize) n.toNat := by
  rw [Bwuhos.kuMemcpy_eq (by simpa [object] using room) (by simpa [object] using source), kuMemcpy_eq apart]
  apply List.ext_getElem
  · simp [object]
    omega
  · intro index one two
    have within : index < size := by simpa [object] using one
    have front : min off size = off := by omega
    have words : min n.toNat srcSize = n.toNat := by omega
    simp only [object, List.getElem_map, List.getElem_range, List.getElem_append, List.length_append, List.length_take,
      List.length_map, List.length_range, List.getElem_take, List.getElem_drop, setBytes_inside room bound within,
      front, words]
    by_cases before : index < off
    · rw [if_neg (by omega), dif_pos (by omega), dif_pos before]
    · by_cases inside : index < off + n.toNat
      · rw [if_pos (by omega), dif_pos inside, dif_neg before]
      · have shift : off + n.toNat + (index - (off + n.toNat)) = index := by omega
        rw [if_neg (by omega), dif_neg inside, shift]

end Bwuhos.Kutil
