import Bwuhos.Data.Digits
import Bwuhos.Data.Loop
import Bwuhos.Data.Word
import Bwuhos.Locking.Format

namespace Bwuhos.Kutil

open Bwuhos.Data Bwuhos.Locking

/-! # `print_fmt_x`, `print_fmt_b` and `print_fmt_u`

The three functions by the text buffers that they fill, in which every index and every amount of
a shift is checked.
-/

inductive DigitFault where
  | text
  | lut
  | shift
  | endless
  deriving Repr, DecidableEq

def shiftRight (n : BitVec 64) (amount : Nat) : Except DigitFault (BitVec 64) :=
  if amount < 64 then .ok (n >>> amount) else .error .shift

def setText (text : List Char) (index : Nat) (c : Char) : Except DigitFault (List Char) :=
  if index < text.length then .ok (text.set index c) else .error .text

/-- The string that a text starts with. -/
def stringIn : List Char → Except DigitFault (List Char)
  | [] => .error .text
  | c :: rest => if c = nul then .ok [] else (stringIn rest).map (c :: ·)

/-- What is handed to `sp_write_ch` or to `sp_write_str`. -/
inductive Written where
  | ch (c : Char)
  | str (s : List Char)
  deriving Repr, DecidableEq

def Written.chars : Written → List Char
  | .ch c => [c]
  | .str s => s

def hexLut : List Char := "0123456789abcdef".toList ++ [nul]

def hexDigit (n : BitVec 64) : Except DigitFault Char :=
  match hexLut[(n &&& 0xf).toNat]? with
  | none => .error .lut
  | some c => .ok c

def binDigit (n : BitVec 64) : Except DigitFault Char := .ok (if n &&& 0x1 ≠ 0 then '1' else '0')

theorem hexDigit_eq (n : BitVec 64) : hexDigit n = .ok (Nat.digitChar (n.toNat % 2 ^ 4)) := by
  have masked : (n &&& 0xf).toNat = n.toNat % 2 ^ 4 := by
    rw [BitVec.toNat_and]
    exact Nat.and_two_pow_sub_one_eq_mod n.toNat 4
  have all : ∀ d < 2 ^ 4, hexLut[d]? = some (Nat.digitChar d) := by decide
  rw [hexDigit, masked, all _ (Nat.mod_lt _ (by decide))]

theorem binDigit_eq (n : BitVec 64) : binDigit n = .ok (Nat.digitChar (n.toNat % 2 ^ 1)) := by
  have masked : (n &&& 0x1).toNat = n.toNat % 2 ^ 1 := by
    rw [BitVec.toNat_and]
    exact Nat.and_two_pow_sub_one_eq_mod n.toNat 1
  have zero : n &&& 0x1 ≠ 0 ↔ n.toNat % 2 ^ 1 ≠ 0 := by
    rw [← masked, Ne, Ne, BitVec.toNat_eq]
    rfl
  have all : ∀ d < 2 ^ 1, (if d ≠ 0 then '1' else '0') = Nat.digitChar d := by decide
  simp only [binDigit, zero, all _ (Nat.mod_lt _ (by decide))]

/-- What `print_fmt_x` and `print_fmt_b` differ in: the bits of a digit, the digits for each
modifier and at most, the size of the text, and the character of the lowest digit. -/
structure Radix where
  bits : Nat
  qword : Nat
  dword : Nat
  word : Nat
  byte : Nat
  most : Nat
  size : Nat
  digit : BitVec 64 → Except DigitFault Char
  bits_pos : 0 < bits
  bits_le : bits ≤ 4
  qword_bits : bits * qword = 64
  dword_bits : bits * dword = 32
  word_bits : bits * word = 16
  byte_bits : bits * byte = 8
  most_bits : bits * most = 64
  room : most < size
  size_le : size ≤ 65
  digit_eq : ∀ n, digit n = .ok (Nat.digitChar (n.toNat % 2 ^ bits))

def hexRadix : Radix where
  bits := 4
  qword := 16
  dword := 8
  word := 4
  byte := 2
  most := 16
  size := 17
  digit := hexDigit
  bits_pos := by decide
  bits_le := by decide
  qword_bits := rfl
  dword_bits := rfl
  word_bits := rfl
  byte_bits := rfl
  most_bits := rfl
  room := by decide
  size_le := by decide
  digit_eq := hexDigit_eq

def binRadix : Radix where
  bits := 1
  qword := 64
  dword := 32
  word := 16
  byte := 8
  most := 64
  size := 65
  digit := binDigit
  bits_pos := by decide
  bits_le := by decide
  qword_bits := rfl
  dword_bits := rfl
  word_bits := rfl
  byte_bits := rfl
  most_bits := rfl
  room := by decide
  size_le := by decide
  digit_eq := binDigit_eq

/-- The loop `while (nch < most && n >> bits * nch) ++nch`. -/
def countRound (r : Radix) (n : BitVec 64) (nch : Nat) : Except DigitFault (Nat ⊕ Nat) :=
  if nch < r.most then do
    let above ← shiftRight n (r.bits * nch)
    return if above ≠ 0 then .inl (nch + 1) else .inr nch
  else return .inr nch

def fillRound (r : Radix) (n : BitVec 64) (nch : Nat) (text : List Char) (i : Nat) : Except DigitFault (List Char) := do
  let above ← shiftRight n (r.bits * i)
  let c ← r.digit above
  setText text (u64Sub (u64Sub nch i) 1) c

def printText (r : Radix) (n : BitVec 64) (nch : Nat) : Except DigitFault Written := do
  let text ← (List.range nch).foldlM (fillRound r n nch) (List.replicate r.size nul)
  return .str (← stringIn text)

def printDigits (r : Radix) (n : BitVec 64) (mod : Nat) : Except DigitFault Written :=
  if mod &&& fmQword ≠ 0 then printText r n r.qword
  else if mod &&& fmDword ≠ 0 then printText r n r.dword
  else if mod &&& fmWord ≠ 0 then printText r n r.word
  else if mod &&& fmByte ≠ 0 then printText r n r.byte
  else if n = 0 then .ok (.ch '0')
  else do
    let nch ← loop .endless (countRound r n) (r.most + 1) 0
    printText r n nch

def printFmtX (n : BitVec 64) (mod : Nat) : Except DigitFault Written := printDigits hexRadix n mod

def printFmtB (n : BitVec 64) (mod : Nat) : Except DigitFault Written := printDigits binRadix n mod

/-- The variables of the loop of `print_fmt_u`. -/
structure Decimal where
  n : BitVec 64
  nch : Nat
  text : List Char
  deriving Repr, DecidableEq

def decimalRound (s : Decimal) : Except DigitFault (Decimal ⊕ Decimal) :=
  if s.n > 0 then do
    let nch := s.nch + 1
    let text ← setText s.text (u64Sub 20 nch) (Char.ofNat ('0'.toNat + (s.n % 10).toNat))
    return .inl { n := s.n / 10, nch := nch, text := text }
  else return .inr s

def printFmtU (n : BitVec 64) (_mod : Nat) : Except DigitFault Written :=
  if n = 0 then .ok (.ch '0')
  else do
    let s ← loop .endless decimalRound 21 { n := n, nch := 0, text := List.replicate 21 nul }
    return .str (← stringIn (s.text.drop (u64Sub 20 s.nch)))

section

variable {c : Char} {written chars rest : List Char} {n : BitVec 64} {mod count nch i : Nat} {r : Radix}

theorem toNat_ne_zero : n.toNat ≠ 0 ↔ n ≠ 0 := by
  rw [BitVec.toNat_ne]
  rfl

/-- A text is filled from behind. -/
theorem setText_front (space : Nat) :
    setText (List.replicate (space + 1) nul ++ written) space c = .ok (List.replicate space nul ++ c :: written) := by
  have bound : space < (List.replicate (space + 1) nul ++ written).length := by
    rw [List.length_append, List.length_replicate]
    omega
  rw [setText, if_pos bound, List.replicate_succ', List.append_assoc, List.set_append_right]
  · simp
  · simp

theorem stringIn_append (letters : ∀ c ∈ chars, c ≠ nul) : stringIn (chars ++ nul :: rest) = .ok chars := by
  induction chars with
  | nil => rfl
  | cons c chars ih =>
      have later := ih fun d member => letters d (List.mem_cons_of_mem c member)
      rw [List.cons_append, stringIn, if_neg (letters c List.mem_cons_self), later]
      rfl

theorem digitsOf_ne_nul {base number : Nat} (positive : 0 < base) :
    ∀ c ∈ digitsOf base number count, c ≠ nul := by
  intro c member
  obtain ⟨digit, _, rfl⟩ := mem_digitsOf positive member
  exact Nat.digitChar_ne nul (by decide)

theorem Radix.base_le (r : Radix) : 2 ^ r.bits ≤ 16 := Nat.pow_le_pow_right Nat.two_pos r.bits_le

theorem Radix.base_large (r : Radix) : 1 < 2 ^ r.bits := Nat.one_lt_two_pow (Nat.ne_of_gt r.bits_pos)

/-- No amount of a shift is 64. -/
theorem Radix.amount_lt (r : Radix) (bound : i < r.most) : r.bits * i < 64 :=
  Nat.lt_of_lt_of_eq (Nat.mul_lt_mul_of_pos_left bound r.bits_pos) r.most_bits

theorem shiftRight_eq (bound : i < r.most) : shiftRight n (r.bits * i) = .ok (n >>> (r.bits * i)) :=
  if_pos (r.amount_lt bound)

theorem toNat_shift (n : BitVec 64) (r : Radix) (i : Nat) :
    (n >>> (r.bits * i)).toNat = n.toNat / (2 ^ r.bits) ^ i := by
  rw [BitVec.toNat_ushiftRight, Nat.shiftRight_eq_div_pow, Nat.pow_mul]

theorem fillRound_front (bound : i < nch) (fits : nch ≤ r.most) (behind : List Char) :
    fillRound r n nch (List.replicate (nch - i) nul ++ (digitsOf (2 ^ r.bits) n.toNat i ++ behind)) i =
      .ok (List.replicate (nch - (i + 1)) nul ++ (digitsOf (2 ^ r.bits) n.toNat (i + 1) ++ behind)) := by
  have room := r.room
  have size := r.size_le
  have index : u64Sub (u64Sub nch i) 1 = nch - (i + 1) := by
    have first : u64Sub nch i = nch - i := u64Sub_of_le (Nat.le_of_lt bound) (by omega)
    rw [first, u64Sub_of_le (by omega) (by omega), Nat.sub_sub]
  have space : nch - i = nch - (i + 1) + 1 := by omega
  rw [fillRound, shiftRight_eq (Nat.lt_of_lt_of_le bound fits)]
  change (r.digit (n >>> (r.bits * i)) >>= fun c => setText _ _ c) = _
  rw [r.digit_eq, toNat_shift, index, space]
  exact setText_front _

theorem fill_front (le : count ≤ nch) (fits : nch ≤ r.most) (behind : List Char) :
    (List.range count).foldlM (fillRound r n nch) (List.replicate nch nul ++ behind) =
      .ok (List.replicate (nch - count) nul ++ (digitsOf (2 ^ r.bits) n.toNat count ++ behind)) := by
  induction count with
  | zero => rfl
  | succ count ih =>
      rw [List.range_succ, List.foldlM_append, ih (Nat.le_of_succ_le le)]
      change fillRound r n nch _ count >>= pure = _
      rw [fillRound_front le fits]
      rfl

theorem printText_eq (fits : nch ≤ r.most) : printText r n nch = .ok (.str (digitsOf (2 ^ r.bits) n.toNat nch)) := by
  have room := r.room
  have split : List.replicate r.size nul = List.replicate nch nul ++ nul :: List.replicate (r.size - nch - 1) nul := by
    rw [← List.replicate_succ, List.replicate_append_replicate]
    congr 1
    omega
  have string := @stringIn_append _ (List.replicate (r.size - nch - 1) nul)
    (@digitsOf_ne_nul nch (2 ^ r.bits) n.toNat (Nat.zero_lt_of_lt r.base_large))
  rw [printText, split, fill_front (Nat.le_refl nch) fits, Nat.sub_self]
  change (stringIn (digitsOf _ _ _ ++ _) >>= fun s => pure (Written.str s)) = _
  rw [string]
  rfl

/-- No number of 64 bits has more digits. -/
theorem Radix.count_le (r : Radix) (nonzero : n.toNat ≠ 0) : digitCount (2 ^ r.bits) n.toNat ≤ r.most := by
  apply digitCount_le nonzero
  rw [← Nat.pow_mul, r.most_bits]
  exact n.isLt

theorem countRound_next (nonzero : n.toNat ≠ 0) (bound : nch < digitCount (2 ^ r.bits) n.toNat) :
    countRound r n nch = .ok (.inl (nch + 1)) := by
  have below : nch < r.most := Nat.lt_of_lt_of_le bound (r.count_le nonzero)
  have digits : 0 < n.toNat / (2 ^ r.bits) ^ nch :=
    Nat.div_pos (pow_le_of_lt_digitCount nonzero bound) (Nat.pow_pos (Nat.zero_lt_of_lt r.base_large))
  have above : n >>> (r.bits * nch) ≠ 0 := by
    intro zero
    rw [← toNat_shift, zero] at digits
    exact Nat.lt_irrefl 0 digits
  rw [countRound, if_pos below, shiftRight_eq below]
  change (pure (if _ then _ else _) : Except DigitFault (Nat ⊕ Nat)) = _
  rw [if_pos above]
  rfl

theorem countRound_done :
    countRound r n (digitCount (2 ^ r.bits) n.toNat) = .ok (.inr (digitCount (2 ^ r.bits) n.toNat)) := by
  by_cases below : digitCount (2 ^ r.bits) n.toNat < r.most
  · have above : n >>> (r.bits * digitCount (2 ^ r.bits) n.toNat) = 0 := by
      apply BitVec.eq_of_toNat_eq
      rw [toNat_shift]
      exact Nat.div_eq_of_lt (lt_pow_digitCount r.base_large)
    rw [countRound, if_pos below, shiftRight_eq below]
    change (pure (if _ then _ else _) : Except DigitFault (Nat ⊕ Nat)) = _
    rw [if_neg (not_not.mpr above)]
    rfl
  · rw [countRound, if_neg below]
    rfl

theorem count_eq (nonzero : n.toNat ≠ 0) :
    loop .endless (countRound r n) (r.most + 1) 0 = .ok (digitCount (2 ^ r.bits) n.toNat) :=
  loop_counted id (fun _ bound => countRound_next nonzero bound) countRound_done
    (Nat.lt_succ_of_le (r.count_le nonzero))

theorem printDigits_plain (nonzero : n.toNat ≠ 0) :
    printDigits r n 0 = .ok (.str (digitsOf (2 ^ r.bits) n.toNat (digitCount (2 ^ r.bits) n.toNat))) := by
  have some : n ≠ 0 := toNat_ne_zero.mp nonzero
  change (if n = 0 then _ else loop .endless (countRound r n) (r.most + 1) 0 >>= printText r n) = _
  rw [if_neg some, count_eq nonzero]
  exact printText_eq (r.count_le nonzero)

/-- The variables after some rounds. -/
def decimalAt (n : BitVec 64) (done : Nat) : Decimal where
  n := .ofNat 64 (n.toNat / 10 ^ done)
  nch := done
  text := List.replicate (20 - done) nul ++ (digitsOf 10 n.toNat done ++ [nul])

theorem decimalAt_toNat (n : BitVec 64) (done : Nat) : (decimalAt n done).n.toNat = n.toNat / 10 ^ done :=
  Nat.mod_eq_of_lt (Nat.lt_of_le_of_lt (Nat.div_le_self _ _) n.isLt)

theorem decimal_count_le (nonzero : n.toNat ≠ 0) : digitCount 10 n.toNat ≤ 20 :=
  digitCount_le nonzero (Nat.lt_trans n.isLt (by decide))

theorem decimalRound_next {done : Nat} (nonzero : n.toNat ≠ 0) (bound : done < digitCount 10 n.toNat) :
    decimalRound (decimalAt n done) = .ok (.inl (decimalAt n (done + 1))) := by
  have room : done < 20 := Nat.lt_of_lt_of_le bound (decimal_count_le nonzero)
  have some : (decimalAt n done).n > 0 := by
    rw [gt_iff_lt, BitVec.lt_def, decimalAt_toNat]
    exact Nat.div_pos (pow_le_of_lt_digitCount nonzero bound) (Nat.pow_pos (by decide))
  have left : (decimalAt n done).n / 10 = (decimalAt n (done + 1)).n := by
    apply BitVec.eq_of_toNat_eq
    rw [BitVec.toNat_udiv, decimalAt_toNat, decimalAt_toNat, Nat.pow_succ, ← Nat.div_div_eq_div_mul]
    rfl
  have digit : Char.ofNat ('0'.toNat + ((decimalAt n done).n % 10).toNat) =
      Nat.digitChar (n.toNat / 10 ^ done % 10) := by
    have all : ∀ d < 10, Char.ofNat ('0'.toNat + d) = Nat.digitChar d := by decide
    rw [BitVec.toNat_umod, decimalAt_toNat]
    exact all _ (Nat.mod_lt _ (by decide))
  have index : u64Sub 20 (done + 1) = 20 - (done + 1) := u64Sub_of_le room (by decide)
  have space : 20 - done = 20 - (done + 1) + 1 := by omega
  rw [decimalRound, if_pos some, left, digit]
  change (setText (List.replicate (20 - done) nul ++ _) (u64Sub 20 (done + 1)) _ >>= fun text =>
    (pure (Sum.inl _) : Except DigitFault (Decimal ⊕ Decimal))) = _
  rw [index, space, setText_front]
  rfl

theorem decimalRound_done :
    decimalRound (decimalAt n (digitCount 10 n.toNat)) = .ok (.inr (decimalAt n (digitCount 10 n.toNat))) := by
  have none : ¬(decimalAt n (digitCount 10 n.toNat)).n > 0 := by
    rw [gt_iff_lt, BitVec.lt_def, decimalAt_toNat, Nat.div_eq_of_lt (lt_pow_digitCount (by decide))]
    exact Nat.lt_irrefl 0
  exact if_neg none

theorem decimal_eq (nonzero : n.toNat ≠ 0) :
    loop .endless decimalRound 21 { n := n, nch := 0, text := List.replicate 21 nul } =
      .ok (decimalAt n (digitCount 10 n.toNat)) := by
  have start : decimalAt n 0 = { n := n, nch := 0, text := List.replicate 21 nul } := by
    rw [decimalAt, Nat.pow_zero, Nat.div_one, BitVec.ofNat_toNat, BitVec.setWidth_eq]
    rfl
  rw [← start]
  exact loop_counted (decimalAt n) (fun _ bound => decimalRound_next nonzero bound) decimalRound_done
    (Nat.lt_succ_of_le (decimal_count_le nonzero))

theorem printFmtU_eq (nonzero : n.toNat ≠ 0) :
    printFmtU n mod = .ok (.str (digitsOf 10 n.toNat (digitCount 10 n.toNat))) := by
  have some : n ≠ 0 := toNat_ne_zero.mp nonzero
  have index : u64Sub 20 (decimalAt n (digitCount 10 n.toNat)).nch = 20 - digitCount 10 n.toNat :=
    u64Sub_of_le (decimal_count_le nonzero) (by decide)
  have text : (decimalAt n (digitCount 10 n.toNat)).text.drop (20 - digitCount 10 n.toNat) =
      digitsOf 10 n.toNat (digitCount 10 n.toNat) ++ [nul] :=
    List.drop_left' List.length_replicate
  have string := @stringIn_append _ [] (@digitsOf_ne_nul (digitCount 10 n.toNat) 10 n.toNat (by decide))
  rw [printFmtU, if_neg some, decimal_eq nonzero]
  change (stringIn ((decimalAt n _).text.drop (u64Sub 20 _)) >>= fun s => pure (Written.str s)) = _
  rw [index, text, string]
  rfl

/-- What is emitted is a numeral of a number, without a zero in front. -/
def EmitsNumeral (emitted : Except DigitFault Written) (base number : Nat) : Prop :=
  ∃ written, emitted = .ok written ∧ Numeral base number written.chars

/-- What is emitted are `count` digits that stand for a number. -/
def EmitsDigits (emitted : Except DigitFault Written) (base count number : Nat) : Prop :=
  ∃ written, emitted = .ok written ∧ written.chars.length = count ∧ readBack base written.chars = some number

theorem emitsNumeral_of_digits {base : Nat} {emitted : Except DigitFault Written} (large : 1 < base) (small : base ≤ 16)
    (zero : n = 0 → emitted = .ok (.ch '0'))
    (digits : n.toNat ≠ 0 → emitted = .ok (.str (digitsOf base n.toNat (digitCount base n.toNat)))) :
    EmitsNumeral emitted base n.toNat := by
  by_cases nothing : n = 0
  · have number : n.toNat = 0 := nothing ▸ rfl
    rw [number]
    exact ⟨_, zero nothing, numeral_zero (Nat.zero_lt_of_lt large)⟩
  · have nonzero : n.toNat ≠ 0 := toNat_ne_zero.mpr nothing
    exact ⟨_, digits nonzero, numeral_digitsOf large small nonzero⟩

theorem printDigits_numeral (r : Radix) (n : BitVec 64) : EmitsNumeral (printDigits r n 0) (2 ^ r.bits) n.toNat :=
  emitsNumeral_of_digits r.base_large r.base_le (fun zero => zero ▸ rfl) printDigits_plain

theorem Radix.fits {width : Nat} (r : Radix) (bits : r.bits * nch = width) (le : width ≤ 64) : nch ≤ r.most := by
  apply Nat.le_of_mul_le_mul_left _ r.bits_pos
  rw [bits, r.most_bits]
  exact le

theorem printText_emits {width : Nat} (bits : r.bits * nch = width) (le : width ≤ 64) :
    EmitsDigits (printText r n nch) (2 ^ r.bits) nch (n.toNat % 2 ^ width) := by
  refine ⟨_, printText_eq (r.fits bits le), digitsOf_length, ?_⟩
  rw [← bits, Nat.pow_mul]
  exact readBack_digitsOf (Nat.zero_lt_of_lt r.base_large) r.base_le

/-- A modifier stands for a number of bits. -/
theorem printDigits_modified (r : Radix) (n : BitVec 64) :
    EmitsDigits (printDigits r n fmQword) (2 ^ r.bits) r.qword (n.toNat % 2 ^ 64) ∧
      EmitsDigits (printDigits r n fmDword) (2 ^ r.bits) r.dword (n.toNat % 2 ^ 32) ∧
      EmitsDigits (printDigits r n fmWord) (2 ^ r.bits) r.word (n.toNat % 2 ^ 16) ∧
      EmitsDigits (printDigits r n fmByte) (2 ^ r.bits) r.byte (n.toNat % 2 ^ 8) :=
  ⟨printText_emits r.qword_bits (by decide), printText_emits r.dword_bits (by decide),
    printText_emits r.word_bits (by decide), printText_emits r.byte_bits (by decide)⟩

/-- The three functions emit numerals, and the digits that a modifier asks for, for every number. -/
theorem print_fmt_reads_back (n : BitVec 64) :
    (∀ mod, EmitsNumeral (printFmtU n mod) 10 n.toNat) ∧
      EmitsNumeral (printFmtX n 0) 16 n.toNat ∧
      EmitsNumeral (printFmtB n 0) 2 n.toNat ∧
      EmitsDigits (printFmtX n fmQword) 16 16 (n.toNat % 2 ^ 64) ∧
      EmitsDigits (printFmtX n fmDword) 16 8 (n.toNat % 2 ^ 32) ∧
      EmitsDigits (printFmtX n fmWord) 16 4 (n.toNat % 2 ^ 16) ∧
      EmitsDigits (printFmtX n fmByte) 16 2 (n.toNat % 2 ^ 8) ∧
      EmitsDigits (printFmtB n fmQword) 2 64 (n.toNat % 2 ^ 64) ∧
      EmitsDigits (printFmtB n fmDword) 2 32 (n.toNat % 2 ^ 32) ∧
      EmitsDigits (printFmtB n fmWord) 2 16 (n.toNat % 2 ^ 16) ∧
      EmitsDigits (printFmtB n fmByte) 2 8 (n.toNat % 2 ^ 8) := by
  obtain ⟨hexQ, hexD, hexW, hexB⟩ := printDigits_modified hexRadix n
  obtain ⟨binQ, binD, binW, binB⟩ := printDigits_modified binRadix n
  have decimal (mod : Nat) : EmitsNumeral (printFmtU n mod) 10 n.toNat :=
    emitsNumeral_of_digits (by decide) (by decide) (fun zero => zero ▸ rfl) printFmtU_eq
  exact ⟨decimal, printDigits_numeral hexRadix n, printDigits_numeral binRadix n,
    hexQ, hexD, hexW, hexB, binQ, binD, binW, binB⟩

end

section

variable {World : Type} {env : Env World} {number bits count left nch : Nat}

def performWritten (env : Env World) : Written → Devices World Unit
  | .ch c => spWriteCh env c.toNat
  | .str s => spWriteStr env s

theorem digitText_eq : digitText number bits count = digitsOf (2 ^ bits) number count := by
  induction count with
  | zero => rfl
  | succ count ih =>
      have first : number >>> (bits * count) &&& (2 ^ bits - 1) = number / (2 ^ bits) ^ count % 2 ^ bits := by
        rw [Nat.and_two_pow_sub_one_eq_mod, Nat.shiftRight_eq_div_pow, Nat.pow_mul]
      rw [digitsOf, ← ih, ← first, digitText, digitText, List.range_succ, List.reverse_concat, List.map_cons]

theorem countDigits_eq (large : 0 < bits) (nonzero : number ≠ 0) (below : nch ≤ digitCount (2 ^ bits) number)
    (room : digitCount (2 ^ bits) number ≤ nch + left) :
    countDigits number bits left nch = digitCount (2 ^ bits) number := by
  induction left generalizing nch with
  | zero => exact Nat.le_antisymm below room
  | succ left ih =>
      have base : 1 < 2 ^ bits := Nat.one_lt_two_pow (Nat.ne_of_gt large)
      rw [countDigits, Nat.shiftRight_eq_div_pow, Nat.pow_mul]
      by_cases last : nch = digitCount (2 ^ bits) number
      · rw [last, if_pos (Nat.div_eq_of_lt (lt_pow_digitCount base))]
      · have more : nch < digitCount (2 ^ bits) number := Nat.lt_of_le_of_ne below last
        have digits := Nat.div_pos (pow_le_of_lt_digitCount nonzero more) (Nat.pow_pos (Nat.zero_lt_of_lt base))
        rw [if_neg (Nat.ne_of_gt digits)]
        exact ih more (by omega)

theorem printText_performs {r : Radix} {n : BitVec 64} {width : Nat} (whole : r.bits * nch = width) (le : width ≤ 64) :
    ∃ written, printText r n nch = .ok written ∧
      spWriteStr env (digitText n.toNat r.bits (width / r.bits)) = performWritten env written := by
  refine ⟨_, printText_eq (r.fits whole le), ?_⟩
  rw [← whole, Nat.mul_div_cancel_left nch r.bits_pos, digitText_eq]
  rfl

/-- The texts are what the conversions write, for every modifier. -/
theorem printDigits_performs (r : Radix) (n : BitVec 64) (mod : Nat) :
    ∃ written, printDigits r n mod = .ok written ∧
      Locking.printDigits env r.bits n.toNat mod = performWritten env written := by
  simp only [printDigits, Locking.printDigits]
  split
  · exact printText_performs r.qword_bits (by decide)
  · split
    · exact printText_performs r.dword_bits (by decide)
    · split
      · exact printText_performs r.word_bits (by decide)
      · split
        · exact printText_performs r.byte_bits (by decide)
        · by_cases zero : n = 0
          · subst zero
            exact ⟨.ch '0', rfl, rfl⟩
          · have nonzero : n.toNat ≠ 0 := toNat_ne_zero.mpr zero
            have most : 64 / r.bits = r.most := by
              rw [← r.most_bits, Nat.mul_div_cancel_left r.most r.bits_pos]
            have count : countDigits n.toNat r.bits (64 / r.bits) 0 = digitCount (2 ^ r.bits) n.toNat := by
              rw [most]
              exact countDigits_eq r.bits_pos nonzero (Nat.zero_le _) (by rw [Nat.zero_add]; exact r.count_le nonzero)
            rw [if_neg zero, if_neg nonzero, count_eq nonzero, count, digitText_eq]
            exact ⟨_, printText_eq (r.count_le nonzero), rfl⟩

theorem printFmtU_performs (n : BitVec 64) (mod : Nat) :
    ∃ written, printFmtU n mod = .ok written ∧ Locking.printFmtU env n.toNat = performWritten env written := by
  by_cases zero : n = 0
  · subst zero
    exact ⟨.ch '0', rfl, rfl⟩
  · have nonzero : n.toNat ≠ 0 := toNat_ne_zero.mpr zero
    refine ⟨_, printFmtU_eq nonzero, ?_⟩
    rw [Locking.printFmtU, if_neg nonzero, toDigits_eq_digitsOf (by decide) nonzero]
    rfl

end

end Bwuhos.Kutil
