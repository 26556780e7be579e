import Mathlib.Data.List.GetD
import Mathlib.Tactic.Common

namespace Bwuhos

/-! # Kernel utilities

`ku_memcpy` of `kutil.c`, from the start of one object to the bytes of another from `off` on.
-/

/-- `*((uint8_t *)dst + i) = *((uint8_t *)src + i)`. -/
def copyByte (src : List UInt8) (off : Nat) (dst : List UInt8) (i : Nat) : List UInt8 :=
  dst.set (off + i) (src.getD i 0)

/-- One round of `rep movsq`, which moves the eight bytes of a word. -/
def movsq (src : List UInt8) (off : Nat) (dst : List UInt8) (word : Nat) : List UInt8 :=
  (List.range' (8 * word) 8).foldl (copyByte src off) dst

def auFmc64 (dst : List UInt8) (off : Nat) (src : List UInt8) (n : Nat) : List UInt8 :=
  (List.range n).foldl (movsq src off) dst

def kuMemcpy (dst : List UInt8) (off : Nat) (src : List UInt8) (n : Nat) : List UInt8 :=
  (List.range' (n / 8 * 8) (n - n / 8 * 8)).foldl (copyByte src off) (auFmc64 dst off src (n / 8))

section

variable {dst src : List UInt8} {off n : Nat}

theorem auFmc64_bytes : auFmc64 dst off src n = (List.range (8 * n)).foldl (copyByte src off) dst := by
  induction n with
  | zero => rfl
  | succ n ih =>
      have next : List.range (8 * (n + 1)) = List.range (8 * n) ++ List.range' (8 * n) 8 := by
        rw [List.range_eq_range', List.range_eq_range', Nat.mul_succ, ← List.range'_append_1, Nat.zero_add]
      rw [auFmc64, List.range_succ, List.foldl_append, ← auFmc64, ih, next, List.foldl_append]
      rfl

/-- The words and the bytes behind them are all bytes, in order. -/
theorem kuMemcpy_bytes : kuMemcpy dst off src n = (List.range n).foldl (copyByte src off) dst := by
  have whole : List.range n = List.range (8 * (n / 8)) ++ List.range' (n / 8 * 8) (n - n / 8 * 8) := by
    have split : n = 8 * (n / 8) + (n - n / 8 * 8) := by omega
    have start : 0 + 8 * (n / 8) = n / 8 * 8 := by omega
    rw [List.range_eq_range', List.range_eq_range', ← start, List.range'_append_1, start, ← split]
  rw [kuMemcpy, auFmc64_bytes, whole, List.foldl_append]

theorem copyBytes_eq (room : off + n ≤ dst.length) (source : n ≤ src.length) :
    (List.range n).foldl (copyByte src off) dst = dst.take off ++ src.take n ++ dst.drop (off + n) := by
  induction n with
  | zero => simp
  | succ n ih =>
      have front : (dst.take off ++ src.take n).length = off + n := by
        rw [List.length_append, List.length_take, List.length_take]
        omega
      have byte : src.getD n 0 = src[n] := List.getD_eq_getElem _ _ _
      have there : dst.drop (off + n) = dst[off + n] :: dst.drop (off + (n + 1)) := List.drop_eq_getElem_cons _
      rw [List.range_succ, List.foldl_append, ih (by omega) (by omega), List.foldl_cons, List.foldl_nil, copyByte,
        List.set_append_right _ _ (Nat.le_of_eq front), front, Nat.sub_self, there, List.set_cons_zero, byte,
        List.take_succ_eq_append_getElem source]
      simp only [List.append_assoc, List.singleton_append]

theorem kuMemcpy_eq (room : off + n ≤ dst.length) (source : n ≤ src.length) :
    kuMemcpy dst off src n = dst.take off ++ src.take n ++ dst.drop (off + n) :=
  kuMemcpy_bytes.trans (copyBytes_eq room source)

end

end Bwuhos
