import Mathlib.Algebra.Group.Nat.Defs
import Mathlib.Data.Nat.Log
import Mathlib.Tactic.Common
import Mathlib.Tactic.Ring

namespace Bwuhos.Data

/-! # Numerals

Digits are characters, the most significant first, in a base of 16 at most.
-/

/-- The value of a digit as a reader takes it. -/
def digitValue (c : Char) : Option Nat :=
  if '0' ≤ c ∧ c ≤ '9' then some (c.toNat - '0'.toNat)
  else if 'a' ≤ c ∧ c ≤ 'f' then some (c.toNat - 'a'.toNat + 10)
  else none

/-- Read digits behind a value that is read already. -/
def readFrom (base : Nat) : (value : Nat) → List Char → Option Nat
  | value, [] => some value
  | value, c :: rest =>
      match digitValue c with
      | none => none
      | some digit => if digit < base then readFrom base (base * value + digit) rest else none

def readBack (base : Nat) (chars : List Char) : Option Nat := readFrom base 0 chars

/-- The characters are a numeral of a number: they read back as it, and no zero leads unless it
is all there is. -/
structure Numeral (base number : Nat) (chars : List Char) : Prop where
  value : readBack base chars = some number
  leading : chars = ['0'] ∨ ∃ first rest, chars = first :: rest ∧ first ≠ '0'

/-- The `count` lowest digits of a number. -/
def digitsOf (base number : Nat) : (count : Nat) → List Char
  | 0 => []
  | count + 1 => Nat.digitChar (number / base ^ count % base) :: digitsOf base number count

/-- The digits that a number other than 0 has. -/
def digitCount (base number : Nat) : Nat := Nat.log base number + 1

variable {base number count : Nat}

theorem lt_pow_digitCount (large : 1 < base) : number < base ^ digitCount base number :=
  Nat.lt_pow_succ_log_self large number

theorem pow_le_of_lt_digitCount (nonzero : number ≠ 0) (bound : count < digitCount base number) :
    base ^ count ≤ number :=
  Nat.pow_le_of_le_log nonzero (Nat.le_of_lt_succ bound)

theorem digitCount_le (nonzero : number ≠ 0) (small : number < base ^ count) : digitCount base number ≤ count :=
  Nat.log_lt_of_lt_pow nonzero small

@[simp] theorem digitsOf_length : (digitsOf base number count).length = count := by
  induction count with
  | zero => rfl
  | succ count ih => rw [digitsOf, List.length_cons, ih]

theorem digitValue_digitChar {digit : Nat} (small : digit < 16) : digitValue (Nat.digitChar digit) = some digit := by
  have all : ∀ d < 16, digitValue (Nat.digitChar d) = some d := by decide
  exact all digit small

theorem mem_digitsOf {c : Char} (positive : 0 < base) (member : c ∈ digitsOf base number count) :
    ∃ digit < base, c = Nat.digitChar digit := by
  induction count with
  | zero => cases member
  | succ count ih =>
      obtain first | later := List.mem_cons.mp member
      · exact ⟨_, Nat.mod_lt _ positive, first⟩
      · exact ih later

/-- The lowest digit is the last. -/
theorem digitsOf_last : digitsOf base number (count + 1) =
    digitsOf base (number / base) count ++ [Nat.digitChar (number % base)] := by
  induction count with
  | zero => rw [digitsOf, digitsOf, digitsOf, Nat.pow_zero, Nat.div_one, List.nil_append]
  | succ count ih =>
      rw [digitsOf, ih, digitsOf, List.cons_append, Nat.pow_succ', Nat.div_div_eq_div_mul]

theorem readFrom_digitsOf (value : Nat) (positive : 0 < base) (small : base ≤ 16) :
    readFrom base value (digitsOf base number count) = some (value * base ^ count + number % base ^ count) := by
  induction count generalizing value with
  | zero => rw [digitsOf, readFrom, Nat.pow_zero, Nat.mul_one, Nat.mod_one, Nat.add_zero]
  | succ count ih =>
      have below : number / base ^ count % base < base := Nat.mod_lt _ positive
      simp only [digitsOf, readFrom, digitValue_digitChar (Nat.lt_of_lt_of_le below small), if_pos below]
      rw [ih, Nat.mod_pow_succ]
      congr 1
      ring

theorem readBack_digitsOf (positive : 0 < base) (small : base ≤ 16) :
    readBack base (digitsOf base number count) = some (number % base ^ count) := by
  rw [readBack, readFrom_digitsOf 0 positive small, Nat.zero_mul, Nat.zero_add]

/-- As many digits as a number has are a numeral of it. -/
theorem numeral_digitsOf (large : 1 < base) (small : base ≤ 16) (nonzero : number ≠ 0) :
    Numeral base number (digitsOf base number (digitCount base number)) where
  value := by rw [readBack_digitsOf (Nat.zero_lt_of_lt large) small, Nat.mod_eq_of_lt (lt_pow_digitCount large)]
  leading := by
    have top : 0 < number / base ^ Nat.log base number :=
      Nat.div_pos (Nat.pow_log_le_self base nonzero) (Nat.pow_pos (Nat.zero_lt_of_lt large))
    have digit : number / base ^ Nat.log base number < base := by
      apply Nat.div_lt_of_lt_mul
      rw [← Nat.pow_succ]
      exact lt_pow_digitCount large
    refine Or.inr ⟨_, _, rfl, fun zero => ?_⟩
    rw [Nat.mod_eq_of_lt digit, Nat.digitChar_eq_zero] at zero
    exact Nat.ne_of_gt top zero

theorem numeral_zero (positive : 0 < base) : Numeral base 0 ['0'] where
  value := by
    have zero : digitValue '0' = some 0 := rfl
    simp only [readBack, readFrom, zero, if_pos positive, Nat.mul_zero]
  leading := Or.inl rfl

/-- They are the digits that the library writes. -/
theorem toDigits_eq_digitsOf (large : 1 < base) (nonzero : number ≠ 0) :
    Nat.toDigits base number = digitsOf base number (digitCount base number) := by
  induction number using Nat.strong_induction_on with
  | h number ih =>
      by_cases below : number < base
      · have single : digitCount base number = 1 := by rw [digitCount, Nat.log_of_lt below]
        rw [Nat.toDigits_of_lt_base below, single, digitsOf, digitsOf, Nat.pow_zero, Nat.div_one,
          Nat.mod_eq_of_lt below]
      · have enough : base ≤ number := Nat.le_of_not_lt below
        have positive : 0 < number := Nat.pos_of_ne_zero nonzero
        have some : number / base ≠ 0 := Nat.ne_of_gt (Nat.div_pos enough (Nat.zero_lt_of_lt large))
        have count : digitCount base number = digitCount base (number / base) + 1 := by
          rw [digitCount, digitCount, Nat.log_of_one_lt_of_le large enough]
        rw [Nat.toDigits_of_base_le large enough, count, digitsOf_last, ih _ (Nat.div_lt_self positive large) some]

end Bwuhos.Data
