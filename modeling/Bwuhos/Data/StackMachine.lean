import Bwuhos.Data.Ram
import Mathlib.Logic.Function.Basic
import Mathlib.Tactic.Common

namespace Bwuhos.Data

/-! # Machines with a stack

Code that saves registers on a stack, calls a function and restores them.  The stack grows
downwards in words of eight bytes.
-/

structure StackMachine (Register : Type) where
  regs : Register → BitVec 64
  sp : BitVec 64
  mem : Ram

/-- The instructions of such code.  Its calls all go to one function. -/
inductive StackInstr (Register : Type) where
  | push (register : Register)
  | pop (register : Register)
  | movSp (register : Register)
  | leaSp (register : Register) (offset : BitVec 64)
  | call

/-- Neither the stack pointer nor memory changes. -/
def StackInstr.setsRegister {Register : Type} : StackInstr Register → Bool
  | .movSp _ | .leaSp _ _ => true
  | .push _ | .pop _ | .call => false

namespace StackMachine

variable {Register : Type}

def pushWord (s : StackMachine Register) (word : BitVec 64) : StackMachine Register :=
  { s with sp := s.sp - 8, mem := s.mem.setWord (s.sp - 8) word }

def pushWords (words : List (BitVec 64)) (s : StackMachine Register) : StackMachine Register :=
  words.foldl pushWord s

/-- A word of the stack, counted from its top. -/
def word (s : StackMachine Register) (index : Nat) : BitVec 64 := s.mem.word (s.sp + BitVec.ofNat 64 (8 * index))

def words (s : StackMachine Register) (count : Nat) : List (BitVec 64) := (List.range count).map s.word

/-- The function takes its return address from the stack when it is left. -/
def call (function : StackMachine Register → StackMachine Register) (returnAddress : BitVec 64)
    (s : StackMachine Register) : StackMachine Register :=
  { function (s.pushWord returnAddress) with sp := (function (s.pushWord returnAddress)).sp + 8 }

/-- What a call may rely on: the stack pointer is back when the function is left, and it does not
write to the `count` words on top of the stack of its caller. -/
structure KeepsStack (function : StackMachine Register → StackMachine Register) (count : Nat) : Prop where
  sp : ∀ s, (function s).sp = s.sp
  words : ∀ s index, index < count → (function s).word (index + 1) = s.word (index + 1)

section Push

variable {s : StackMachine Register} {pushed : List (BitVec 64)} {count : Nat}

theorem eight_mul_succ (index : Nat) : BitVec.ofNat 64 (8 * (index + 1)) = 8 + BitVec.ofNat 64 (8 * index) := by
  rw [Nat.mul_succ, Nat.add_comm, BitVec.ofNat_add]
  rfl

theorem words_succ (s : StackMachine Register) (count : Nat) :
    s.words (count + 1) = s.word 0 :: (List.range count).map fun index => s.word (index + 1) := by
  rw [words, List.range_succ_eq_map, List.map_cons, List.map_map]
  rfl

theorem words_getElem? {index : Nat} (bound : index < count) : (s.words count)[index]? = some (s.word index) := by
  rw [words, List.getElem?_map, List.getElem?_range bound, Option.map_some]

theorem words_congr {t : StackMachine Register} (sameSp : t.sp = s.sp) (sameMem : t.mem = s.mem) :
    t.words count = s.words count := by
  apply List.map_congr_left
  intro index _
  rw [word, word, sameSp, sameMem]

theorem pushWord_word_zero (word : BitVec 64) : (s.pushWord word).word 0 = word := by
  simp [StackMachine.word, pushWord, Ram.word_setWord]

theorem pushWord_word_succ (word : BitVec 64) {index : Nat} (bound : index + 1 < 2 ^ 61) :
    (s.pushWord word).word (index + 1) = s.word index := by
  have shift : s.sp - 8 + BitVec.ofNat 64 (8 * (index + 1)) = s.sp + BitVec.ofNat 64 (8 * index) := by
    rw [eight_mul_succ, ← BitVec.add_assoc, BitVec.sub_add_cancel]
  simp only [StackMachine.word, pushWord]
  rw [Ram.word_setWord_apart (by omega) (by omega), shift]

theorem pushWord_frame (word : BitVec 64) {index : Nat} (bound : index + 1 < 2 ^ 61) :
    (s.pushWord word).mem.word (s.sp + BitVec.ofNat 64 (8 * index)) = s.word index := by
  have below : (s.pushWord word).sp + BitVec.ofNat 64 (8 * (index + 1)) = s.sp + BitVec.ofNat 64 (8 * index) := by
    rw [eight_mul_succ, ← BitVec.add_assoc, pushWord, BitVec.sub_add_cancel]
  rw [← below, ← StackMachine.word, pushWord_word_succ word bound]

theorem pushWord_words (word : BitVec 64) (bound : count < 2 ^ 61) :
    (s.pushWord word).words (count + 1) = word :: s.words count := by
  rw [words_succ, pushWord_word_zero, words]
  apply congrArg (List.cons word)
  apply List.map_congr_left
  intro index member
  have within := List.mem_range.mp member
  exact pushWord_word_succ word (by omega)

/-- The words on top of the stack are the last ones that were pushed, the rest as before. -/
theorem pushWords_words (bound : pushed.length + count ≤ 2 ^ 61) :
    (s.pushWords pushed).words (pushed.length + count) = pushed.reverse ++ s.words count := by
  induction pushed generalizing s count with
  | nil => rw [List.length_nil, Nat.zero_add, List.reverse_nil, List.nil_append, pushWords, List.foldl_nil]
  | cons word rest ih =>
      rw [List.length_cons] at bound ⊢
      have later := @ih (s.pushWord word) (count + 1) (by omega)
      rw [pushWord_words word (by omega)] at later
      rw [Nat.add_right_comm, Nat.add_assoc, pushWords, List.foldl_cons, List.reverse_cons, List.append_assoc]
      exact later

theorem pushWords_pushed (length : pushed.length = count) (bound : count ≤ 2 ^ 61) :
    (s.pushWords pushed).words count = pushed.reverse := by
  subst length
  exact (@pushWords_words _ s pushed 0 bound).trans (List.append_nil _)

theorem pushWords_regs : (s.pushWords pushed).regs = s.regs := by
  induction pushed generalizing s with
  | nil => rfl
  | cons word rest ih => exact ih

theorem pushWords_sp : (s.pushWords pushed).sp = s.sp - BitVec.ofNat 64 (8 * pushed.length) := by
  induction pushed generalizing s with
  | nil => simp [pushWords]
  | cons word rest ih =>
      have later := @ih (s.pushWord word)
      rw [pushWords, List.foldl_cons, ← pushWords, later, List.length_cons, eight_mul_succ, ← BitVec.sub_sub]
      rfl

end Push

section Call

variable {function : StackMachine Register → StackMachine Register} {returnAddress : BitVec 64}
  {s : StackMachine Register} {count : Nat}

theorem call_word (index : Nat) :
    (s.call function returnAddress).word index = (function (s.pushWord returnAddress)).word (index + 1) := by
  simp only [word, call, eight_mul_succ, BitVec.add_assoc]

theorem call_sp (same : ∀ s, (function s).sp = s.sp) : (s.call function returnAddress).sp = s.sp := by
  rw [call, same]
  exact BitVec.sub_add_cancel s.sp 8

theorem call_words (keeps : KeepsStack function count) (bound : count < 2 ^ 61) :
    (s.call function returnAddress).words count = s.words count := by
  apply List.map_congr_left
  intro index member
  have within := List.mem_range.mp member
  rw [call_word, keeps.words _ index within, pushWord_word_succ returnAddress (by omega)]

end Call

section Pop

variable [DecidableEq Register]

def pop (s : StackMachine Register) (register : Register) : StackMachine Register :=
  { s with regs := Function.update s.regs register (s.word 0), sp := s.sp + 8 }

def popAll (registers : List Register) (s : StackMachine Register) : StackMachine Register := registers.foldl pop s

/-- Registers after words were put into some of them, one after the other. -/
def assign (regs : Register → BitVec 64) (loads : List (Register × BitVec 64)) : Register → BitVec 64 :=
  loads.foldl (fun regs load => Function.update regs load.1 load.2) regs

variable {s : StackMachine Register} {registers : List Register} {regs values : Register → BitVec 64}
  {register : Register}

theorem pop_word (index : Nat) : (s.pop register).word index = s.word (index + 1) := by
  simp only [word, pop, eight_mul_succ, BitVec.add_assoc]

theorem popAll_sp : (s.popAll registers).sp = s.sp + BitVec.ofNat 64 (8 * registers.length) := by
  induction registers generalizing s with
  | nil => simp [popAll]
  | cons register rest ih =>
      rw [popAll, List.foldl_cons, ← popAll, ih, List.length_cons, eight_mul_succ, ← BitVec.add_assoc]
      rfl

theorem popAll_regs : (s.popAll registers).regs = assign s.regs (registers.zip (s.words registers.length)) := by
  induction registers generalizing s with
  | nil => rfl
  | cons register rest ih =>
      have after : (s.pop register).words rest.length = (List.range rest.length).map fun index => s.word (index + 1) :=
        List.map_congr_left fun index _ => pop_word index
      rw [popAll, List.foldl_cons, ← popAll, ih, List.length_cons, words_succ, after]
      rfl

theorem assign_map :
    assign regs (registers.map fun register => (register, values register)) register =
      if register ∈ registers then values register else regs register := by
  induction registers generalizing regs with
  | nil => simp [assign]
  | cons first rest ih =>
      rw [List.map_cons, assign, List.foldl_cons, ← assign, ih]
      simp only [List.mem_cons, Function.update_apply]
      split <;> grind

end Pop

section Run

variable [DecidableEq Register]

def exec (function : StackMachine Register → StackMachine Register) (returnAddress : BitVec 64)
    (s : StackMachine Register) : StackInstr Register → StackMachine Register
  | .push register => s.pushWord (s.regs register)
  | .pop register => s.pop register
  | .movSp register => { s with regs := Function.update s.regs register s.sp }
  | .leaSp register offset => { s with regs := Function.update s.regs register (s.sp + offset) }
  | .call => s.call function returnAddress

def run (function : StackMachine Register → StackMachine Register) (returnAddress : BitVec 64)
    (code : List (StackInstr Register)) (s : StackMachine Register) : StackMachine Register :=
  code.foldl (exec function returnAddress) s

variable {function : StackMachine Register → StackMachine Register} {returnAddress : BitVec 64}
  {s : StackMachine Register} {registers : List Register} {first second : List (StackInstr Register)}

theorem run_append : s.run function returnAddress (first ++ second) =
    (s.run function returnAddress first).run function returnAddress second := List.foldl_append

theorem run_push : s.run function returnAddress (registers.map .push) = s.pushWords (registers.map s.regs) := by
  induction registers generalizing s with
  | nil => rfl
  | cons register rest ih => exact ih

theorem run_pop : s.run function returnAddress (registers.map .pop) = s.popAll registers := List.foldl_map

theorem run_setsRegister (sets : ∀ instr ∈ first, instr.setsRegister) :
    (s.run function returnAddress first).sp = s.sp ∧ (s.run function returnAddress first).mem = s.mem := by
  induction first generalizing s with
  | nil => exact ⟨rfl, rfl⟩
  | cons instr rest ih =>
      have same : (s.exec function returnAddress instr).sp = s.sp ∧
          (s.exec function returnAddress instr).mem = s.mem := by
        cases instr with
        | movSp _ | leaSp _ _ => exact ⟨rfl, rfl⟩
        | push _ | pop _ | call => cases sets _ List.mem_cons_self
      have later := @ih (s.exec function returnAddress instr) fun instr member =>
        sets instr (List.mem_cons_of_mem _ member)
      exact ⟨later.1.trans same.1, later.2.trans same.2⟩

/-- Words on the stack before a function is called on them, which are there when it is left. -/
theorem run_call_words {setup : List (StackInstr Register)} {count : Nat} (keeps : KeepsStack function count)
    (bound : count < 2 ^ 61) (sets : ∀ instr ∈ setup, instr.setsRegister) :
    (s.run function returnAddress (setup ++ [.call])).sp = s.sp ∧
      (s.run function returnAddress (setup ++ [.call])).words count = s.words count := by
  obtain ⟨sameSp, sameMem⟩ := @run_setsRegister _ _ function returnAddress s setup sets
  rw [run_append]
  constructor
  · exact (call_sp keeps.sp).trans sameSp
  · exact (call_words keeps bound).trans (words_congr sameSp sameMem)

/-- Code that pushes registers, calls a function on them and pops them in the opposite order. -/
theorem run_restores {setup : List (StackInstr Register)} (keeps : KeepsStack function registers.length)
    (bound : registers.length < 2 ^ 61) (sets : ∀ instr ∈ setup, instr.setsRegister) {code : List (StackInstr Register)}
    (shape : code = registers.map .push ++ (setup ++ [.call]) ++ registers.reverse.map .pop) :
    (s.run function returnAddress code).sp = s.sp ∧
      ∀ register ∈ registers, (s.run function returnAddress code).regs register = s.regs register := by
  obtain ⟨sameSp, sameWords⟩ :=
    @run_call_words _ _ function returnAddress (s.pushWords (registers.map s.regs)) _ _ keeps bound sets
  have pushed := pushWords_pushed (s := s) (List.length_map s.regs) (Nat.le_of_lt bound)
  rw [shape, run_append, run_append, run_push, run_pop]
  constructor
  · rw [popAll_sp, sameSp, pushWords_sp, List.length_map, List.length_reverse, BitVec.sub_add_cancel]
  · intro register member
    rw [popAll_regs, List.length_reverse, sameWords, pushed]
    have pairs : registers.reverse.zip (registers.map s.regs).reverse =
        registers.reverse.map fun register => (register, s.regs register) := by
      have zipped := @List.zip_map' _ _ _ id s.regs registers.reverse
      rwa [List.map_id, List.map_reverse] at zipped
    rw [pairs, assign_map, if_pos (List.mem_reverse.mpr member)]

end Run

end StackMachine

end Bwuhos.Data
