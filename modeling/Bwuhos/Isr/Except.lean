import Bwuhos.Isr

namespace Bwuhos.Isr

open Bwuhos.Data

/-! # Exceptions

`isr_except_spec_tab`, the frames the CPU pushes for an exception, and the runs of the heads
from these frames.
-/

/-- The heads of `isr_except.S`. -/
inductive IsrExcept where
  | x0 | x1 | x2 | x3 | x4 | x5 | x6 | x7 | x8 | x9 | xa | xb | xc | xd | xe
  | x10 | x11 | x12 | x13 | x14 | x15 | x1c | x1d | x1e
  deriving DecidableEq, Repr

def igtInt : BitVec 8 := 0x8e

def igtTrap : BitVec 8 := 0x8f

/-- `NULL_ENT`. -/
def nullEnt : Option IsrExcept × BitVec 8 := (none, 0)

def isrExceptSpecTab : List (Option IsrExcept × BitVec 8) :=
  [(some .x0, igtInt), (some .x1, igtTrap), (some .x2, igtInt), (some .x3, igtTrap),
    (some .x4, igtTrap), (some .x5, igtInt), (some .x6, igtInt), (some .x7, igtInt),
    (some .x8, igtInt), (some .x9, igtInt), (some .xa, igtInt), (some .xb, igtInt),
    (some .xc, igtInt), (some .xd, igtInt), (some .xe, igtInt), nullEnt,
    (some .x10, igtInt), (some .x11, igtInt), (some .x12, igtInt), (some .x13, igtInt),
    (some .x14, igtInt), (some .x15, igtInt), nullEnt, nullEnt,
    nullEnt, nullEnt, nullEnt, nullEnt,
    (some .x1c, igtInt), (some .x1d, igtInt), (some .x1e, igtInt), nullEnt]

/-- `struct isr_except_frame_no_code` and `struct isr_except_frame_code`. -/
inductive ExceptFrame where
  | noCode
  | code
  deriving DecidableEq, Repr

/-- The frame that the body of a head is declared with. -/
def IsrExcept.frame : IsrExcept → ExceptFrame
  | .x8 | .xa | .xb | .xc | .xd | .xe | .x11 | .x15 | .x1d | .x1e => .code
  | .x0 | .x1 | .x2 | .x3 | .x4 | .x5 | .x6 | .x7 | .x9 | .x10 | .x12 | .x13 | .x14 | .x1c => .noCode

/-- The vectors whose bodies are declared with `struct isr_except_frame_code`. -/
def codeVectors : List Nat := [0x8, 0xa, 0xb, 0xc, 0xd, 0xe, 0x11, 0x15, 0x1d, 0x1e]

/-- What an exception interrupts, and the stack that its frame is put on: the interrupted one, or
that of the kernel when the privilege level changes. -/
structure Interrupted where
  regs : GenReg → BitVec 64
  mem : Ram
  stack : BitVec 64
  rip : BitVec 64
  cs : BitVec 64
  flags : BitVec 64
  rsp : BitVec 64
  ss : BitVec 64
  e : BitVec 64

/-- The fields of a frame, in the order of its struct. -/
def ExceptFrame.fields (i : Interrupted) : ExceptFrame → List (BitVec 64)
  | .noCode => [i.rip, i.cs, i.flags, i.rsp, i.ss]
  | .code => [i.e, i.rip, i.cs, i.flags, i.rsp, i.ss]

/-- `offsetof(struct isr_except_frame_..., rip) / 8`. -/
def ExceptFrame.ripIndex : ExceptFrame → Nat
  | .noCode => 0
  | .code => 1

/-- The CPU aligns the stack before it pushes the frame. -/
def ExceptFrame.enter (frame : ExceptFrame) (i : Interrupted) : Machine :=
  StackMachine.pushWords (frame.fields i).reverse { regs := i.regs, sp := i.stack &&& ~~~0xf, mem := i.mem }

/-- The address of the saved `rip`. -/
def ExceptFrame.savedRip (frame : ExceptFrame) (i : Interrupted) : BitVec 64 :=
  (frame.enter i).sp + BitVec.ofNat 64 (8 * frame.ripIndex)

/-- A head from the frame of its vector to its `iretq`. -/
def isrExceptRun (head : IsrExcept) (body : Body) (returnAddress : BitVec 64) (i : Interrupted) : Machine :=
  (head.frame.enter i).run body returnAddress isrExceptDefHead

/-- The bodies of `isr_except.c` are empty. -/
def isrExceptBody (_ : IsrExcept) : Body := id

variable {head : IsrExcept} {body : Body} {returnAddress : BitVec 64} {i : Interrupted}

theorem isrExceptBody_keeps (head : IsrExcept) (count : Nat) : StackMachine.KeepsStack (isrExceptBody head) count where
  sp _ := rfl
  words _ _ _ := rfl

theorem enter_words (frame : ExceptFrame) : (frame.enter i).words (frame.fields i).length = frame.fields i := by
  have small : (frame.fields i).length ≤ 2 ^ 61 := by cases frame <;> simp [ExceptFrame.fields]
  exact (StackMachine.pushWords_pushed List.length_reverse small).trans (List.reverse_reverse _)

/-- The saved `rip` is where the struct of the frame has it. -/
theorem enter_savedRip (frame : ExceptFrame) : (frame.enter i).mem.word (frame.savedRip i) = i.rip := by
  have words := enter_words (i := i) frame
  cases frame with
  | noCode => exact (List.cons.inj words).1
  | code => exact (List.cons.inj (List.cons.inj words).2).1

theorem isrExceptRun_restores (keeps : StackMachine.KeepsStack body pushGenRegs.length) :
    (isrExceptRun head body returnAddress i).regs = i.regs ∧
      (isrExceptRun head body returnAddress i).sp = (head.frame.enter i).sp := by
  obtain ⟨sp, regs⟩ := @StackMachine.run_restores _ _ body returnAddress (head.frame.enter i) pushGenRegs
    [.movSp .rdi, .leaSp .rsi 0x78] keeps (by decide) (by decide) isrExceptDefHead rfl
  constructor
  · funext register
    rw [isrExceptRun, regs register (mem_pushGenRegs register), ExceptFrame.enter, StackMachine.pushWords_regs]
  · exact sp

theorem mem_codeVectors {vector : Nat} {gate : BitVec 8}
    (installed : isrExceptSpecTab[vector]? = some (some head, gate)) :
    vector ∈ codeVectors ↔ head.frame = .code := by
  have every : ∀ vector < 32, ∀ head ∈ (isrExceptSpecTab[vector]?).bind Prod.fst,
      (vector ∈ codeVectors ↔ head.frame = .code) := by decide
  obtain ⟨bound, _⟩ := List.getElem?_eq_some_iff.mp installed
  exact every vector bound head (by rw [installed]; rfl)

theorem savedRip_eq_sp (frame : ExceptFrame) : (frame.enter i).sp = frame.savedRip i ↔ frame = .noCode := by
  cases frame with
  | noCode => exact iff_of_true (BitVec.add_zero _).symm rfl
  | code => exact iff_of_false (fun same => by cases BitVec.self_eq_add_right.mp same) fun other => by cases other

/-- A head takes no error code from the stack. -/
theorem isrExceptRun_returns {vector : Nat} {gate : BitVec 8}
    (installed : isrExceptSpecTab[vector]? = some (some head, gate))
    (keeps : StackMachine.KeepsStack body pushGenRegs.length) :
    ((isrExceptRun head body returnAddress i).regs = i.regs ∧
      (isrExceptRun head body returnAddress i).sp = head.frame.savedRip i) ↔ vector ∉ codeVectors := by
  obtain ⟨regs, sp⟩ := @isrExceptRun_restores head body returnAddress i keeps
  rw [sp, savedRip_eq_sp, mem_codeVectors installed]
  cases frame : head.frame with
  | noCode => exact iff_of_true ⟨regs, rfl⟩ fun other => by cases other
  | code => exact iff_of_false (fun both => by cases both.2) fun absent => absent rfl

/-- A stack at 0x1000, everything else zero. -/
def interruptedIdle : Interrupted where
  regs _ := 0
  mem _ := 0
  stack := 0x1000
  rip := 0
  cs := 0
  flags := 0
  rsp := 0x1000
  ss := 0
  e := 0

theorem isrExceptRun_returns_breakpoint :
    isrExceptSpecTab[3]? = some (some .x3, igtTrap) ∧
      (isrExceptRun .x3 (isrExceptBody .x3) 0 interruptedIdle).regs = interruptedIdle.regs ∧
      (isrExceptRun .x3 (isrExceptBody .x3) 0 interruptedIdle).sp = ExceptFrame.noCode.savedRip interruptedIdle :=
  ⟨rfl, (@isrExceptRun_returns .x3 _ _ _ 3 igtTrap rfl (isrExceptBody_keeps .x3 _)).mpr (by decide)⟩

/-- A page fault returns to its error code. -/
theorem isrExceptRun_pageFault :
    isrExceptSpecTab[0xe]? = some (some .xe, igtInt) ∧
      StackMachine.KeepsStack (isrExceptBody .xe) pushGenRegs.length ∧
      ¬((isrExceptRun .xe (isrExceptBody .xe) 0 interruptedIdle).regs = interruptedIdle.regs ∧
        (isrExceptRun .xe (isrExceptBody .xe) 0 interruptedIdle).sp = ExceptFrame.code.savedRip interruptedIdle) := by
  have keeps := isrExceptBody_keeps .xe pushGenRegs.length
  have restored := @isrExceptRun_restores .xe (isrExceptBody .xe) 0 interruptedIdle keeps
  refine ⟨rfl, keeps, fun both => ?_⟩
  cases (savedRip_eq_sp .code).mp (restored.2.symm.trans both.2)

end Bwuhos.Isr
