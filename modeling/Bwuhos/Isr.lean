import Bwuhos.Data.StackMachine

namespace Bwuhos.Isr

open Bwuhos.Data

/-! # Interrupt service routines

The heads of `isr_common.S`, which save registers, call a C body and restore the registers.  A
run of a head ends at its `iretq`.
-/

/-- The general registers but `rsp`, in the order of `struct cpu_gen_regs`. -/
inductive GenReg where
  | rax | rbx | rcx | rdx | rsi | rdi | rbp | r8 | r9 | r10 | r11 | r12 | r13 | r14 | r15
  deriving DecidableEq, Repr

abbrev Machine := StackMachine GenReg

/-- A C function called by a head. -/
abbrev Body := Machine → Machine

/-- `PUSH_GEN_REGS`. -/
def pushGenRegs : List GenReg :=
  [.r15, .r14, .r13, .r12, .r11, .r10, .r9, .r8, .rbp, .rdi, .rsi, .rdx, .rcx, .rbx, .rax]

/-- `POP_GEN_REGS`. -/
def popGenRegs : List GenReg :=
  [.rax, .rbx, .rcx, .rdx, .rsi, .rdi, .rbp, .r8, .r9, .r10, .r11, .r12, .r13, .r14, .r15]

/-- `ISR_EXCEPT_DEF_HEAD`. -/
def isrExceptDefHead : List (StackInstr GenReg) :=
  pushGenRegs.map .push ++ ([.movSp .rdi, .leaSp .rsi 0x78] ++ [.call]) ++ popGenRegs.map .pop

def syscallPushes : List GenReg :=
  [.rdx, .rsi, .rdi, .rax, .r11, .r10, .r9, .r8, .rcx, .rdx, .rsi, .rdi, .rax]

def syscallPops : List GenReg :=
  [.rax, .rdi, .rsi, .rdx, .rcx, .r8, .r9, .r10, .r11, .rax, .rdi, .rsi, .rdx]

/-- `ISR_SYSCALL_DEF_HEAD`. -/
def isrSyscallDefHead : List (StackInstr GenReg) :=
  syscallPushes.map .push ++ ([.movSp .rdi] ++ [.call]) ++ syscallPops.map .pop

theorem mem_pushGenRegs (register : GenReg) : register ∈ pushGenRegs := by
  cases register <;> decide

end Bwuhos.Isr
