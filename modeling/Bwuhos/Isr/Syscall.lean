import Bwuhos.Isr

namespace Bwuhos.Isr

open Bwuhos.Data

/-! # System calls

`struct sc_args` of `syscall.c`, the registers that `docs/syscalls.md` gives its fields, and
what the head of the system call interrupt makes of them.
-/

/-- The argument and result registers of the system call model. -/
inductive ScReg where
  | arsel | ar0 | ar1 | ar2 | ar3 | ar4 | ar5 | ar6 | ar7 | or0 | or1 | or2 | or3
  deriving DecidableEq, Repr

/-- The table of `docs/syscalls.md`. -/
def docRegister : ScReg → GenReg
  | .arsel => .rax
  | .ar0 => .rdi
  | .ar1 => .rsi
  | .ar2 => .rdx
  | .ar3 => .rcx
  | .ar4 => .r8
  | .ar5 => .r9
  | .ar6 => .r10
  | .ar7 => .r11
  | .or0 => .rax
  | .or1 => .rdi
  | .or2 => .rsi
  | .or3 => .rdx

/-- The fields of `struct sc_args` in their order, each a `uint64_t`. -/
def scArgs : List ScReg :=
  [.arsel, .ar0, .ar1, .ar2, .ar3, .ar4, .ar5, .ar6, .ar7, .or0, .or1, .or2, .or3]

/-- `args->field`. -/
def scArg (mem : Ram) (args : BitVec 64) (field : ScReg) : BitVec 64 :=
  mem.word (args + BitVec.ofNat 64 (8 * scArgs.idxOf field))

def calleeSaved : List GenReg := [.rbx, .rbp, .r12, .r13, .r14, .r15]

/-- What the C calling convention asks of a body. -/
structure CallConvention (body : Body) : Prop where
  sp : ∀ s, (body s).sp = s.sp
  regs : ∀ s, ∀ register ∈ calleeSaved, (body s).regs register = s.regs register

/-- The machine that the body is called on. -/
def isrSyscallSaved (returnAddress : BitVec 64) (body : Body) (s : Machine) : Machine :=
  s.run body returnAddress (syscallPushes.map .push ++ [.movSp .rdi])

/-- The machine that the body starts on. -/
def isrSyscallEntry (returnAddress : BitVec 64) (body : Body) (s : Machine) : Machine :=
  (isrSyscallSaved returnAddress body s).pushWord returnAddress

/-- A system call up to its `iretq`. -/
def isrSyscallRun (returnAddress : BitVec 64) (body : Body) (s : Machine) : Machine :=
  s.run body returnAddress isrSyscallDefHead

/-- The registers that a system call returns in, with the fields they get. -/
def scResults : List (GenReg × ScReg) :=
  [(.rax, .or0), (.rdi, .or1), (.rsi, .or2), (.rdx, .or3),
    (.rcx, .ar3), (.r8, .ar4), (.r9, .ar5), (.r10, .ar6), (.r11, .ar7)]

variable {body : Body} {returnAddress : BitVec 64} {s : Machine}

theorem isrSyscallSaved_eq : isrSyscallSaved returnAddress body s =
    let pushed := s.pushWords (syscallPushes.map s.regs)
    { pushed with regs := Function.update pushed.regs .rdi pushed.sp } := by
  rw [isrSyscallSaved, StackMachine.run_append, StackMachine.run_push]
  rfl

theorem isrSyscallSaved_word (field : ScReg) :
    (isrSyscallSaved returnAddress body s).word (scArgs.idxOf field) = s.regs (docRegister field) := by
  have pushed := @StackMachine.pushWords_pushed _ s (syscallPushes.map s.regs) syscallPushes.length
    (List.length_map _) (by decide)
  have bound : scArgs.idxOf field < syscallPushes.length := by cases field <;> decide
  have word := StackMachine.words_getElem? (s := s.pushWords (syscallPushes.map s.regs)) bound
  have top : (syscallPushes.map s.regs).reverse[scArgs.idxOf field]? = some (s.regs (docRegister field)) := by
    cases field <;> rfl
  rw [pushed, top] at word
  rw [isrSyscallSaved_eq]
  exact (Option.some.inj word).symm

theorem isrSyscallEntry_rdi :
    (isrSyscallEntry returnAddress body s).regs .rdi = (isrSyscallSaved returnAddress body s).sp := by
  rw [isrSyscallEntry, isrSyscallSaved_eq]
  rfl

theorem isrSyscallEntry_arg (field : ScReg) :
    scArg (isrSyscallEntry returnAddress body s).mem ((isrSyscallEntry returnAddress body s).regs .rdi) field =
      s.regs (docRegister field) := by
  have bound : scArgs.idxOf field + 1 < 2 ^ 61 := by cases field <;> decide
  rw [isrSyscallEntry_rdi, scArg, isrSyscallEntry, StackMachine.pushWord_frame _ bound, isrSyscallSaved_word]

theorem isrSyscallRun_eq : isrSyscallRun returnAddress body s =
    ((isrSyscallSaved returnAddress body s).call body returnAddress).popAll syscallPops := by
  have head : isrSyscallDefHead =
      (syscallPushes.map .push ++ [.movSp .rdi]) ++ [.call] ++ syscallPops.map .pop := rfl
  rw [isrSyscallRun, head, StackMachine.run_append, StackMachine.run_append, StackMachine.run_pop]
  rfl

theorem isrSyscallRun_sp (convention : CallConvention body) : (isrSyscallRun returnAddress body s).sp = s.sp := by
  rw [isrSyscallRun_eq, StackMachine.popAll_sp, StackMachine.call_sp convention.sp, isrSyscallSaved_eq]
  simp only [StackMachine.pushWords_sp, List.length_map]
  exact BitVec.sub_add_cancel _ _

/-- The later pops are the ones whose words stay in the registers. -/
theorem popAll_syscallPops {m : Machine} {result : GenReg × ScReg} (member : result ∈ scResults) :
    (m.popAll syscallPops).regs result.1 = m.word (scArgs.idxOf result.2) := by
  rw [StackMachine.popAll_regs]
  simp only [scResults, List.mem_cons, List.not_mem_nil, or_false] at member
  obtain rfl | rfl | rfl | rfl | rfl | rfl | rfl | rfl | rfl := member <;> rfl

theorem isrSyscallRun_result (convention : CallConvention body) {result : GenReg × ScReg}
    (member : result ∈ scResults) :
    (isrSyscallRun returnAddress body s).regs result.1 =
      scArg (body (isrSyscallEntry returnAddress body s)).mem ((isrSyscallEntry returnAddress body s).regs .rdi)
        result.2 := by
  rw [isrSyscallRun_eq, popAll_syscallPops member, StackMachine.word, StackMachine.call_sp convention.sp,
    isrSyscallEntry_rdi]
  rfl

theorem isrSyscallEntry_regs {register : GenReg} (other : register ≠ .rdi) :
    (isrSyscallEntry returnAddress body s).regs register = s.regs register := by
  rw [isrSyscallEntry, isrSyscallSaved_eq]
  simp only [StackMachine.pushWord, StackMachine.pushWords_regs]
  exact Function.update_of_ne other _ _

theorem popAll_calleeSaved {m : Machine} {register : GenReg} (saved : register ∈ calleeSaved) :
    (m.popAll syscallPops).regs register = m.regs register := by
  rw [StackMachine.popAll_regs]
  simp only [calleeSaved, List.mem_cons, List.not_mem_nil, or_false] at saved
  obtain rfl | rfl | rfl | rfl | rfl | rfl := saved <;> rfl

theorem isrSyscallRun_calleeSaved (convention : CallConvention body) {register : GenReg}
    (saved : register ∈ calleeSaved) :
    (isrSyscallRun returnAddress body s).regs register = s.regs register := by
  have other : register ≠ .rdi := by
    intro same
    subst same
    exact absurd saved (by decide)
  rw [isrSyscallRun_eq, popAll_calleeSaved saved]
  exact (convention.regs _ register saved).trans (isrSyscallEntry_regs other)

/-- The body finds the registers where the document has them, and its results are in the
registers of the document when the system call returns. -/
theorem isrSyscall_marshals (convention : CallConvention body) :
    let entry := isrSyscallEntry returnAddress body s
    let args := entry.regs .rdi
    let returned := isrSyscallRun returnAddress body s
    (∀ field, scArg entry.mem args field = s.regs (docRegister field)) ∧
      (∀ result ∈ scResults, returned.regs result.1 = scArg (body entry).mem args result.2) ∧
      (∀ register, (∀ result ∈ scResults, result.1 ≠ register) → returned.regs register = s.regs register) ∧
      returned.sp = s.sp := by
  refine ⟨isrSyscallEntry_arg, fun result member => isrSyscallRun_result convention member, ?_,
    isrSyscallRun_sp convention⟩
  intro register other
  apply isrSyscallRun_calleeSaved convention
  revert other
  cases register <;> decide

/-- A body that stores 7 to `or0`. -/
def answerSeven : Body := fun s => { s with mem := s.mem.setWord (s.regs .rdi + 72) 7 }

theorem isrSyscall_marshals_answerSeven :
    let s : Machine := { regs := fun _ => 0, sp := 0x1000, mem := fun _ => 0 }
    let entry := isrSyscallEntry 0 answerSeven s
    let args := entry.regs .rdi
    let returned := isrSyscallRun 0 answerSeven s
    (∀ field, scArg entry.mem args field = s.regs (docRegister field)) ∧
      (∀ result ∈ scResults, returned.regs result.1 = scArg (answerSeven entry).mem args result.2) ∧
      (∀ register, (∀ result ∈ scResults, result.1 ≠ register) → returned.regs register = s.regs register) ∧
      returned.sp = s.sp :=
  isrSyscall_marshals ⟨fun _ => rfl, fun _ _ _ => rfl⟩

end Bwuhos.Isr
