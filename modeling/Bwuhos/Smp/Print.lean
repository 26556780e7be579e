import Bwuhos.Data.Nested
import Bwuhos.Kutil.Digits

namespace Bwuhos.Smp

open Bwuhos.Data Program
open Bwuhos.Locking (Mutex Machine Env LogType PrintArg portCom1 digitText countDigits fmQword fmDword fmWord fmByte
  fmtMod argsLeft logPrefix)
open Bwuhos.Kutil (Written)

/-! # Printing, step by step

`serial_port.c` and `ku_println` with all it calls, as programs of which every access to a
port is one step.
-/

abbrev Kernel (World Result : Type) : Type 1 := Program Mutex Stop (Machine World) Result

/-- What acts on the devices alone. -/
abbrev Devices (World Result : Type) : Type 1 := Program Mutex Stop World Result

def onDevices {World Result : Type} (call : Devices World Result) : Kernel World Result :=
  zoom (fun machine => machine.world) (fun world machine => { machine with world }) call

section

variable {World : Type}

def portRd (env : Env World) (p : Nat) (size : PortSize) : Devices World Nat :=
  act fun world => .ok (Bwuhos.portRd env.bus.ports p size world)

def portWr (env : Env World) (p data : Nat) (size : PortSize) : Devices World Unit :=
  modify (Bwuhos.portWr env.bus.ports p data size)

/-- Read the line status until one of these bits is set. -/
def waitStatus (env : Env World) (bits : Nat) : Devices World Unit :=
  repeating (fun _ => do
    let status ← portRd env (portCom1 + 5) .ps8
    return if status &&& bits = 0 then .inl () else .inr ()) ()

def spReadCh (env : Env World) : Devices World Nat := do
  lock .serial
  waitStatus env 0x1
  let ch ← portRd env portCom1 .ps8
  unlock .serial
  return ch

def spWriteCh (env : Env World) (ch : Nat) : Devices World Unit := do
  lock .serial
  waitStatus env 0x20
  portWr env portCom1 ch .ps8
  unlock .serial

def spWriteStr (env : Env World) (s : List Char) : Devices World Unit := do
  lock .serial
  forEach (fun c => do
    waitStatus env 0x20
    portWr env portCom1 c.toNat .ps8) s
  unlock .serial

/-- What `print_fmt_x` and `print_fmt_b` hand to the serial port.  A digit has 4 bits and 1 bit. -/
def digitsWritten (bits n mod : Nat) : Written :=
  if mod &&& fmQword ≠ 0 then .str (digitText n bits (64 / bits))
  else if mod &&& fmDword ≠ 0 then .str (digitText n bits (32 / bits))
  else if mod &&& fmWord ≠ 0 then .str (digitText n bits (16 / bits))
  else if mod &&& fmByte ≠ 0 then .str (digitText n bits (8 / bits))
  else if n = 0 then .ch '0'
  else .str (digitText n bits (countDigits n bits (64 / bits) 0))

def decimalWritten (n : Nat) : Written := if n = 0 then .ch '0' else .str (Nat.toDigits 10 n)

/-- What a conversion of an argument hands on: that of the functions `print_fmt_x`,
`print_fmt_b`, `print_fmt_u`, `print_fmt_c` and `print_fmt_s` which it calls. -/
def convWritten (conv : Char) (mod : Nat) : PrintArg → Option Written
  | .num n =>
      if conv = 'x' then some (digitsWritten 4 n mod)
      else if conv = 'b' then some (digitsWritten 1 n mod)
      else if conv = 'u' then some (decimalWritten n)
      else if conv = 'c' then some (.ch (Char.ofNat (n &&& 0xff)))
      else none
  | .str s => if conv = 's' then some (.str s) else none

def perform (env : Env World) : Written → Devices World Unit
  | .ch c => spWriteCh env c.toNat
  | .str s => spWriteStr env s

def printConv (env : Env World) (conv : Char) (mod : Nat) (args : List PrintArg) : Devices World Unit :=
  match args.head?.bind (convWritten conv mod) with
  | some written => perform env written
  | none => return ()

/-- The loop of `ku_print_v` over a message. -/
def printMsg (env : Env World) : List Char → List PrintArg → Devices World Unit
  | [], _ => return ()
  | [c], _ => do
      spWriteCh env c.toNat
      if c = '%' then stop .outOfBounds
  | c :: d :: rest, args =>
      if c ≠ '%' then do
        spWriteCh env c.toNat
        printMsg env (d :: rest) args
      else if d = '%' then do
        spWriteCh env c.toNat
        printMsg env rest args
      else if fmtMod d = 0 then
        match argsLeft d args with
        | none => stop .outOfBounds
        | some left => do
            printConv env d 0 args
            printMsg env rest left
      else
        match rest with
        | [] => stop .outOfBounds
        | conv :: rest =>
            match argsLeft conv args with
            | none => stop .outOfBounds
            | some left => do
                printConv env conv (fmtMod d) args
                printMsg env rest left

def kuPrintV (env : Env World) (type : LogType) (msg : List Char) (args : List PrintArg) : Devices World Unit := do
  lock .print
  if type ≠ .none then spWriteStr env (logPrefix type)
  printMsg env msg args
  unlock .print

/-- `ku_println` by the devices that it acts on. -/
def printLine (env : Env World) (type : LogType) (msg : String) (args : List PrintArg) : Devices World Unit := do
  kuPrintV env type msg.toList args
  spWriteCh env 0x0a

def kuPrintln (env : Env World) (type : LogType) (msg : String) (args : List PrintArg) : Kernel World Unit :=
  onDevices (printLine env type msg args)

/-! ## One processor

With no other beside it, a program is the function of the model with mutexes.
-/

@[simp] theorem portRd_run (env : Env World) (p : Nat) (size : PortSize) :
    (portRd env p size).run .outOfFuel env.fuel = Locking.portRd env p size := rfl

@[simp] theorem portWr_run (env : Env World) (p data : Nat) (size : PortSize) :
    (portWr env p data size).run .outOfFuel env.fuel = Locking.portWr env p data size := rfl

@[simp] theorem waitStatus_run (env : Env World) :
    (waitStatus env 0x20).run .outOfFuel env.fuel = Locking.waitWrite env := rfl

@[simp] theorem spWriteCh_run (env : Env World) (ch : Nat) :
    (spWriteCh env ch).run .outOfFuel env.fuel = Locking.spWriteCh env ch := rfl

@[simp] theorem spWriteStr_run (env : Env World) (s : List Char) :
    (spWriteStr env s).run .outOfFuel env.fuel = Locking.spWriteStr env s := by
  simp only [spWriteStr, Locking.spWriteStr, run_bind, run_lock, run_unlock, run_forEach, waitStatus_run, portWr_run]

@[simp] theorem perform_run (env : Env World) (written : Written) :
    (perform env written).run .outOfFuel env.fuel = Kutil.performWritten env written := by
  cases written with
  | ch c => rfl
  | str s => exact spWriteStr_run env s

theorem digitsWritten_performs (env : Env World) (bits n mod : Nat) :
    Kutil.performWritten env (digitsWritten bits n mod) = Locking.printDigits env bits n mod := by
  simp only [digitsWritten, Locking.printDigits]
  split
  · rfl
  · split
    · rfl
    · split
      · rfl
      · split
        · rfl
        · split <;> rfl

theorem byteChar_toNat (n : Nat) : (Char.ofNat (n &&& 0xff)).toNat = n &&& 0xff := by
  have small : n &&& 0xff < 0x100 := Nat.lt_of_le_of_lt Nat.and_le_right (by decide)
  have valid : (n &&& 0xff).isValidChar := Or.inl (Nat.lt_trans small (by decide))
  rw [Char.ofNat, dif_pos valid]
  rfl

theorem printNum_run (env : Env World) (conv : Char) (n mod : Nat) (args : List PrintArg)
    (known : conv ∈ ['x', 'b', 'u', 'c']) :
    (printConv env conv mod (.num n :: args)).run .outOfFuel env.fuel = Locking.printNum env conv n mod := by
  simp only [List.mem_cons, List.not_mem_nil, or_false] at known
  obtain rfl | rfl | rfl | rfl := known
  · exact (perform_run env _).trans (digitsWritten_performs env 4 n mod)
  · exact (perform_run env _).trans (digitsWritten_performs env 1 n mod)
  · refine (perform_run env (decimalWritten n)).trans ?_
    change _ = Locking.printFmtU env n
    rw [decimalWritten, Locking.printFmtU]
    split <;> rfl
  · change Locking.spWriteCh env (Char.ofNat (n &&& 0xff)).toNat = Locking.spWriteCh env (n &&& 0xff)
    rw [byteChar_toNat]

theorem printConv_run (env : Env World) (conv : Char) (mod : Nat) (args : List PrintArg) :
    (printConv env conv mod args).run .outOfFuel env.fuel = Locking.printConv env conv mod args := by
  cases args with
  | nil => rfl
  | cons arg rest =>
      cases arg with
      | str s =>
          simp only [printConv, Locking.printConv, List.head?_cons, Option.bind_some, convWritten, Locking.printFmtS]
          by_cases string : conv = 's'
          · simp only [if_pos string, perform_run, Kutil.performWritten]
          · simp only [if_neg string, run_pure]
      | num n =>
          by_cases known : conv ∈ ['x', 'b', 'u', 'c']
          · rw [printNum_run env conv n mod rest known, Locking.printConv, if_pos known]
          · have none : convWritten conv mod (.num n) = none := by
              simp only [List.mem_cons, List.not_mem_nil, or_false, not_or] at known
              simp only [convWritten, if_neg known.1, if_neg known.2.1, if_neg known.2.2.1, if_neg known.2.2.2]
            simp only [printConv, List.head?_cons, Option.bind_some, none, Locking.printConv, if_neg known, run_pure]

theorem printMsg_run (env : Env World) (msg : List Char) (args : List PrintArg) :
    (printMsg env msg args).run .outOfFuel env.fuel = Locking.printMsg env msg args := by
  fun_induction printMsg env msg args with
  | case1 => rfl
  | case2 c => simp only [Locking.printMsg, run_bind, run_ite, run_stop, run_pure, spWriteCh_run]
  | case3 c d rest args letter ih =>
      unfold Locking.printMsg
      simp only [if_pos letter, run_bind, spWriteCh_run, ih]
  | case4 c rest args percent ih =>
      unfold Locking.printMsg
      simp only [if_neg percent, if_true, run_bind, spWriteCh_run, ih]
  | case5 c d rest args percent other plain missing =>
      unfold Locking.printMsg
      simp only [if_neg percent, if_neg other, if_pos plain, missing, run_stop]
  | case6 c d rest args percent other plain left taken ih =>
      unfold Locking.printMsg
      simp only [if_neg percent, if_neg other, if_pos plain, taken, run_bind, printConv_run, ih]
  | case7 c d args percent other modified =>
      unfold Locking.printMsg
      simp only [if_neg percent, if_neg other, if_neg modified, run_stop]
  | case8 c d args percent other modified conv rest missing =>
      unfold Locking.printMsg
      simp only [if_neg percent, if_neg other, if_neg modified, missing, run_stop]
  | case9 c d args percent other modified conv rest left taken ih =>
      unfold Locking.printMsg
      simp only [if_neg percent, if_neg other, if_neg modified, taken, run_bind, printConv_run, ih]

theorem devices_lens : Lens (fun machine : Machine World => machine.world) fun world machine =>
    { machine with world } where
  view_put _ _ := rfl
  put_view _ := rfl
  put_put _ _ _ := rfl

theorem kuPrintln_run (env : Env World) (type : LogType) (msg : String) (args : List PrintArg) :
    (kuPrintln env type msg args).run .outOfFuel env.fuel = Locking.kuPrintln env type msg args := by
  refine (run_zoom devices_lens _).trans (congrArg (Locked.zoom _ _) ?_)
  simp only [printLine, kuPrintV, Locking.kuPrintV, run_bind, run_lock, run_unlock, run_ite, spWriteStr_run,
    spWriteCh_run, printMsg_run]

/-- Nothing but the devices changes. -/
def DevicesOnly (machine final : Machine World) : Prop := ∃ world, final = { machine with world }

abbrev NestedCall {State Result : Type} (level : Nat) (keep : State → State → Prop)
    (call : Program Mutex Stop State Result) : Prop :=
  Nested Mutex.rank level keep call

def anything {State : Type} (_ _ : State) : Prop := True

theorem portRd_nested (env : Env World) (p : Nat) (size : PortSize) (level : Nat) :
    NestedCall level anything (portRd env p size) := .act fun _ _ _ _ => trivial

theorem portWr_nested (env : Env World) (p data : Nat) (size : PortSize) (level : Nat) :
    NestedCall level anything (portWr env p data size) := .modify fun _ => trivial

theorem waitStatus_nested (env : Env World) (bits level : Nat) : NestedCall level anything (waitStatus env bits) :=
  .repeating (fun _ => .bind (portRd_nested env _ _ _) fun _ => .pure _) ()

theorem spWriteCh_nested (env : Env World) (ch : Nat) {level : Nat} (room : 0 < level) :
    NestedCall level anything (spWriteCh env ch) := by
  apply Nested.lock (show Mutex.rank .serial < level from room)
  refine .bind (waitStatus_nested env _ _) (Nat.zero_le _) fun _ => ?_
  exact .bind (portWr_nested env _ _ _ _) (Nat.zero_le _) fun _ => .last

theorem spReadCh_nested (env : Env World) {level : Nat} (room : 0 < level) :
    NestedCall level anything (spReadCh env) := by
  apply Nested.lock (show Mutex.rank .serial < level from room)
  refine .bind (waitStatus_nested env _ _) (Nat.zero_le _) fun _ => ?_
  exact .bind (portRd_nested env _ _ _) (Nat.zero_le _) fun ch => .unlock (.pure _)

theorem spWriteStr_nested (env : Env World) (s : List Char) {level : Nat} (room : 0 < level) :
    NestedCall level anything (spWriteStr env s) := by
  apply Nested.lock (show Mutex.rank .serial < level from room)
  refine .bind (.forEach s fun c => ?_) (Nat.zero_le _) fun _ => .last
  exact .bind (waitStatus_nested env _ _) fun _ => portWr_nested env _ _ _ _

theorem perform_nested (env : Env World) (written : Written) {level : Nat} (room : 0 < level) :
    NestedCall level anything (perform env written) := by
  cases written with
  | ch c => exact spWriteCh_nested env _ room
  | str s => exact spWriteStr_nested env s room

theorem printConv_nested (env : Env World) (conv : Char) (mod : Nat) (args : List PrintArg) {level : Nat}
    (room : 0 < level) : NestedCall level anything (printConv env conv mod args) := by
  unfold printConv
  split
  · exact perform_nested env _ room
  · exact .pure _

theorem printMsg_nested (env : Env World) (msg : List Char) (args : List PrintArg) {level : Nat} (room : 0 < level) :
    NestedCall level anything (printMsg env msg args) := by
  fun_induction printMsg env msg args with
  | case1 => exact .pure ()
  | case2 c =>
      refine .bind (spWriteCh_nested env _ room) fun _ => ?_
      split
      · exact .stop _
      · exact .pure _
  | case3 c d rest args letter ih => exact .bind (spWriteCh_nested env _ room) fun _ => ih
  | case4 c rest args percent ih => exact .bind (spWriteCh_nested env _ room) fun _ => ih
  | case5 => exact .stop _
  | case6 c d rest args percent other plain left taken ih =>
      exact .bind (printConv_nested env d 0 args room) fun _ => ih
  | case7 => exact .stop _
  | case8 => exact .stop _
  | case9 c d args percent other modified conv rest left taken ih =>
      exact .bind (printConv_nested env conv _ args room) fun _ => ih

theorem kuPrintV_nested (env : Env World) (type : LogType) (msg : List Char) (args : List PrintArg) {level : Nat}
    (room : 1 < level) : NestedCall level anything (kuPrintV env type msg args) := by
  have message : Releasing Mutex.rank level anything .print (do
      printMsg env msg args
      unlock .print : Devices World Unit) :=
    .bind (printMsg_nested env msg args Nat.zero_lt_one) (Nat.le_of_lt room) fun _ => .last
  apply Nested.lock (show Mutex.rank .print < level from room)
  by_cases plain : type ≠ .none
  · simp only [plain, ne_eq, not_false_eq_true, if_true]
    exact .bind (spWriteStr_nested env _ Nat.zero_lt_one) (Nat.le_of_lt room) fun _ => message
  · simp only [plain, if_false]
    exact message

theorem kuPrintln_nested (env : Env World) (type : LogType) (msg : String) (args : List PrintArg) {level : Nat}
    (room : 1 < level) : NestedCall level DevicesOnly (kuPrintln env type msg args) := by
  refine Nested.zoom anything (.bind (kuPrintV_nested env type msg.toList args room) fun _ => ?_) ?_
  · exact spWriteCh_nested env _ (Nat.lt_of_succ_lt room)
  · exact fun machine world _ => ⟨world, rfl⟩

end

end Bwuhos.Smp
