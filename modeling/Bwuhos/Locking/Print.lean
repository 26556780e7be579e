import Bwuhos.Locking

namespace Bwuhos.Locking

open Bwuhos.Data Locked

/-! # Printing

The writing half of `serial_port.c`, and `ku_println` of `kutil.c` with all it calls.
-/

def portCom1 : Nat := 0x3f8

inductive LogType where
  | none
  | info
  | warn
  | err
  | debug
deriving Repr, DecidableEq

def fmQword : Nat := 0x1

def fmDword : Nat := 0x2

def fmWord : Nat := 0x4

def fmByte : Nat := 0x8

/-- What `va_arg` takes: an integer, or the characters of a string. -/
inductive PrintArg where
  | num (n : Nat)
  | str (s : List Char)
deriving Repr, DecidableEq

section

variable {World : Type}

/-- Read the line status until the transmitter is empty. -/
def waitWrite (env : Env World) : Devices World Unit :=
  repeating .outOfFuel (fun _ => do
    let status ← portRd env (portCom1 + 5) .ps8
    return if status &&& 0x20 = 0 then .inl () else .inr ()) env.fuel ()

def spWriteCh (env : Env World) (ch : Nat) : Devices World Unit := do
  lock .serial
  waitWrite env
  portWr env portCom1 ch .ps8
  unlock .serial

def spWriteStr (env : Env World) (s : List Char) : Devices World Unit := do
  lock .serial
  forEach (fun c => do
    waitWrite env
    portWr env portCom1 c.toNat .ps8) s
  unlock .serial

/-- The digits of a number in base `2 ^ bits`, of which there are `nch`. -/
def digitText (n bits nch : Nat) : List Char :=
  (List.range nch).reverse.map fun i => Nat.digitChar (n >>> (bits * i) &&& (2 ^ bits - 1))

/-- The loop `while (nch < max && n >> bits * nch) ++nch`, with `left` rounds left. -/
def countDigits (n bits : Nat) : (left nch : Nat) → Nat
  | 0, nch => nch
  | left + 1, nch => if n >>> (bits * nch) = 0 then nch else countDigits n bits left (nch + 1)

/-- `print_fmt_x` and `print_fmt_b`, for which a digit has 4 bits and 1 bit. -/
def printDigits (env : Env World) (bits n mod : Nat) : Devices World Unit :=
  if mod &&& fmQword ≠ 0 then spWriteStr env (digitText n bits (64 / bits))
  else if mod &&& fmDword ≠ 0 then spWriteStr env (digitText n bits (32 / bits))
  else if mod &&& fmWord ≠ 0 then spWriteStr env (digitText n bits (16 / bits))
  else if mod &&& fmByte ≠ 0 then spWriteStr env (digitText n bits (8 / bits))
  else if n = 0 then spWriteCh env 0x30
  else spWriteStr env (digitText n bits (countDigits n bits (64 / bits) 0))

def printFmtX (env : Env World) (n mod : Nat) : Devices World Unit := printDigits env 4 n mod

def printFmtB (env : Env World) (n mod : Nat) : Devices World Unit := printDigits env 1 n mod

def printFmtU (env : Env World) (n : Nat) : Devices World Unit :=
  if n = 0 then spWriteCh env 0x30 else spWriteStr env (Nat.toDigits 10 n)

def printFmtS (env : Env World) (s : List Char) : Devices World Unit := spWriteStr env s

def printFmtC (env : Env World) (ch : Nat) : Devices World Unit := spWriteCh env (ch &&& 0xff)

/-- The modifier that a character stands for, or 0. -/
def fmtMod (c : Char) : Nat :=
  if c = 'Q' then fmQword else if c = 'D' then fmDword else if c = 'W' then fmWord else if c = 'B' then fmByte else 0

/-- A conversion of an integer. -/
def printNum (env : Env World) (conv : Char) (n mod : Nat) : Devices World Unit :=
  if conv = 'x' then printFmtX env n mod
  else if conv = 'b' then printFmtB env n mod
  else if conv = 'u' then printFmtU env n
  else printFmtC env n

/-- The arguments that a conversion leaves.  To take one that is not there, or is of the
wrong type, is undefined. -/
def argsLeft (conv : Char) (args : List PrintArg) : Option (List PrintArg) :=
  if conv ∈ ['x', 'b', 'u', 'c'] then
    match args with
    | .num _ :: left => some left
    | _ => none
  else if conv = 's' then
    match args with
    | .str _ :: left => some left
    | _ => none
  else some args

def printConv (env : Env World) (conv : Char) (mod : Nat) (args : List PrintArg) : Devices World Unit :=
  match args with
  | .num n :: _ => if conv ∈ ['x', 'b', 'u', 'c'] then printNum env conv n mod else return ()
  | .str s :: _ => if conv = 's' then printFmtS env s else return ()
  | [] => return ()

/-- The loop of `ku_print_v` over a message.  A message that ends in a percent sign or in a
modifier is read on behind its terminator. -/
def printMsg (env : Env World) : List Char → List PrintArg → Devices World Unit
  | [], _ => return ()
  | [c], _ => do
      spWriteCh env c.toNat
      if c = '%' then stop .outOfBounds
  | c :: d :: rest, args =>
      if c ≠ '%' then do
        spWriteCh env c.toNat
        printMsg env (d :: rest) args
      else if d = '%' then do
        spWriteCh env c.toNat
        printMsg env rest args
      else if fmtMod d = 0 then
        match argsLeft d args with
        | none => stop .outOfBounds
        | some left => do
            printConv env d 0 args
            printMsg env rest left
      else
        match rest with
        | [] => stop .outOfBounds
        | conv :: rest =>
            match argsLeft conv args with
            | none => stop .outOfBounds
            | some left => do
                printConv env conv (fmtMod d) args
                printMsg env rest left

/-- How far into a conversion a reader of a message is. -/
inductive Reading where
  | text
  | percent
  | modifier
deriving Repr, DecidableEq

/-- The message has its arguments, and each conversion is complete. -/
def fits : Reading → List Char → List PrintArg → Bool
  | reading, [], _ => reading = .text
  | reading, c :: rest, args =>
      if reading = .text then fits (if c = '%' then .percent else .text) rest args
      else if reading = .percent ∧ c = '%' then fits .text rest args
      else if reading = .percent ∧ fmtMod c ≠ 0 then fits .modifier rest args
      else
        match argsLeft c args with
        | none => false
        | some left => fits .text rest left

/-- The check of a literal reads its characters. -/
theorem fits_literal {chars : List Char} {args : List PrintArg} (fit : fits .text chars args = true) :
    fits .text (String.ofList chars).toList args = true := by
  rw [String.toList_ofList]
  exact fit

def logPrefix : LogType → List Char
  | .none => []
  | .info => "[info] ".toList
  | .warn => "[warn] ".toList
  | .err => "[err] ".toList
  | .debug => "[debug] ".toList

def kuPrintV (env : Env World) (type : LogType) (msg : List Char) (args : List PrintArg) : Devices World Unit := do
  lock .print
  if type ≠ .none then spWriteStr env (logPrefix type)
  printMsg env msg args
  unlock .print

def kuPrintln (env : Env World) (type : LogType) (msg : String) (args : List PrintArg) : Kernel World Unit :=
  onDevices do
    kuPrintV env type msg.toList args
    spWriteCh env 0x0a

variable {stops : Stop → Prop} {level : Nat} (polls : stops .outOfFuel)

include polls

theorem waitWrite_calls (env : Env World) : Calls stops level (waitWrite env) := by
  apply Balanced.repeating polls
  intro _
  exact .bind (portRd_calls env _ _) fun status => .pure _

theorem spWriteCh_calls (env : Env World) (ch : Nat) (room : 0 < level) : Calls stops level (spWriteCh env ch) := by
  apply Balanced.lock (show Mutex.rank .serial < level from room)
  apply Releases.bind (waitWrite_calls polls env)
  intro _
  exact .bind (portWr_calls env _ _ _) fun _ => .last

theorem spWriteStr_calls (env : Env World) (s : List Char) (room : 0 < level) :
    Calls stops level (spWriteStr env s) := by
  apply Balanced.lock (show Mutex.rank .serial < level from room)
  apply Releases.bind
  · apply Balanced.forEach
    intro c _
    exact .bind (waitWrite_calls polls env) fun _ => portWr_calls env _ _ _
  · intro _
    exact .last

theorem printDigits_calls (env : Env World) (bits n mod : Nat) (room : 0 < level) :
    Calls stops level (printDigits env bits n mod) := by
  have digits (text : List Char) : Calls stops level (spWriteStr env text) := spWriteStr_calls polls env text room
  simp only [printDigits]
  split
  · exact digits _
  · split
    · exact digits _
    · split
      · exact digits _
      · split
        · exact digits _
        · split
          · exact spWriteCh_calls polls env _ room
          · exact digits _

theorem printNum_calls (env : Env World) (conv : Char) (n mod : Nat) (room : 0 < level) :
    Calls stops level (printNum env conv n mod) := by
  simp only [printNum, printFmtU]
  split
  · exact printDigits_calls polls env 4 n mod room
  · split
    · exact printDigits_calls polls env 1 n mod room
    · split
      · split
        · exact spWriteCh_calls polls env _ room
        · exact spWriteStr_calls polls env _ room
      · exact spWriteCh_calls polls env _ room

theorem printConv_calls (env : Env World) (conv : Char) (mod : Nat) (args : List PrintArg) (room : 0 < level) :
    Calls stops level (printConv env conv mod args) := by
  simp only [printConv]
  split
  · split
    · exact printNum_calls polls env conv _ mod room
    · exact .pure _
  · split
    · exact spWriteStr_calls polls env _ room
    · exact .pure _
  · exact .pure _

theorem printMsg_calls (env : Env World) (msg : List Char) (args : List PrintArg) (fit : fits .text msg args = true)
    (room : 0 < level) : Calls stops level (printMsg env msg args) := by
  fun_induction printMsg env msg args with
  | case1 => exact .pure ()
  | case2 c =>
      have letter : c ≠ '%' := by
        intro percent
        simp [fits, percent] at fit
      refine .bind (spWriteCh_calls polls env _ room) fun _ => ?_
      rw [if_neg letter]
      exact .pure ()
  | case3 c d rest args letter ih =>
      rw [fits, if_pos rfl, if_neg letter] at fit
      exact .bind (spWriteCh_calls polls env _ room) fun _ => ih fit
  | case4 c rest args percent ih =>
      have next : fits .text rest args = true := by simpa [fits, not_not.mp percent] using fit
      exact .bind (spWriteCh_calls polls env _ room) fun _ => ih next
  | case5 c d rest args percent other plain missing =>
      simp [fits, not_not.mp percent, other, plain, missing] at fit
  | case6 c d rest args percent other plain left taken ih =>
      have next : fits .text rest left = true := by simpa [fits, not_not.mp percent, other, plain, taken] using fit
      exact .bind (printConv_calls polls env d 0 args room) fun _ => ih next
  | case7 c d args percent other modified => simp [fits, not_not.mp percent, other, modified] at fit
  | case8 c d args percent other modified conv rest missing =>
      simp [fits, not_not.mp percent, other, modified, missing] at fit
  | case9 c d args percent other modified conv rest left taken ih =>
      have next : fits .text rest left = true := by simpa [fits, not_not.mp percent, other, modified, taken] using fit
      exact .bind (printConv_calls polls env conv _ args room) fun _ => ih next

theorem kuPrintV_calls (env : Env World) (type : LogType) (msg : List Char) (args : List PrintArg)
    (fit : fits .text msg args = true) (room : 1 < level) : Calls stops level (kuPrintV env type msg args) := by
  have message : Section stops .print (do
      printMsg env msg args
      unlock .print : Devices World Unit) :=
    .bind (printMsg_calls polls env msg args fit Nat.zero_lt_one) fun _ => .last
  apply Balanced.lock (show Mutex.rank .print < level from room)
  by_cases plain : type ≠ .none
  · simp only [plain, ne_eq, not_false_eq_true, if_true]
    exact .bind (spWriteStr_calls polls env _ Nat.zero_lt_one) fun _ => message
  · simp only [plain, if_false]
    exact message

theorem kuPrintln_calls (env : Env World) (type : LogType) (msg : String) (args : List PrintArg)
    (fit : fits .text msg.toList args = true) (room : 1 < level) :
    Calls stops level (kuPrintln env type msg args) := by
  apply Balanced.zoom
  apply Balanced.bind (kuPrintV_calls polls env type msg.toList args fit room)
  intro _
  exact spWriteCh_calls polls env _ (Nat.lt_of_succ_lt room)

omit polls in
/-- A message changes nothing but the devices. -/
theorem kuPrintln_returned {env : Env World} {type : LogType} {msg : String} {args : List PrintArg}
    {held after : Mutex → Bool} {machine final : Machine World}
    (returned : kuPrintln env type msg args held machine = .returned () after final) :
    ∃ world, final = { machine with world } := by
  obtain ⟨world, _, changed⟩ := onDevices_returned returned
  exact ⟨world, changed⟩

end

end Bwuhos.Locking
