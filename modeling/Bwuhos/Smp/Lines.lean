import Bwuhos.AtaPio.Select
import Bwuhos.Data.LockFree
import Bwuhos.Smp.Print

namespace Bwuhos.Smp

open Bwuhos.Data Program TransitionSystem
open Bwuhos.Locking (Mutex Env LogType PrintArg portCom1 fmtMod argsLeft logPrefix)
open Bwuhos.Kutil (Written)

/-! # Lines of the console

What any number of processors send to the serial port with `ku_println`.  The line feed at
the end of a line is sent without the mutex of `ku_print_v`, so it is left out of what is
looked at here.
-/

def converted (conv : Char) (mod : Nat) (args : List PrintArg) : List Char :=
  match args.head?.bind (convWritten conv mod) with
  | some written => written.chars
  | none => []

/-- The text that `ku_print_v` sends for a message, if it comes to the end of the message. -/
def rendered : List Char → List PrintArg → Option (List Char)
  | [], _ => some []
  | [c], _ => if c = '%' then none else some [c]
  | c :: d :: rest, args =>
      if c ≠ '%' then (rendered (d :: rest) args).map (c :: ·)
      else if d = '%' then (rendered rest args).map (c :: ·)
      else if fmtMod d = 0 then
        match argsLeft d args with
        | none => none
        | some left => (rendered rest left).map (converted d 0 args ++ ·)
      else
        match rest with
        | [] => none
        | conv :: rest =>
            match argsLeft conv args with
            | none => none
            | some left => (rendered rest left).map (converted conv (fmtMod d) args ++ ·)

structure LineCall where
  type : LogType
  msg : String
  args : List PrintArg

def LineCall.text (call : LineCall) : Option (List Char) :=
  (rendered call.msg.toList call.args).map (logPrefix call.type ++ ·)

section

variable {World : Type}

/-- A machine that keeps a log of the accesses to its ports. -/
def serialEnv (ports : Ports World) : Env (World × List PortAccess) where
  bus := { ports := ports.logged portCom1, beyond := ⟨0, 0, 0⟩ }
  platform := .zeroed
  space := .whole
  fuel := 0

def sentBy (access : PortAccess) : Option Nat :=
  if access.port = .ofNat portCom1 then access.written else none

def notLineFeed (byte : Nat) : Bool := byte ≠ 0x0a

/-- The bytes sent so far, less the line feeds.  `ku_println` sends its own only after
`ku_print_v` has given back its mutex, so those of other calls can come between. -/
def console (world : World × List PortAccess) : List Nat :=
  (world.2.filterMap sentBy).filter notLineFeed

/-- The bytes of a text, less the line feeds. -/
def bytesOf (text : List Char) : List Nat := (text.map fun c => c.toNat % 2 ^ 8).filter notLineFeed

theorem bytesOf_append (text more : List Char) : bytesOf (text ++ more) = bytesOf text ++ bytesOf more := by
  rw [bytesOf, List.map_append, List.filter_append]
  rfl

/-- A console whose calls are each one step. -/
def lineObject : AtomicObject LineCall Unit (List Nat) where
  start _ := True
  effect call out _ after := ∃ text, call.text = some text ∧ after = out ++ bytesOf text

variable {ports : Ports World} {call : LineCall}

abbrev lineRules (World : Type) (call : LineCall) : Rules Mutex (World × List PortAccess) (Stage (List Nat) Unit) :=
  sectionRules .print console (lineObject.effect call)

/-- An access that sends nothing. -/
theorem follows_same {Result : Type} {step : World × List PortAccess → Except Stop (Result × (World × List PortAccess))}
    (same : ∀ world result final, step world = .ok (result, final) → console final = console world)
    (stage : Stage (List Nat) Unit) :
    Follows (lineRules World call) (.act step) stage fun _ reached => reached = stage := by
  intro world result final stepped
  have kept := same world result final stepped
  cases stage with
  | before => exact ⟨kept, rfl⟩
  | inside first now => exact fun here => by rw [kept, here]
  | after result => exact ⟨kept, rfl⟩

theorem console_log (world next : World) (log : List PortAccess) (access : PortAccess) :
    console (next, log ++ [access]) = console (world, log) ++ (sentBy access).toList.filter notLineFeed := by
  simp only [console, List.filterMap_append, List.filter_append]
  cases sent : sentBy access with
  | none => simp [sent]
  | some byte => simp [sent]

theorem portRd_follows (stage : Stage (List Nat) Unit) :
    Follows (lineRules World call) (portRd (serialEnv ports) (portCom1 + 5) .ps8) stage
      fun _ reached => reached = stage := by
  refine follows_same (fun world result final stepped => ?_) stage
  cases stepped
  refine (console_log world.1 _ world.2 _).trans ?_
  exact List.append_nil _

theorem waitStatus_follows (bits : Nat) (stage : Stage (List Nat) Unit) :
    Follows (lineRules World call) (waitStatus (serialEnv ports) bits) stage fun _ reached => reached = stage := by
  refine ⟨fun _ reached => reached = stage, rfl, fun _ reached same => ?_⟩
  subst same
  refine .bind ((portRd_follows _).mono fun status again same => ?_)
  subst same
  by_cases zero : status &&& bits = 0
  · simp only [if_pos zero]
    rfl
  · simp only [if_neg zero]
    rfl

theorem console_portWr (world : World × List PortAccess) (data : Nat) :
    console (Bwuhos.portWr (ports.logged portCom1) portCom1 data .ps8 world) =
      console world ++ [data % 2 ^ 8].filter notLineFeed :=
  console_log _ _ world.2 _

/-- A byte sent inside the section of a message. -/
theorem portWr_follows (data : Nat) (first now : List Nat) :
    Follows (lineRules World call) (portWr (serialEnv ports) portCom1 data .ps8) (.inside first now)
      fun _ stage => stage = .inside first (now ++ [data % 2 ^ 8].filter notLineFeed) := by
  intro world result final stepped here
  cases stepped
  exact congrArg (Stage.inside first) ((console_portWr world data).trans (congrArg (· ++ _) here))

theorem serial_ne_print : Mutex.serial ≠ Mutex.print := by decide

theorem spWriteCh_follows (ch : Nat) (first now : List Nat) :
    Follows (lineRules World call) (spWriteCh (serialEnv ports) ch) (.inside first now)
      fun _ stage => stage = .inside first (now ++ [ch % 2 ^ 8].filter notLineFeed) := by
  refine follows_lock serial_ne_print (.bind ((waitStatus_follows _ _).mono fun _ stage same => ?_))
  subst same
  refine .bind ((portWr_follows ch first now).mono fun _ stage sent => ?_)
  exact follows_unlock serial_ne_print sent

theorem spWriteStr_follows (s : List Char) (first now : List Nat) :
    Follows (lineRules World call) (spWriteStr (serialEnv ports) s) (.inside first now)
      fun _ stage => stage = .inside first (now ++ bytesOf s) := by
  have letters : Follows (lineRules World call) (forEach (fun c => do
      waitStatus (serialEnv ports) 0x20
      portWr (serialEnv ports) portCom1 c.toNat .ps8) s) (.inside first now)
        fun _ stage => stage = .inside first (now ++ bytesOf s) := by
    induction s generalizing now with
    | nil => exact congrArg (Stage.inside first) (List.append_nil now).symm
    | cons c rest ih =>
        refine .bind (.bind ((waitStatus_follows _ _).mono fun _ stage same => ?_))
        subst same
        refine (portWr_follows c.toNat first now).mono fun _ stage sent => ?_
        subst sent
        refine (ih _).mono fun _ stage sent => ?_
        rw [sent, List.append_assoc]
        exact congrArg (fun bytes => Stage.inside first (now ++ bytes)) (bytesOf_append [c] rest).symm
  exact follows_lock serial_ne_print (.bind (letters.mono fun _ stage sent => follows_unlock serial_ne_print sent))

/-- A line feed changes nothing of what is looked at. -/
theorem lineFeed_follows (stage : Stage (List Nat) Unit) :
    Follows (lineRules World call) (spWriteCh (serialEnv ports) 0x0a) stage fun _ reached => reached = stage := by
  refine follows_lock serial_ne_print (.bind ((waitStatus_follows _ _).mono fun _ reached same => ?_))
  subst same
  refine .bind ((follows_same (fun world result final stepped => ?_) _).mono fun _ stage same =>
    follows_unlock serial_ne_print same)
  cases stepped
  exact (console_portWr world 0x0a).trans (List.append_nil _)

theorem perform_follows (written : Written) (first now : List Nat) :
    Follows (lineRules World call) (perform (serialEnv ports) written) (.inside first now)
      fun _ stage => stage = .inside first (now ++ bytesOf written.chars) := by
  cases written with
  | ch c => exact spWriteCh_follows c.toNat first now
  | str s => exact spWriteStr_follows s first now

theorem printConv_follows (conv : Char) (mod : Nat) (args : List PrintArg) (first now : List Nat) :
    Follows (lineRules World call) (printConv (serialEnv ports) conv mod args) (.inside first now)
      fun _ stage => stage = .inside first (now ++ bytesOf (converted conv mod args)) := by
  rw [printConv, converted]
  cases args.head?.bind (convWritten conv mod) with
  | some written => exact perform_follows written first now
  | none => exact congrArg (Stage.inside first) (List.append_nil now).symm

/-- How far the section is once a text has been sent. -/
def Sent (first now : List Nat) (text : Option (List Char)) (stage : Stage (List Nat) Unit) : Prop :=
  ∃ chars, text = some chars ∧ stage = .inside first (now ++ bytesOf chars)

theorem Sent.cons {first now : List Nat} {text : Option (List Char)} {stage : Stage (List Nat) Unit} (front : List Char)
    (sent : Sent first (now ++ bytesOf front) text stage) : Sent first now (text.map (front ++ ·)) stage := by
  obtain ⟨chars, rfl, rfl⟩ := sent
  exact ⟨front ++ chars, rfl, by rw [bytesOf_append, List.append_assoc]⟩

theorem printMsg_follows (msg : List Char) (args : List PrintArg) (first now : List Nat) :
    Follows (lineRules World call) (printMsg (serialEnv ports) msg args) (.inside first now)
      fun _ stage => Sent first now (rendered msg args) stage := by
  fun_induction printMsg (serialEnv ports) msg args generalizing now with
  | case1 => exact ⟨[], rfl, congrArg (Stage.inside first) (List.append_nil now).symm⟩
  | case2 c =>
      refine .bind ((spWriteCh_follows c.toNat first now).mono fun _ stage sent => ?_)
      rw [rendered]
      split
      · trivial
      · exact ⟨[c], rfl, sent⟩
  | case3 c d rest args letter ih =>
      refine .bind ((spWriteCh_follows c.toNat first now).mono fun _ stage sent => ?_)
      subst sent
      simp only [rendered.eq_def (c :: d :: rest), if_pos letter]
      exact (ih _).mono fun _ stage sent => sent.cons [c]
  | case4 c rest args percent ih =>
      refine .bind ((spWriteCh_follows c.toNat first now).mono fun _ stage sent => ?_)
      subst sent
      simp only [rendered.eq_def (c :: '%' :: rest), if_neg percent, if_pos]
      exact (ih _).mono fun _ stage sent => sent.cons [c]
  | case5 => trivial
  | case6 c d rest args percent other plain left taken ih =>
      refine .bind ((printConv_follows d 0 args first now).mono fun _ stage sent => ?_)
      subst sent
      simp only [rendered.eq_def (c :: d :: rest), if_neg percent, if_neg other, if_pos plain, taken]
      exact (ih _).mono fun _ stage sent => sent.cons (converted d 0 args)
  | case7 => trivial
  | case8 => trivial
  | case9 c d args percent other modified conv rest left taken ih =>
      refine .bind ((printConv_follows conv (fmtMod d) args first now).mono fun _ stage sent => ?_)
      subst sent
      simp only [rendered, if_neg percent, if_neg other, if_neg modified, taken]
      exact (ih _).mono fun _ stage sent => sent.cons (converted conv (fmtMod d) args)

/-- A call of `ku_println` sends its text in one section. -/
theorem printLine_section (ports : Ports World) (call : LineCall) :
    Follows (lineRules World call) (printLine (serialEnv ports) call.type call.msg call.args) .before
      fun result stage => stage = .after result := by
  have message (first now : List Nat) (sent : now = first ++ bytesOf (logPrefix call.type)) :
      Follows (lineRules World call) (do
        printMsg (serialEnv ports) call.msg.toList call.args
        unlock .print) (.inside first now) fun _ stage => stage = .after () := by
    refine .bind ((printMsg_follows _ call.args first now).mono fun _ stage reached => ?_)
    obtain ⟨chars, text, rfl⟩ := reached
    refine follows_last ⟨logPrefix call.type ++ chars, ?_, ?_⟩
    · rw [LineCall.text, text, Option.map_some]
    · rw [sent, List.append_assoc, ← bytesOf_append]
  have printed : Follows (lineRules World call) (kuPrintV (serialEnv ports) call.type call.msg.toList call.args) .before
      fun _ stage => stage = .after () := by
    refine follows_enter fun now => ?_
    by_cases plain : call.type ≠ .none
    · simp only [plain, ne_eq, not_false_eq_true, if_true]
      exact .bind ((spWriteStr_follows _ now now).mono fun _ stage sent => sent ▸ message now _ rfl)
    · rw [not_not] at plain
      simp only [plain, ne_eq, not_true_eq_false, if_false]
      exact message now now (by rw [plain]; exact (List.append_nil now).symm)
  exact .bind (printed.mono fun _ stage reached => reached ▸ lineFeed_follows (.after ()))

open Processors

variable {Cpu : Type} [DecidableEq Cpu]

def lines (Cpu : Type) [DecidableEq Cpu] (ports : Ports World) :
    TransitionSystem (Processors Cpu Mutex Stop (World × List PortAccess) LineCall Unit)
      (Option (CallEvent Cpu LineCall Unit)) :=
  system Cpu (fun call : LineCall => printLine (serialEnv ports) call.type call.msg call.args) fun _ => True

omit [DecidableEq Cpu] in
/-- Lines one after the other. -/
theorem leads_texts {order : List (Cpu × LineCall)} {start out : List Nat} (leads : lineObject.Leads start order out) :
    (∀ pair ∈ order, pair.2.text ≠ none) ∧ out = start ++ order.flatMap fun pair => bytesOf (pair.2.text.getD []) := by
  induction order generalizing start with
  | nil =>
      obtain rfl := leads
      exact ⟨fun pair member => absurd member List.not_mem_nil, (List.append_nil out).symm⟩
  | cons pair rest ih =>
      obtain ⟨result, next, effect, later⟩ := leads
      obtain ⟨text, rendered, rfl⟩ := effect
      obtain ⟨complete, joined⟩ := ih later
      refine ⟨fun other member => ?_, ?_⟩
      · obtain rfl | tail := List.mem_cons.mp member
        · rw [rendered]
          exact Option.some_ne_none text
        · exact complete other tail
      · rw [joined, List.flatMap_cons, rendered, Option.getD_some, List.append_assoc]

/-- Whatever the order of their accesses to the serial port, the processors send the texts of
their lines whole: once all calls have returned, the console has, but for line feeds, the texts
of the calls one after the other, with those of each processor in its own order. -/
theorem println_contiguous (ports : Ports World)
    {first last : Processors Cpu Mutex Stop (World × List PortAccess) LineCall Unit}
    {labels : List (Option (CallEvent Cpu LineCall Unit))} (starts : (lines Cpu ports).initial first)
    (run : (lines Cpu ports).Run first labels last) (idle : ∀ cpu, last.running cpu = none) :
    ∃ order : List (Cpu × LineCall), (∀ cpu, ownCalls cpu order = begun cpu (visible labels)) ∧
      (∀ pair ∈ order, pair.2.text ≠ none) ∧
      console last.state = console first.state ++ order.flatMap fun pair => bytesOf (pair.2.text.getD []) := by
  have simulates : Simulates (lines Cpu ports) (lineObject.system Cpu) (Matches .print console lineObject) :=
    sections_simulate (fun _ _ => trivial) (printLine_section ports)
  obtain ⟨start, begins, same⟩ := simulates.initial first starts
  obtain ⟨others, state, ran, seen, ends⟩ := simulates.run same run
  obtain ⟨order, ordered⟩ := AtomicObject.run_ordered begins.1 ran
  obtain ⟨complete, joined⟩ := leads_texts ordered.leads
  obtain ⟨_, before⟩ := same.idle starts.1
  obtain ⟨phases, after⟩ := ends.idle idle
  refine ⟨order, fun cpu => ?_, complete, by rw [after, before, joined]⟩
  rw [← seen, ordered.own cpu, phases cpu]
  exact (List.append_nil _).symm

/-- Ports on which the transmitter is always empty. -/
def readyPorts : Ports Unit := { quietPorts with portRd8 := fun _ world => (0x20, world) }

def letter : LineCall := { type := .none, msg := .ofList ['a'], args := [] }

def quietLines : Processors Bool Mutex Stop (Unit × List PortAccess) LineCall Unit where
  running := fun _ => none
  held := fun _ => false
  state := ((), [])

theorem waitStatus_ready (log : List PortAccess) :
    Computes .outOfFuel 1 (waitStatus (serialEnv readyPorts) 0x20) ((), log) ()
      ((), log ++ [⟨portCom1, 0x3fd, .ps8, none⟩]) := by
  intro held
  simp [waitStatus, portRd, Locked.repeating, Bwuhos.portRd, serialEnv, readyPorts, Ports.logged, bind, pure,
    Locked.andThen, Locked.act, Locked.ret, run, portCom1, UInt16.ofNat]

theorem spWriteCh_ready {held : Mutex → Bool} (free : held .serial = false) (ch : Nat) (log : List PortAccess) :
    (spWriteCh (serialEnv readyPorts) ch).run .outOfFuel 1 held ((), log) = .returned () held
      ((), log ++ [⟨portCom1, 0x3fd, .ps8, none⟩] ++ [⟨portCom1, 0x3f8, .ps8, some (ch % 2 ^ 8)⟩]) := by
  refine (lock_run free _).trans (((waitStatus_ready log).bind_run _ _).trans ?_)
  exact (Computes.bind_run (.modify _ _) _ _).trans (unlock_run free)

def letterLog : List PortAccess :=
  [⟨portCom1, 0x3fd, .ps8, none⟩, ⟨portCom1, 0x3f8, .ps8, some 0x61⟩,
    ⟨portCom1, 0x3fd, .ps8, none⟩, ⟨portCom1, 0x3f8, .ps8, some 0x0a⟩]

theorem letter_run (log : List PortAccess) :
    (printLine (serialEnv readyPorts) .none (.ofList ['a']) []).run .outOfFuel 1 (fun _ => false) ((), log) =
      .returned () (fun _ => false) ((), log ++ letterLog) := by
  have message : (kuPrintV (serialEnv readyPorts) .none ['a'] []).run .outOfFuel 1 (fun _ => false) ((), log) =
      .returned () (fun _ => false)
        ((), log ++ [⟨portCom1, 0x3fd, .ps8, none⟩] ++ [⟨portCom1, 0x3f8, .ps8, some 0x61⟩]) := by
    refine (lock_run rfl _).trans ?_
    simp only [ne_eq, not_true_eq_false, if_false]
    change Locked.andThen (Locked.andThen ((spWriteCh (serialEnv readyPorts) 'a'.toNat).run .outOfFuel 1) _) _ _ _ = _
    rw [Locked.andThen, Locked.andThen, spWriteCh_ready rfl]
    exact unlock_run rfl
  simp only [printLine, String.toList_ofList]
  change Locked.andThen ((kuPrintV (serialEnv readyPorts) .none ['a'] []).run .outOfFuel 1) _ _ _ = _
  rw [Locked.andThen, message]
  refine (spWriteCh_ready rfl 0x0a _).trans ?_
  rw [List.append_assoc, List.append_assoc, List.append_assoc]
  rfl

theorem letter_alone (cpu : Bool) (log : List PortAccess) : ∃ labels,
    (lines Bool readyPorts).Run { quietLines with state := ((), log) } labels
      { quietLines with state := ((), log ++ letterLog) } ∧
        visible labels = [.begins cpu letter, .returns cpu letter ()] :=
  @call_alone Bool Mutex Stop (Unit × List PortAccess) LineCall Unit _ _ letter
    (fun call => printLine (serialEnv readyPorts) call.type call.msg call.args) (fun _ => True) .outOfFuel 1 _ _ _
    { quietLines with state := ((), log) } cpu rfl (letter_run log)

/-- Two processors print a letter each. -/
theorem println_contiguous_letters : ∃ labels last, (lines Bool readyPorts).Run quietLines labels last ∧
    visible labels = [.begins false letter, .returns false letter (), .begins true letter, .returns true letter ()] ∧
    ∃ order : List (Bool × LineCall), (∀ cpu, ownCalls cpu order = begun cpu (visible labels)) ∧
      (∀ pair ∈ order, pair.2.text ≠ none) ∧
      console last.state = console quietLines.state ++ order.flatMap fun pair => bytesOf (pair.2.text.getD []) := by
  obtain ⟨labels, begins, seen⟩ := letter_alone false []
  obtain ⟨others, ends, seenThen⟩ := letter_alone true letterLog
  refine ⟨_, _, begins.append ends, by rw [visible_append, seen, seenThen]; rfl, ?_⟩
  exact println_contiguous readyPorts ⟨fun _ => rfl, fun _ => rfl, trivial⟩ (begins.append ends) fun _ => rfl

end

end Bwuhos.Smp
