import Bwuhos.BlkCache.LowMemory
import Bwuhos.Locking.Storage

namespace Bwuhos.Locking

open Bwuhos.Data Locked

/-! # What the functions with mutexes return

A function with mutexes that returns does what the one without them does.
-/

section

variable {World : Type} {env : Env World} {held after : Mutex → Bool} {machine final : Machine World}

/-- The last unlock of a function changes nothing else. -/
theorem unlocked_returned {Result : Type} {mutex : Mutex} {value result : Result}
    (returned : (do
      unlock mutex
      return value : Kernel World Result) held machine = .returned result after final) :
    value = result ∧ machine = final := by
  obtain ⟨_, _, given, gives, ends⟩ := bind_returned returned
  obtain rfl := unlock_returned gives
  exact pure_returned ends

theorem printed_returned {Result : Type} {type : LogType} {msg : String} {args : List PrintArg} {mutex : Mutex}
    {value result : Result}
    (returned : (do
      kuPrintln env type msg args
      unlock mutex
      return value : Kernel World Result) held machine = .returned result after final) :
    value = result ∧ ∃ world, final = { machine with world } := by
  obtain ⟨_, _, printed, prints, ends⟩ := bind_returned returned
  obtain ⟨world, rfl⟩ := kuPrintln_returned prints
  obtain ⟨same, rfl⟩ := unlocked_returned ends
  exact ⟨same, world, rfl⟩

theorem pmmAlloc_returned {paddr : Nat} (returned : pmmAlloc env held machine = .returned paddr after final) :
    Bwuhos.pmmAlloc machine.pmm = (paddr, final.pmm) := by
  obtain ⟨_, _, _, taken, rest⟩ := bind_returned returned
  obtain rfl := lock_returned taken
  obtain ⟨_, _, _, feeds, rest⟩ := bind_returned rest
  obtain rfl := modify_returned feeds
  obtain ⟨_, _, _, reads, rest⟩ := bind_returned rest
  obtain ⟨rfl, rfl⟩ := get_returned reads
  unfold Bwuhos.pmmAlloc
  dsimp only at rest ⊢
  generalize (if machine.pmm.pageStk.isEmpty = true then bmFeedStk machine.pmm else machine.pmm) = fed at rest
  cases stacked : fed.pageStk with
  | nil =>
      rw [stacked] at rest
      obtain ⟨rfl, world, rfl⟩ := printed_returned rest
      rfl
  | cons top stk =>
      rw [stacked] at rest
      obtain ⟨_, _, _, pops, rest⟩ := bind_returned rest
      obtain rfl := modify_returned pops
      obtain ⟨rfl, rfl⟩ := unlocked_returned rest
      rfl

theorem pmmFree_returned {addr : Nat} (returned : pmmFree addr held machine = .returned () after final) :
    final.pmm = Bwuhos.pmmFree machine.pmm addr := by
  obtain ⟨_, _, _, taken, rest⟩ := bind_returned returned
  obtain rfl := lock_returned taken
  obtain ⟨_, _, _, finds, rest⟩ := bind_returned rest
  obtain ⟨rfl, rfl⟩ := get_returned finds
  unfold Bwuhos.pmmFree
  dsimp only at rest ⊢
  cases found : machine.pmm.pageBms.find? (·.contains (pageOf addr)) with
  | none =>
      rw [found] at rest
      obtain rfl := unlock_returned rest
      rfl
  | some bm =>
      rw [found] at rest
      obtain ⟨_, _, _, clears, gives⟩ := bind_returned rest
      obtain rfl := modify_returned clears
      obtain rfl := unlock_returned gives
      rfl

theorem portRd_returned {p value : Nat} {size : PortSize} {world next : World}
    (returned : portRd env p size held world = .returned value after next) :
    Bwuhos.portRd env.bus.ports p size world = (value, next) :=
  Except.ok.inj (act_returned returned)

theorem clearAddr_returned {busIoPort : Nat} {size : PortSize} {next : World} {s : AtaState World}
    (returned : clearAddr env busIoPort size held s.world = .returned () after next) :
    Bwuhos.clearAddr env.bus busIoPort size s = { s with world := next } := by
  unfold clearAddr at returned
  unfold Bwuhos.clearAddr
  generalize [irSectorCnt, irSectorNum, irCylLow, irCylHigh] = regs at returned ⊢
  induction regs generalizing s held with
  | nil =>
      obtain ⟨_, rfl⟩ := pure_returned returned
      rfl
  | cons reg rest ih =>
      obtain ⟨_, _, _, writes, remaining⟩ := bind_returned returned
      obtain rfl := modify_returned writes
      exact @ih _ (s.portWr env.bus (busIoPort + reg) 0 size) remaining

/-- Both models read the status in the same rounds. -/
theorem repeating_returned {busIoPort fuel status last : Nat} {done : Nat → Prop} [DecidablePred done]
    {again : Nat → Bool} (opposite : ∀ status, again status = true ↔ ¬done status) {world next : World}
    (returned : repeating .outOfFuel (fun status => do
      if done status then return .inr status
      let next ← portRd env (busIoPort + irStatus) .ps8
      return .inl next : Nat → Devices World (Nat ⊕ Nat)) fuel status held world = .returned last after next) :
    pollWhile env.bus busIoPort again fuel (status, world) = .ok (last, next) := by
  induction fuel generalizing status held world with
  | zero => cases returned
  | succ fuel ih =>
      obtain ⟨outcome, _, _, rounds, rest⟩ := bind_returned returned
      unfold pollWhile at ih ⊢
      dsimp only at rounds
      by_cases finished : done status
      · rw [if_pos finished] at rounds
        obtain ⟨rfl, rfl⟩ := pure_returned rounds
        obtain ⟨rfl, rfl⟩ := pure_returned rest
        refine loop_done ?_
        rw [if_neg fun more => (opposite status).mp more finished]
      · rw [if_neg finished] at rounds
        obtain ⟨value, _, _, reads, gives⟩ := bind_returned rounds
        obtain ⟨rfl, rfl⟩ := pure_returned gives
        refine (loop_next ?_).trans (ih rest)
        rw [if_pos ((opposite status).mpr finished), portRd_returned reads]

theorem waitIdentify_returned {busIoPort status last : Nat} {world next : World}
    (returned : waitIdentify env busIoPort status held world = .returned last after next) :
    Bwuhos.waitIdentify env.bus busIoPort env.fuel (status, world) = .ok (last, next) := by
  obtain ⟨idle, _, middle, first, rest⟩ := bind_returned returned
  have settled := @repeating_returned World env _ _ busIoPort env.fuel status idle (fun status => status &&& sBsy = 0)
    _ (fun status => status &&& sBsy ≠ 0) (by simp) world middle first
  rw [Bwuhos.waitIdentify, settled]
  exact @repeating_returned World env _ _ busIoPort env.fuel idle last
    (fun status => ¬(status &&& sDrq = 0 ∧ status &&& sErr = 0)) _
    (fun status => status &&& sDrq = 0 ∧ status &&& sErr = 0) (by simp) middle next rest

theorem readIdWords_returned {busIoPort count : Nat} {words : List Nat} {world next : World}
    (returned : readIdWords env busIoPort count held world = .returned words after next) :
    Bwuhos.readIdWords env.bus busIoPort count world = (words, next) := by
  induction count generalizing held after world words with
  | zero =>
      obtain ⟨rfl, rfl⟩ := pure_returned returned
      rfl
  | succ count ih =>
      obtain ⟨word, _, _, reads, remaining⟩ := bind_returned returned
      obtain ⟨rest, _, _, later, gives⟩ := bind_returned remaining
      obtain ⟨rfl, rfl⟩ := pure_returned gives
      rw [Bwuhos.readIdWords, portRd_returned reads, ih later]

/-- A call on the devices, and the rest on a machine with other devices. -/
theorem onDevices_bind_returned {Result Next : Type} {call : Devices World Result}
    {rest : Result → Kernel World Next} {result : Next}
    (returned : (onDevices call >>= rest) held machine = .returned result after final) :
    ∃ (value : Result) (between : Mutex → Bool) (middle : Machine World),
      call held machine.world = .returned value between middle.world ∧
        rest value between middle = .returned result after final := by
  obtain ⟨value, between, _, calls, remaining⟩ := bind_returned returned
  obtain ⟨world, called, rfl⟩ := onDevices_returned calls
  exact ⟨value, between, _, called, remaining⟩

/-- A device that is found is the one that the model without mutexes finds. -/
theorem ataPioDevGet_returned {busIoPort busCtlPort devNum ret : Nat} {found : Option AtaPioDev}
    (returned : ataPioDevGet env busIoPort busCtlPort devNum held machine = .returned (ret, found) after final)
    (out : AtaPioDev) : ∃ got,
      Bwuhos.ataPioDevGet env.bus env.fuel out busIoPort busCtlPort devNum machine.toAtaState = .ok got ∧
      got.ret = ret ∧ ∀ dev, found = some dev → got.out = dev := by
  obtain ⟨_, _, _, taken, rest⟩ := bind_returned returned
  obtain rfl := lock_returned taken
  obtain ⟨_, _, _, selects, rest⟩ := bind_returned rest
  obtain rfl := modify_returned selects
  obtain ⟨_, _, first, words, rest⟩ := onDevices_bind_returned rest
  obtain ⟨_, _, second, bytes, rest⟩ := onDevices_bind_returned rest
  obtain ⟨_, _, third, command, rest⟩ := onDevices_bind_returned rest
  obtain ⟨status, _, fourth, reads, rest⟩ := onDevices_bind_returned rest
  have issued : (issueGet env.bus busIoPort devNum machine.toAtaState).world = third.world := by
    have cleared := @clearAddr_returned World env _ _ busIoPort .ps16 first.world
      (Bwuhos.selDrive env.bus busIoPort devNum (0xa ||| devNum) machine.toAtaState) words
    have again := @clearAddr_returned World env _ _ busIoPort .ps8 second.world
      { Bwuhos.selDrive env.bus busIoPort devNum (0xa ||| devNum) machine.toAtaState with world := first.world } bytes
    rw [issueGet, cleared, again]
    exact modify_returned command
  unfold Bwuhos.ataPioDevGet
  simp only [issued, portRd_returned reads]
  split at rest
  · next absent =>
      cases (printed_returned rest).1
      rw [if_pos absent]
      exact ⟨_, rfl, rfl, fun _ none => by cases none⟩
  · next present =>
      rw [if_neg present]
      obtain ⟨status, _, fifth, waits, rest⟩ := onDevices_bind_returned rest
      rw [waitIdentify_returned waits]
      simp only [bind, Except.bind]
      split at rest
      · next failed =>
          cases (printed_returned rest).1
          rw [if_pos failed]
          exact ⟨_, rfl, rfl, fun _ none => by cases none⟩
      · next succeeded =>
          rw [if_neg succeeded]
          obtain ⟨idBuf, _, sixth, reads, rest⟩ := onDevices_bind_returned rest
          rw [readIdWords_returned reads]
          dsimp only at rest
          split at rest
          · next unsupported =>
              cases (printed_returned rest).1
              refine ⟨_, if_pos (by exact unsupported), rfl, fun dev same => ?_⟩
              cases same
              rfl
          · next supported =>
              cases (unlocked_returned rest).1
              refine ⟨_, if_neg (by exact supported), rfl, fun dev same => ?_⟩
              cases same
              rfl

theorem ataPioDevId_returned {dev : AtaPioDev} {ret : Nat} {outId : List Nat}
    (returned : ataPioDevId env dev held machine = .returned (ret, outId) after final) : ∃ state,
      Bwuhos.ataPioDevId env.bus env.fuel dev machine.toAtaState = .ok { ret, outId, state } := by
  obtain ⟨_, _, _, taken, rest⟩ := bind_returned returned
  obtain rfl := lock_returned taken
  obtain ⟨_, _, _, selects, rest⟩ := bind_returned rest
  obtain rfl := modify_returned selects
  obtain ⟨_, _, first, clears, rest⟩ := onDevices_bind_returned rest
  obtain ⟨_, _, second, command, rest⟩ := onDevices_bind_returned rest
  obtain ⟨status, _, third, reads, rest⟩ := onDevices_bind_returned rest
  obtain ⟨last, _, fourth, waits, rest⟩ := onDevices_bind_returned rest
  have issued : (issueId env.bus dev machine.toAtaState).world = second.world := by
    have cleared := @clearAddr_returned World env _ _ dev.busIoPort (if lba48 dev then .ps16 else .ps8) first.world
      (Bwuhos.selDrive env.bus dev.busIoPort dev.devNum (0xa ||| dev.devNum) machine.toAtaState) clears
    rw [issueId, cleared]
    exact modify_returned command
  unfold Bwuhos.ataPioDevId
  simp only [issued, portRd_returned reads, waitIdentify_returned waits, bind, Except.bind]
  split at rest
  · next failed =>
      cases (printed_returned rest).1
      rw [if_pos failed]
      exact ⟨_, rfl⟩
  · next succeeded =>
      obtain ⟨words, _, fifth, reads, rest⟩ := onDevices_bind_returned rest
      cases (unlocked_returned rest).1
      rw [if_neg succeeded, readIdWords_returned reads]
      exact ⟨_, rfl⟩

theorem store16_returned {index : Nat} {word : UInt16} {dst filled : Buffer}
    (returned : (store16 dst index word : Kernel World Buffer) held machine = .returned filled after final) :
    ∃ low, dst.store16Low index word machine.low = .ok (filled, low) ∧ final = { machine with low } := by
  unfold store16 at returned
  have stepped := act_returned returned
  obtain ⟨stored, wrote, same⟩ := map_eq_ok stepped
  cases same
  exact ⟨stored.2, wrote, rfl⟩

/-- The words of a sector change its buffer, or for null the first bytes of memory. -/
theorem readWords_returned {dev : AtaPioDev} {count index size : Nat} {dst filled : Buffer}
    (inside : 2 * (index + count) ≤ size)
    (returned : readWords env dev count index dst held machine = .returned filled after final) :
    ∃ world low, final = { machine with world, low } ∧ Buffer.Overwrites size dst machine.low filled low ∧
      (dst ≠ none → Bwuhos.readWords env.bus dev count index dst machine.world = .ok (filled, world)) := by
  induction count generalizing index dst held machine with
  | zero =>
      obtain ⟨rfl, rfl⟩ := pure_returned returned
      exact ⟨_, _, rfl, .refl _ _ _, fun _ => rfl⟩
  | succ count ih =>
      obtain ⟨word, _, _, reads, rest⟩ := bind_returned returned
      obtain ⟨world, read, rfl⟩ := onDevices_returned reads
      obtain ⟨middle, _, _, stores, rest⟩ := bind_returned rest
      obtain ⟨low, stored, rfl⟩ := store16_returned stores
      have first := Buffer.store16Low_overwrites (show 2 * index + 2 ≤ size by omega) stored
      obtain ⟨last, rest, same, second, reading⟩ := ih (by omega) rest
      refine ⟨last, rest, same, first.trans second, fun present => ?_⟩
      rw [Bwuhos.readWords, Except.ok.inj (act_returned read), Buffer.store16Low_present present stored]
      exact reading (first.present present)

/-- A loop that returns went through the same rounds in the model without mutexes, unless the
buffer is null. -/
theorem readSectors_returned {dev : AtaPioDev} {src left i ret : Nat} {dst filled : Buffer}
    (returned : readSectors env dev src left i dst held machine = .returned (ret, filled) after final) :
    Buffer.Overwrites dev.sectorSize dst machine.low filled final.low ∧ (dst ≠ none → ∃ state,
      Bwuhos.readSectors env.bus dev env.fuel left dst machine.toAtaState = .ok { ret, dst := filled, state }) := by
  induction left generalizing i dst held machine with
  | zero =>
      obtain ⟨same, rfl⟩ := unlocked_returned returned
      cases same
      exact ⟨.refl _ _ _, fun _ => ⟨_, rfl⟩⟩
  | succ left ih =>
      obtain ⟨status, _, _, polls, rest⟩ := bind_returned returned
      obtain ⟨world, polled, rfl⟩ := onDevices_returned polls
      have answer := act_returned polled
      rw [Bwuhos.readSectors, answer]
      simp only [bind, Except.bind]
      split at rest
      · next failed =>
          obtain ⟨same, _, rfl⟩ := printed_returned rest
          cases same
          rw [if_pos failed]
          exact ⟨.refl _ _ _, fun _ => ⟨_, rfl⟩⟩
      · next ready =>
          obtain ⟨words, _, _, reads, rest⟩ := bind_returned rest
          obtain ⟨next, low, rfl, first, transferred⟩ :=
            @readWords_returned World env _ _ _ _ dev _ 0 dev.sectorSize dst words (by omega) reads
          obtain ⟨second, later⟩ := ih rest
          refine ⟨first.trans second, fun present => ?_⟩
          rw [if_neg ready]
          dsimp only at transferred ⊢
          rw [transferred present]
          exact later (first.present present)

theorem ataPioDevRd_returned {dev : AtaPioDev} {src nsector ret : Nat} {dst filled : Buffer}
    (returned : ataPioDevRd env dev dst src nsector held machine = .returned (ret, filled) after final) :
    Buffer.Overwrites dev.sectorSize dst machine.low filled final.low ∧ (dst ≠ none → ∃ state,
      Bwuhos.ataPioDevRd env.bus dev env.fuel dst src nsector machine.toAtaState =
        .ok { ret, dst := filled, state }) := by
  unfold ataPioDevRd at returned
  unfold Bwuhos.ataPioDevRd
  split at returned
  · next none =>
      obtain ⟨same, rfl⟩ := pure_returned returned
      cases same
      rw [if_pos none]
      exact ⟨.refl _ _ _, fun _ => ⟨_, rfl⟩⟩
  · next some_ =>
      rw [if_neg some_]
      split at returned
      · next many =>
          obtain ⟨_, _, _, prints, rest⟩ := bind_returned returned
          obtain ⟨world, rfl⟩ := kuPrintln_returned prints
          obtain ⟨same, rfl⟩ := pure_returned rest
          cases same
          rw [if_pos many]
          exact ⟨.refl _ _ _, fun _ => ⟨_, rfl⟩⟩
      · next few =>
          obtain ⟨_, _, _, taken, rest⟩ := bind_returned returned
          obtain rfl := lock_returned taken
          obtain ⟨_, _, _, issues, rest⟩ := bind_returned rest
          obtain rfl := modify_returned issues
          rw [if_neg few]
          exact readSectors_returned rest

/-- The device in the model without mutexes, with a driver that gives this answer to reads. -/
def Blkdev.erase (blkdev : Blkdev) (answer : RdAnswer) : Bwuhos.Blkdev Unit where
  rd _ _ _ := (answer, ())
  wr _ _ _ _ := (1, ())
  partBase := blkdev.partBase
  flags := blkdev.flags
  devType := .diskDrive
  driver := .ataPio
  blkSize := blkdev.blkSize
  nblk := blkdev.nblk

def BlkNode.erase (node : BlkNode) (answer : RdAnswer) : Bwuhos.BlkNode Unit where
  dev := node.dev.erase answer
  children := node.children.map fun children => children.parts.map (Blkdev.erase · answer)

def BlkCache.erase (cache : BlkCache) (answer : RdAnswer) : Bwuhos.BlkCache Unit where
  blkdev := cache.blkdev.erase answer
  buf := cache.buf
  loadedBlk := cache.loadedBlk

theorem blkdevMkPart_returned {node last : BlkNode} {base limit : Nat} {part : Option Blkdev}
    (allocated : node.children ≠ none) (answer : RdAnswer)
    (returned : blkdevMkPart env node base limit held machine = .returned (part, last) after final) :
    Bwuhos.blkdevMkPart (node.erase answer) base limit =
      .ok (part.map (Blkdev.erase · answer), last.erase answer) := by
  obtain ⟨children, present⟩ := Option.ne_none_iff_exists'.mp allocated
  have array : node.array = children := by rw [BlkNode.array, present, Option.getD_some]
  have erased : (node.erase answer).children = some (children.parts.map (Blkdev.erase · answer)) := by
    rw [BlkNode.erase, present, Option.map_some]
  unfold blkdevMkPart at returned
  unfold Bwuhos.blkdevMkPart
  rw [erased, Option.getD_some, List.length_map]
  split at returned
  · next partition =>
      obtain ⟨_, _, _, _, rest⟩ := bind_returned returned
      cases (pure_returned rest).1
      exact if_pos partition
  · next whole =>
      refine (if_neg whole).trans ?_
      cases own : node.dev.ownMutex with
      | none =>
          rw [own] at returned
          cases returned
      | some mutex =>
          rw [own] at returned
          obtain ⟨_, _, _, taken, rest⟩ := bind_returned returned
          obtain rfl := lock_returned taken
          rw [array] at rest
          split at rest
          · next full =>
              cases (printed_returned rest).1
              exact if_pos full
          · next room =>
              refine (if_neg room).trans ?_
              split at rest
              · next beyond =>
                  cases (printed_returned rest).1
                  exact if_pos beyond
              · next fits =>
                  cases (printed_returned rest).1
                  refine (if_neg fits).trans ?_
                  simp only [BlkNode.erase, Option.map_some, List.map_append, List.map_cons, List.map_nil]
                  rfl

/-- A read does what the model without mutexes does with some answer of the driver. -/
theorem blkdevRd_returned {blkdev : Blkdev} {dst filled : Buffer} {src n ret : Nat}
    (returned : blkdevRd env blkdev dst src n held machine = .returned (ret, filled) after final) :
    ∃ answer, (Bwuhos.blkdevRd (blkdev.erase answer) src n ()).ret = ret ∧
      dst.store (Bwuhos.blkdevRd (blkdev.erase answer) src n ()).data machine.low = .ok (filled, final.low) := by
  unfold blkdevRd at returned
  cases chosen : blkdev.syncMutex with
  | none =>
      rw [chosen] at returned
      cases returned
  | some mutex =>
      rw [chosen] at returned
      obtain ⟨_, _, _, taken, rest⟩ := bind_returned returned
      obtain rfl := lock_returned taken
      split at rest
      · next beyond =>
          obtain ⟨same, world, rfl⟩ := printed_returned rest
          cases same
          have erased : u64 (src + n) > (blkdev.erase ⟨0, []⟩).nblk := beyond
          refine ⟨⟨0, []⟩, ?_⟩
          rw [Bwuhos.blkdevRd, if_pos erased]
          exact ⟨rfl, Buffer.store_nil _ _⟩
      · next fits =>
          obtain ⟨⟨status, words⟩, _, _, reads, rest⟩ := bind_returned rest
          obtain ⟨same, rfl⟩ := unlocked_returned rest
          cases same
          obtain ⟨data, stored⟩ := (ataPioDevRd_returned reads).1.stored
          have erased : ¬u64 (src + n) > (blkdev.erase ⟨status, data⟩).nblk := fits
          refine ⟨⟨status, data⟩, ?_⟩
          rw [Bwuhos.blkdevRd, if_neg erased]
          exact ⟨rfl, stored⟩

theorem blkdevWr_returned {blkdev : Blkdev} {dst n ret : Nat} {src : List UInt8} (answer : RdAnswer)
    (returned : blkdevWr env blkdev dst src n held machine = .returned ret after final) :
    (Bwuhos.blkdevWr (blkdev.erase answer) dst src n ()).ret = ret := by
  unfold blkdevWr at returned
  cases chosen : blkdev.syncMutex with
  | none =>
      rw [chosen] at returned
      cases returned
  | some mutex =>
      rw [chosen] at returned
      obtain ⟨_, _, _, _, rest⟩ := bind_returned returned
      split at rest
      · next beyond =>
          have erased : u64 (dst + n) > (blkdev.erase answer).nblk := beyond
          rw [Bwuhos.blkdevWr, if_pos erased]
          exact (printed_returned rest).1
      · next fits =>
          obtain ⟨_, _, _, _, rest⟩ := bind_returned rest
          have erased : ¬u64 (dst + n) > (blkdev.erase answer).nblk := fits
          rw [Bwuhos.blkdevWr, if_neg erased]
          exact (unlocked_returned rest).1

theorem kuPrintln_low {type : LogType} {msg : String} {args : List PrintArg} :
    Keeps Machine.low (kuPrintln env type msg args) :=
  .zoom fun _ _ => rfl

theorem pmmAlloc_low : Keeps Machine.low (pmmAlloc env) := by
  refine .bind (.lock _) fun _ => .bind (.modify fun _ => rfl) fun _ => .bind (.get _) fun pageStk => ?_
  cases pageStk with
  | nil => exact .bind kuPrintln_low fun _ => .bind (.unlock _) fun _ => .pure _
  | cons paddr stk => exact .bind (.modify fun _ => rfl) fun _ => .bind (.unlock _) fun _ => .pure _

theorem nextPgDir_low (cur ind flags : Nat) : Keeps Machine.low (nextPgDir env cur ind flags) := by
  refine .bind (.get _) fun entry => ?_
  split
  · refine .bind pmmAlloc_low fun new => .bind (.modify fun _ => rfl) fun _ => .bind (.modify fun _ => rfl) fun _ => ?_
    exact .bind (.get _) fun linked => .bind (.modify fun _ => rfl) fun _ => .get _
  · exact .pure _

theorem vmmMapCur_low (paddr vaddr flags : Nat) : Keeps Machine.low (vmmMapCur env paddr vaddr flags) := by
  refine .bind (.get _) fun map => .bind (nextPgDir_low _ _ _) fun pdpt => .bind (nextPgDir_low _ _ _) fun pdt => ?_
  refine .bind (nextPgDir_low _ _ _) fun pt => .bind (.modify fun _ => rfl) fun _ => ?_
  exact .bind (.get _) fun mapped => .modify fun _ => rfl

theorem findFree_low (n : Nat) : Keeps Machine.low (findFree env n) := by
  intro held machine new after final returned
  have stepped := act_returned returned
  split at stepped
  · cases stepped
  · cases stepped
    rfl

theorem takePlace_low (new n : Nat) : Keeps Machine.low (takePlace new n : Kernel World Nat) :=
  .bind (.modify fun _ => rfl) fun _ => .bind (.unlock _) fun _ => .pure _

theorem kheapGrow_low (n left : Nat) : Keeps Machine.low (kheapGrow env n left) := by
  induction left with
  | zero => exact .bind kuPrintln_low fun _ => .bind (.unlock _) fun _ => .pure _
  | succ left ih =>
      refine .bind pmmAlloc_low fun paddr => ?_
      split
      · exact .bind kuPrintln_low fun _ => .bind (.unlock _) fun _ => .pure _
      · refine .bind (.get _) fun vaddr => .bind (vmmMapCur_low _ _ _) fun _ => .bind (.modify fun _ => rfl) fun _ => ?_
        refine .bind (findFree_low n) fun new => ?_
        split
        · exact takePlace_low new n
        · exact ih

theorem kheapAlloc_low (n : Nat) : Keeps Machine.low (kheapAlloc env n) := by
  refine .bind (.lock _) fun _ => .bind (findFree_low n) fun new => ?_
  split
  · exact takePlace_low new n
  · exact .bind (.get _) fun left => kheapGrow_low n left

/-- A new buffer has the size that was asked for, and no allocation writes through null. -/
theorem allocBuf_returned {n : Nat} {buf : Buffer}
    (returned : allocBuf env n held machine = .returned buf after final) :
    (∀ bytes, buf = some bytes → bytes.length = n) ∧ final.low = machine.low := by
  obtain ⟨addr, _, _, allocates, rest⟩ := bind_returned returned
  have low := kheapAlloc_low n _ _ _ _ _ allocates
  split at rest
  · obtain ⟨rfl, rfl⟩ := pure_returned rest
    exact ⟨fun bytes same => Option.noConfusion rfl (heq_of_eq same), low⟩
  · obtain ⟨rfl, rfl⟩ := get_returned rest
    refine ⟨fun bytes same => ?_, low⟩
    cases same
    exact (env.platform.uninit n _).property

theorem kuMemcpy_returned {dst : BitVec 64} {buf : Buffer} {off n : Nat} {copied : List UInt8}
    (returned : kuMemcpy env dst buf off n held machine = .returned copied after final) :
    env.space.Spans dst n ∧ buf.load (env.platform.beyond machine.world) off n machine.low = .ok copied ∧
      final = machine := by
  unfold kuMemcpy at returned
  have stepped := act_returned returned
  split at stepped
  · cases stepped
  · next spans =>
      obtain ⟨bytes, loaded, same⟩ := map_eq_ok stepped
      cases same
      exact ⟨not_not.mp spans, loaded, rfl⟩

/-- A heap that gives this buffer to who asks for its size, and what lies behind buffers. -/
def givenHeap (buf : Buffer) (beyond : Nat → UInt8) : Platform Unit where
  kheapAlloc size _ := (buf.bind fun bytes => if sized : bytes.length = size then some ⟨bytes, sized⟩ else none, ())
  uninit := Platform.zeroed.uninit
  beyond _ := beyond

theorem givenHeap_alloc {buf : Buffer} {beyond : Nat → UInt8} {size : Nat}
    (sized : ∀ bytes, buf = some bytes → bytes.length = size) :
    (givenHeap buf beyond).alloc size () = (buf, ()) := by
  cases buf with
  | none => rfl
  | some bytes =>
      simp only [Platform.alloc, givenHeap, Option.bind_some, dif_pos (sized bytes rfl)]
      rfl

theorem finishRdLow_copied {space : Kutil.AddressSpace} {platform : Platform Unit} {cache : Bwuhos.BlkCache Unit}
    {low : LowMemory} {buf : Buffer} {dst : BitVec 64} {off n : Nat} {read : Option (BlkRd Unit)} {copied : List UInt8}
    (spans : space.Spans dst n) (loaded : buf.load (platform.beyond ()) off n low = .ok copied) : ∃ result,
      finishRdLow space platform cache low buf dst off n read () = .ok (result, low) ∧ result.ret = 0 ∧
        result.dst = copied ∧ result.cache = cache := by
  rw [finishRdLow, if_neg (not_not.mpr spans), loaded]
  exact ⟨_, rfl, rfl, rfl, rfl⟩

theorem blkCacheRdAcross_returned {cache last : BlkCache} {dst : BitVec 64} {addr n ret : Nat} {copied : List UInt8}
    (returned : blkCacheRdAcross env cache dst addr n held machine = .returned (ret, copied, last) after final) :
    ∃ platform answer result,
      blkCacheRdAcrossLow env.space platform (cache.erase answer) machine.low dst addr n () = .ok (result, final.low) ∧
      result.ret = ret ∧ result.dst = copied ∧ result.cache = last.erase answer := by
  obtain ⟨rdBuf, _, middle, allocates, rest⟩ := bind_returned returned
  obtain ⟨sized, low⟩ := allocBuf_returned allocates
  obtain ⟨⟨status, filled⟩, _, between, reads, rest⟩ := bind_returned rest
  obtain ⟨answer, same, stored⟩ := blkdevRd_returned reads
  rw [low] at stored
  have across := @blkCacheRdAcrossLow_stored Unit env.space _ (cache.erase answer) machine.low between.low dst addr n ()
    rdBuf filled () (@givenHeap_alloc rdBuf (env.platform.beyond between.world) _ sized) _ rfl stored
  refine ⟨givenHeap rdBuf (env.platform.beyond between.world), answer, ?_⟩
  rw [across]
  dsimp only at rest
  split at rest
  · next failed =>
      obtain ⟨finished, world, rfl⟩ := printed_returned rest
      cases finished
      rw [if_pos (by exact fun zero => failed (same.symm.trans zero))]
      exact ⟨_, rfl, rfl, rfl, rfl⟩
  · next succeeded =>
      rw [if_neg (by exact fun failed => succeeded fun zero => failed (same.trans zero))]
      obtain ⟨bytes, _, _, copies, unlocks⟩ := bind_returned rest
      obtain ⟨spans, loaded, rfl⟩ := kuMemcpy_returned copies
      obtain ⟨finished, rfl⟩ := unlocked_returned unlocks
      cases finished
      exact finishRdLow_copied spans loaded

theorem finishRd_returned {cache last : BlkCache} {dst : BitVec 64} {off n ret : Nat} {copied : List UInt8}
    {read : Option (BlkRd Unit)} (answer : RdAnswer)
    (returned : finishRd env cache dst off n held machine = .returned (ret, copied, last) after final) :
    ∃ platform result,
      finishRdLow env.space platform (cache.erase answer) machine.low cache.buf dst off n read () =
        .ok (result, final.low) ∧
      result.ret = ret ∧ result.dst = copied ∧ result.cache = last.erase answer := by
  obtain ⟨bytes, _, _, copies, rest⟩ := bind_returned returned
  obtain ⟨spans, loaded, rfl⟩ := kuMemcpy_returned copies
  obtain ⟨finished, rfl⟩ := unlocked_returned rest
  cases finished
  exact ⟨givenHeap none (env.platform.beyond _), finishRdLow_copied spans loaded⟩

theorem blkCacheRdWithin_returned {cache last : BlkCache} {dst : BitVec 64} {addr n ret : Nat} {copied : List UInt8}
    (returned : blkCacheRdWithin env cache dst addr n held machine = .returned (ret, copied, last) after final) :
    ∃ platform answer result,
      blkCacheRdWithinLow env.space platform (cache.erase answer) machine.low dst addr n () = .ok (result, final.low) ∧
      result.ret = ret ∧ result.dst = copied ∧ result.cache = last.erase answer := by
  unfold blkCacheRdWithin at returned
  split at returned
  · next hit =>
      obtain ⟨platform, served⟩ := finishRd_returned ⟨0, []⟩ returned
      refine ⟨platform, ⟨0, []⟩, ?_⟩
      rw [blkCacheRdWithinLow, if_pos (by exact hit)]
      exact served
  · next miss =>
      obtain ⟨⟨status, filled⟩, _, between, reads, rest⟩ := bind_returned returned
      obtain ⟨answer, same, stored⟩ := blkdevRd_returned reads
      have within (platform : Platform Unit) := @blkCacheRdWithinLow_stored Unit env.space platform
        (cache.erase answer) machine.low between.low dst addr n () filled miss _ rfl stored
      dsimp only at rest
      split at rest
      · next failed =>
          obtain ⟨finished, world, rfl⟩ := printed_returned rest
          cases finished
          refine ⟨givenHeap none fun _ => 0, answer, ?_⟩
          rw [within, if_pos (by exact fun zero => failed (same.symm.trans zero))]
          exact ⟨_, rfl, rfl, rfl, rfl⟩
      · next succeeded =>
          obtain ⟨platform, served⟩ := finishRd_returned answer rest
          refine ⟨platform, answer, ?_⟩
          rw [within, if_neg (by exact fun failed => succeeded fun zero => failed (same.trans zero))]
          exact served

/-- A cached read does what the model without mutexes does, with some memory from the heap and
some answer of the driver. -/
theorem blkCacheRd_returned {cache last : BlkCache} {dst : BitVec 64} {addr n ret : Nat} {copied : List UInt8}
    (returned : blkCacheRd env cache dst addr n held machine = .returned (ret, copied, last) after final) :
    ∃ platform answer result,
      blkCacheRdLow env.space platform (cache.erase answer) machine.low dst addr n () = .ok (result, final.low) ∧
      result.ret = ret ∧ result.dst = copied ∧ result.cache = last.erase answer := by
  unfold blkCacheRd at returned
  unfold blkCacheRdLow
  split at returned
  · next empty =>
      obtain ⟨same, rfl⟩ := pure_returned returned
      cases same
      refine ⟨givenHeap none fun _ => 0, ⟨0, []⟩, ?_⟩
      rw [if_pos empty]
      exact ⟨_, rfl, rfl, rfl, rfl⟩
  · next some_ =>
      obtain ⟨_, _, _, taken, rest⟩ := bind_returned returned
      obtain rfl := lock_returned taken
      simp only [if_neg some_]
      split at rest
      · cases rest
      · next sized =>
          have erased (answer : RdAnswer) : ¬(cache.erase answer).blkdev.blkSize = 0 := sized
          simp only [if_neg (erased _)]
          split at rest
          · next across =>
              obtain ⟨platform, answer, served⟩ := blkCacheRdAcross_returned rest
              exact ⟨platform, answer, by rw [if_pos (by exact across)]; exact served⟩
          · next within =>
              obtain ⟨platform, answer, served⟩ := blkCacheRdWithin_returned rest
              exact ⟨platform, answer, by rw [if_neg (by exact within)]; exact served⟩

end

end Bwuhos.Locking
