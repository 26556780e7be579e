import Bwuhos.AtaPio.Select
import Bwuhos.Locking.Returns

namespace Bwuhos.Locking

open Bwuhos.Data Locked

/-! # Lock discipline

What each function of the storage stack does to the mutexes, and that no call from outside
blocks or leaves one held.
-/

section

variable {World : Type} {stops : Stop → Prop} {level : Nat}

theorem clearAddr_calls (env : Env World) (busIoPort : Nat) (size : PortSize) :
    Calls stops level (clearAddr env busIoPort size) := by
  apply Balanced.forEach
  intro reg _
  exact portWr_calls env _ _ _

theorem readIdWords_calls (env : Env World) (busIoPort count : Nat) :
    Calls stops level (readIdWords env busIoPort count) := by
  induction count with
  | zero => exact .pure _
  | succ count ih => exact .bind (portRd_calls env _ _) fun word => .bind ih fun rest => .pure _

theorem ataPioDevWr_calls (dev : AtaPioDev) (dst : Nat) (src : List UInt8) (nsector : Nat) (room : 4 < level) :
    Calls stops level (ataPioDevWr dev dst src nsector : Kernel World Nat) := by
  apply Balanced.lock (show Mutex.rank .ataPio < level from room)
  exact .unlock (.pure _)

variable (polls : stops .outOfFuel)

include polls

theorem waitIdentify_calls (env : Env World) (busIoPort status : Nat) :
    Calls stops level (waitIdentify env busIoPort status) := by
  have waits (done : Nat → Bool) (status : Nat) : Calls stops level (do
      if done status then return .inr status
      let next ← portRd env (busIoPort + irStatus) .ps8
      return .inl next : Devices World (Nat ⊕ Nat)) := by
    cases done status with
    | true => exact .pure _
    | false => exact .bind (portRd_calls env _ _) fun next => .pure _
  apply Balanced.bind
  · apply Balanced.repeating polls
    intro status
    simpa only [decide_eq_true_eq] using waits (fun status => status &&& sBsy = 0) status
  · intro status
    apply Balanced.repeating polls
    intro status
    simpa only [decide_eq_true_eq] using waits (fun status => ¬(status &&& sDrq = 0 ∧ status &&& sErr = 0)) status

theorem ataPioDevGet_calls (env : Env World) (busIoPort busCtlPort devNum : Nat) (room : 4 < level) :
    Calls stops level (ataPioDevGet env busIoPort busCtlPort devNum) := by
  apply Balanced.lock (show Mutex.rank .ataPio < level from room)
  refine Releases.bind (.modify _) fun _ => .bind (clearAddr_calls env _ _).zoom fun _ => ?_
  refine .bind (clearAddr_calls env _ _).zoom fun _ => .bind (portWr_calls env _ _ _).zoom fun _ => ?_
  refine .bind (portRd_calls env _ _).zoom fun status => ?_
  split
  · exact printed_section polls env _ _ _ (by exact fits_literal rfl) _ (by decide)
  · refine .bind (waitIdentify_calls polls env _ _).zoom fun status => ?_
    split
    · exact printed_section polls env _ _ _ (by exact fits_literal rfl) _ (by decide)
    · refine .bind (readIdWords_calls env _ _).zoom fun idBuf => ?_
      dsimp only
      split
      · exact printed_section polls env _ _ _ (by exact fits_literal rfl) _ (by decide)
      · exact .unlock (.pure _)

theorem ataPioDevId_calls (env : Env World) (dev : AtaPioDev) (room : 4 < level) :
    Calls stops level (ataPioDevId env dev) := by
  apply Balanced.lock (show Mutex.rank .ataPio < level from room)
  refine Releases.bind (.modify _) fun _ => .bind (clearAddr_calls env _ _).zoom fun _ => ?_
  refine .bind (portWr_calls env _ _ _).zoom fun _ => .bind (portRd_calls env _ _).zoom fun status => ?_
  refine .bind (waitIdentify_calls polls env _ _).zoom fun status => ?_
  split
  · exact printed_section polls env _ _ _ (by exact fits_literal rfl) _ (by decide)
  · exact .bind (readIdWords_calls env _ _).zoom fun outId => .unlock (.pure _)

theorem pollStatus_fails {bus : AtaBus World} {dev : AtaPioDev} {fuel : Nat} {world : World} {stop : Stop}
    (failed : pollStatus bus dev fuel world = .error stop) : stops stop := by
  apply loop_fails polls _ failed
  intro world fault stopped
  cases stopped

omit polls in
/-- A call that may not stop with `outOfBounds` has to bring a buffer with room. -/
theorem store16_calls {dst : Buffer} {index : Nat} (word : UInt16)
    (room : ¬stops .outOfBounds → dst.Room (2 * index + 2)) :
    Calls stops level (store16 dst index word : Kernel World Buffer) := by
  apply Balanced.act_map
  intro machine stop failed
  rw [Buffer.store16Low_fails failed]
  by_contra refused
  obtain ⟨filled, stored⟩ := Buffer.store16Low_room word machine.low (room refused)
  rw [stored] at failed
  cases failed

omit polls in
theorem store16_yields {dst : Buffer} {index size : Nat} (word : UInt16)
    (room : ¬stops .outOfBounds → dst.Room size) :
    Yields (fun filled => ¬stops .outOfBounds → filled.Room size) (store16 dst index word : Kernel World Buffer) := by
  intro held machine filled after final returned refused
  obtain ⟨low, stored, _⟩ := store16_returned returned
  exact (Buffer.store16Low_overwrites (Nat.le_refl _) stored).room (room refused)

omit polls in
theorem readWords_calls (env : Env World) (dev : AtaPioDev) {count index : Nat} {dst : Buffer}
    (room : ¬stops .outOfBounds → dst.Room (2 * (index + count))) :
    Calls stops level (readWords env dev count index dst) := by
  induction count generalizing index dst with
  | zero => exact .pure _
  | succ count ih =>
      have here : ¬stops .outOfBounds → dst.Room (2 * index + 2) := fun refused bytes same =>
        Nat.le_trans (by omega) (room refused bytes same)
      refine Balanced.bind (portRd_calls env _ _).zoom fun word => ?_
      refine .bind_yields (store16_calls _ here) (store16_yields _ room) fun filled kept => ih ?_
      rwa [Nat.add_assoc, Nat.add_comm 1]

omit polls in
theorem readWords_yields (env : Env World) (dev : AtaPioDev) {dst : Buffer} {size : Nat}
    (room : ¬stops .outOfBounds → dst.Room size) (count index : Nat) :
    Yields (fun filled => ¬stops .outOfBounds → filled.Room size) (readWords env dev count index dst) := by
  intro held machine filled after final returned refused
  obtain ⟨world, low, _, overwrites, _⟩ := readWords_returned (Nat.le_refl _) returned
  exact overwrites.room (room refused)

/-- A sector that fails ends the loop and unlocks; any other leaves the mutex to the next. -/
theorem readSectors_section (env : Env World) (dev : AtaPioDev) (src left i : Nat) {dst : Buffer}
    (room : ¬stops .outOfBounds → dst.Room dev.sectorSize) :
    Section stops .ataPio (readSectors env dev src left i dst) := by
  induction left generalizing i dst with
  | zero => exact .unlock (.pure _)
  | succ left ih =>
      have poll : Calls stops 4 (act (pollStatus env.bus dev env.fuel) : Devices World Nat) :=
        .act fun world stop failed => pollStatus_fails polls failed
      have words : ¬stops .outOfBounds → dst.Room (2 * (0 + dev.sectorSize / 2)) := fun refused bytes same =>
        Nat.le_trans (by omega) (room refused bytes same)
      refine Releases.bind poll.zoom fun status => ?_
      split
      · exact printed_section polls env _ _ _ (by exact fits_literal rfl) _ (by decide)
      · refine .bind_yields (readWords_calls env dev words) (readWords_yields env dev room _ 0) fun filled kept => ?_
        exact ih (i + 1) kept

theorem ataPioDevRd_calls (env : Env World) (dev : AtaPioDev) {dst : Buffer} (src : Nat) {nsector : Nat}
    (room : ¬stops .outOfBounds → nsector ≠ 0 → dst.Room dev.sectorSize) (above : 4 < level) :
    Calls stops level (ataPioDevRd env dev dst src nsector) := by
  unfold ataPioDevRd
  split
  · exact .pure _
  · next some_ =>
      split
      · exact .bind (kuPrintln_calls polls env _ _ _ (by exact fits_literal rfl) (by omega)) fun _ => .pure _
      · apply Balanced.lock (show Mutex.rank .ataPio < level from above)
        refine .bind (.modify _) fun _ => readSectors_section polls env dev src _ 0 fun refused => ?_
        exact room refused some_

end

theorem Created.independent {blkdev : Blkdev} (created : Created blkdev) : blkdev.flags &&& bfSyncDepChild = 0 := by
  induction created with
  | disk dev place => exact Nat.zero_and _
  | part created own whole place base limit ih =>
      simp only [Blkdev.part, Nat.and_or_distrib_right, ih, Nat.zero_or]
      rfl

/-- A partition has the blocks of its disk, and the disk those of its driver. -/
theorem Created.sectorSize_eq {blkdev : Blkdev} (created : Created blkdev) :
    blkdev.blkSize = blkdev.driverData.sectorSize := by
  induction created with
  | disk dev place => rfl
  | part created own whole place base limit ih => exact ih

/-- A device of the repository locks its own mutex to make a partition. -/
theorem Created.ownMutex_eq {blkdev : Blkdev} (created : Created blkdev) :
    blkdev.ownMutex = some (.blkdev blkdev.place) := by
  rw [Blkdev.ownMutex, created.independent]
  rfl

/-- To read, a disk locks its own mutex and a partition that of its disk. -/
theorem Created.syncMutex_eq {blkdev : Blkdev} (created : Created blkdev) :
    ∃ place, blkdev.syncMutex = some (.blkdev place) := by
  cases created with
  | disk dev place => exact ⟨place, by simp [Blkdev.syncMutex, ataPioBlkdevCreate]⟩
  | @part disk mutex created own whole place base limit =>
      have partition : (disk.part mutex place base limit).flags &&& bfPart ≠ 0 := by
        simp only [Blkdev.part, Nat.and_or_distrib_right, whole, Nat.zero_or]
        decide
      refine ⟨disk.place, ?_⟩
      rw [Blkdev.syncMutex, if_pos (.inl partition)]
      exact own.symm.trans created.ownMutex_eq

section

variable {World : Type} {stops : Stop → Prop} {level : Nat} {node : BlkNode} {blkdev : Blkdev} {cache : BlkCache}
  (polls : stops .outOfFuel)

include polls

/-- `blkdev_mk_part` unlocks the mutex that it has chosen, also after the message about its success. -/
theorem blkdevMkPart_calls (env : Env World) (created : Created node.dev) (base limit : Nat) (room : 5 < level) :
    Calls stops level (blkdevMkPart env node base limit) := by
  unfold blkdevMkPart
  rw [created.ownMutex_eq]
  split
  · exact .bind (kuPrintln_calls polls env _ _ _ (by exact fits_literal rfl) (by omega)) fun _ => .pure _
  · apply Balanced.lock (show Mutex.rank (.blkdev node.dev.place) < level from room)
    split
    · exact printed_section polls env _ _ _ (by exact fits_literal rfl) _ (by simp [Mutex.rank])
    · split
      · exact printed_section polls env _ _ _ (by exact fits_literal rfl) _ (by simp [Mutex.rank])
      · exact printed_section polls env _ _ _ (by exact fits_literal rfl) _ (by simp [Mutex.rank])

theorem blkdevWr_calls (env : Env World) (created : Created blkdev) (dst : Nat) (src : List UInt8) (n : Nat)
    (room : 5 < level) : Calls stops level (blkdevWr env blkdev dst src n) := by
  obtain ⟨place, chosen⟩ := created.syncMutex_eq
  unfold blkdevWr
  rw [chosen]
  apply Balanced.lock (show Mutex.rank (.blkdev place) < level from room)
  split
  · exact printed_section polls env _ _ _ (by exact fits_literal rfl) _ (by simp [Mutex.rank])
  · exact .bind (ataPioDevWr_calls _ _ src n (by simp [Mutex.rank])) fun _ => .unlock (.pure _)

theorem blkdevRd_calls (env : Env World) (created : Created blkdev) {dst : Buffer} (src : Nat) {n : Nat}
    (room : ¬stops .outOfBounds → n ≠ 0 → dst.Room blkdev.blkSize) (above : 5 < level) :
    Calls stops level (blkdevRd env blkdev dst src n) := by
  obtain ⟨place, chosen⟩ := created.syncMutex_eq
  unfold blkdevRd
  rw [chosen]
  apply Balanced.lock (show Mutex.rank (.blkdev place) < level from above)
  split
  · exact printed_section polls env _ _ _ (by exact fits_literal rfl) _ (by simp [Mutex.rank])
  · rw [created.sectorSize_eq] at room
    refine .bind (ataPioDevRd_calls polls env _ _ room (by simp [Mutex.rank])) fun answer => ?_
    exact .unlock (.pure _)

theorem allocBuf_calls (env : Env World) (n : Nat) (room : 3 < level) : Calls stops level (allocBuf env n) := by
  refine Balanced.bind (kheapAlloc_calls polls env n room) fun addr => ?_
  split
  · exact .pure _
  · exact .get _

omit polls in
theorem allocBuf_yields (env : Env World) (n : Nat) : Yields (fun buf => buf.Room n) (allocBuf env n) :=
  fun _ _ _ _ _ returned bytes same => Nat.le_of_eq ((allocBuf_returned returned).1 bytes same).symm

omit polls in
theorem kuMemcpy_calls (env : Env World) {dst : BitVec 64} (buf : Buffer) (off : Nat) {n : Nat}
    (spans : ¬stops .outOfBounds → env.space.Spans dst n) : Calls stops level (kuMemcpy env dst buf off n) := by
  apply Balanced.act
  intro machine stop failed
  split at failed
  · next faults =>
      cases failed
      by_contra refused
      exact faults (spans refused)
  · cases buf <;> cases failed

variable {dst : BitVec 64} {n : Nat}

omit polls in
theorem finishRd_section (env : Env World) (cache : BlkCache) (off : Nat)
    (spans : ¬stops .outOfBounds → env.space.Spans dst n) :
    Section stops (.blkCache cache.place) (finishRd env cache dst off n) :=
  .bind (kuMemcpy_calls env cache.buf off spans) fun _ => .unlock (.pure _)

/-- The new buffer has room for the blocks that are read into it. -/
theorem blkCacheRdAcross_section (env : Env World) (created : Created cache.blkdev) (addr : Nat)
    (spans : ¬stops .outOfBounds → env.space.Spans dst n) :
    Section stops (.blkCache cache.place) (blkCacheRdAcross env cache dst addr n) := by
  refine Releases.bind_yields (allocBuf_calls polls env _ (by simp [Mutex.rank])) (allocBuf_yields env _)
    fun rdBuf sized => ?_
  have room : u64 (n + cache.blkdev.blkSize - 1) / cache.blkdev.blkSize ≠ 0 → rdBuf.Room cache.blkdev.blkSize := by
    intro some_ bytes same
    have bound := Nat.mul_div_le (u64 (n + cache.blkdev.blkSize - 1)) cache.blkdev.blkSize
    have whole := sized bytes same
    rw [u64_of_lt (Nat.lt_of_le_of_lt bound (u64_lt _))] at whole
    exact Nat.le_trans (Nat.le_mul_of_pos_right _ (Nat.pos_of_ne_zero some_)) whole
  refine .bind (blkdevRd_calls polls env created _ (fun _ => room) (by simp [Mutex.rank])) fun read => ?_
  split
  · exact printed_section polls env _ _ _ (by exact fits_literal rfl) _ (by simp [Mutex.rank])
  · exact .bind (kuMemcpy_calls env _ _ spans) fun _ => .unlock (.pure _)

theorem blkCacheRdWithin_section (env : Env World) (created : Created cache.blkdev) (addr : Nat)
    (room : ¬stops .outOfBounds → cache.buf.Room cache.blkdev.blkSize)
    (spans : ¬stops .outOfBounds → env.space.Spans dst n) :
    Section stops (.blkCache cache.place) (blkCacheRdWithin env cache dst addr n) := by
  unfold blkCacheRdWithin
  dsimp only
  split
  · exact finishRd_section env cache _ spans
  · refine .bind (blkdevRd_calls polls env created _ (fun refused _ => room refused) (by simp [Mutex.rank]))
      fun read => ?_
    split
    · exact printed_section polls env _ _ _ (by exact fits_literal rfl) _ (by simp [Mutex.rank])
    · exact finishRd_section env { cache with buf := read.2, loadedBlk := addr / cache.blkdev.blkSize } _ spans

theorem blkCacheRd_calls (env : Env World) (created : Created cache.blkdev) (addr : Nat)
    (sized : ¬stops .divByZero → n ≠ 0 → cache.blkdev.blkSize ≠ 0)
    (room : ¬stops .outOfBounds → n ≠ 0 → cache.buf.Room cache.blkdev.blkSize)
    (spans : ¬stops .outOfBounds → n ≠ 0 → env.space.Spans dst n) (above : 6 < level) :
    Calls stops level (blkCacheRd env cache dst addr n) := by
  unfold blkCacheRd
  split
  · exact .pure _
  · next some_ =>
      apply Balanced.lock (show Mutex.rank (.blkCache cache.place) < level from above)
      split
      · next zero =>
          refine .stop ?_
          by_contra refused
          exact sized refused some_ zero
      · split
        · exact blkCacheRdAcross_section polls env created addr fun refused => spans refused some_
        · exact blkCacheRdWithin_section polls env created addr (fun refused => room refused some_) fun refused =>
            spans refused some_

end

/-- A call with its arguments.  The devices are those that the repository creates. -/
inductive Call where
  | pmmAlloc
  | pmmFree (addr : Nat)
  | kheapAlloc (n : Nat)
  | blkdevMkPart (node : BlkNode) (created : Created node.dev) (base limit : Nat)
  | blkdevRd (blkdev : Blkdev) (created : Created blkdev) (dst : Buffer) (src n : Nat)
  | blkdevWr (blkdev : Blkdev) (created : Created blkdev) (dst : Nat) (src : List UInt8) (n : Nat)
  | blkCacheRd (cache : BlkCache) (created : Created cache.blkdev) (dst : BitVec 64) (addr n : Nat)
  | ataPioDevGet (busIoPort busCtlPort devNum : Nat)
  | ataPioDevId (dev : AtaPioDev)
  | ataPioDevRd (dev : AtaPioDev) (dst : Buffer) (src nsector : Nat)
  | ataPioDevWr (dev : AtaPioDev) (dst : Nat) (src : List UInt8) (nsector : Nat)

namespace Call

def Result : Call → Type
  | .pmmAlloc | .kheapAlloc _ | .blkdevWr .. | .ataPioDevWr .. => Nat
  | .pmmFree _ => Unit
  | .blkdevMkPart .. => Option Blkdev × BlkNode
  | .blkdevRd .. | .ataPioDevRd .. => Nat × Buffer
  | .blkCacheRd .. => Nat × List UInt8 × BlkCache
  | .ataPioDevGet .. => Nat × Option AtaPioDev
  | .ataPioDevId _ => Nat × List Nat

variable {World : Type}

/-- What a call relies on, without which the processor faults: a buffer that is not null has room
for a sector, the blocks of a cache have a size, and `dst` can be written. -/
def Sound (env : Env World) : Call → Prop
  | .blkdevRd blkdev _ dst _ n => n ≠ 0 → dst.Room blkdev.blkSize
  | .blkCacheRd cache _ dst _ n =>
      n ≠ 0 → cache.blkdev.blkSize ≠ 0 ∧ cache.buf.Room cache.blkdev.blkSize ∧ env.space.Spans dst n
  | .ataPioDevRd dev dst _ nsector => nsector ≠ 0 → dst.Room dev.sectorSize
  | _ => True

def perform (env : Env World) : (call : Call) → Kernel World call.Result
  | .pmmAlloc => Locking.pmmAlloc env
  | .pmmFree addr => Locking.pmmFree addr
  | .kheapAlloc n => Locking.kheapAlloc env n
  | .blkdevMkPart node _ base limit => Locking.blkdevMkPart env node base limit
  | .blkdevRd blkdev _ dst src n => Locking.blkdevRd env blkdev dst src n
  | .blkdevWr blkdev _ dst src n => Locking.blkdevWr env blkdev dst src n
  | .blkCacheRd cache _ dst addr n => Locking.blkCacheRd env cache dst addr n
  | .ataPioDevGet busIoPort busCtlPort devNum => Locking.ataPioDevGet env busIoPort busCtlPort devNum
  | .ataPioDevId dev => Locking.ataPioDevId env dev
  | .ataPioDevRd dev dst src nsector => Locking.ataPioDevRd env dev dst src nsector
  | .ataPioDevWr dev dst src nsector => Locking.ataPioDevWr dev dst src nsector

/-- Calls one after the other, each with the machine that the last one left. -/
def performAll (env : Env World) : List Call → Kernel World Unit :=
  forEach fun call => do
    let _ ← call.perform env
    return ()

/-- Other than for want of fuel, only a call that is not sound stops. -/
theorem perform_calls {stops : Stop → Prop} (env : Env World) (call : Call) (polls : stops .outOfFuel)
    (faults : ¬call.Sound env → ∀ stop, stops stop) : Calls stops 7 (call.perform env) := by
  have sound {stop : Stop} (refused : ¬stops stop) : call.Sound env := by
    by_contra unsound
    exact refused (faults unsound stop)
  cases call with
  | pmmAlloc => exact pmmAlloc_calls polls env (by decide)
  | pmmFree addr => exact pmmFree_calls addr (by decide)
  | kheapAlloc n => exact kheapAlloc_calls polls env n (by decide)
  | blkdevMkPart node created base limit => exact blkdevMkPart_calls polls env created base limit (by decide)
  | blkdevRd blkdev created dst src n => exact blkdevRd_calls polls env created src sound (by decide)
  | blkdevWr blkdev created dst src n => exact blkdevWr_calls polls env created dst src n (by decide)
  | blkCacheRd cache created dst addr n =>
      exact blkCacheRd_calls polls env created addr (fun refused some_ => (sound refused some_).1)
        (fun refused some_ => (sound refused some_).2.1) (fun refused some_ => (sound refused some_).2.2) (by decide)
  | ataPioDevGet busIoPort busCtlPort devNum => exact ataPioDevGet_calls polls env _ _ _ (by decide)
  | ataPioDevId dev => exact ataPioDevId_calls polls env dev (by decide)
  | ataPioDevRd dev dst src nsector => exact ataPioDevRd_calls polls env dev src sound (by decide)
  | ataPioDevWr dev dst src nsector => exact ataPioDevWr_calls dev dst src nsector (by decide)

/-- A call that finds all mutexes free blocks on none of them, and leaves all free where it returns.
It returns as soon as its loops end. -/
theorem perform_mutexesFree (env : Env World) (call : Call) (machine : Machine World) :
    (call.perform env (fun _ => false) machine).EndsWith (fun stop => stop = .outOfFuel ∨ ¬call.Sound env)
        (fun _ => false) ∧
      (call.Sound env → call.perform env (fun _ => false) machine ≠ .stopped .outOfFuel → ∃ result final,
        call.perform env (fun _ => false) machine = .returned result (fun _ => false) final) := by
  have ends : (call.perform env (fun _ => false) machine).EndsWith (fun stop => stop = .outOfFuel ∨ ¬call.Sound env)
      (fun _ => false) :=
    perform_calls env call (.inl rfl) (fun unsound _ => .inr unsound) _ machine fun _ _ => rfl
  refine ⟨ends, fun sound finished => ?_⟩
  generalize call.perform env (fun _ => false) machine = outcome at ends finished ⊢
  cases ends with
  | stopped fault allowed =>
      obtain rfl | unsound := allowed
      · exact absurd rfl finished
      · exact absurd sound unsound
  | returned result final => exact ⟨result, final, rfl⟩

/-- So every call of a sequence finds all mutexes free. -/
theorem performAll_mutexesFree (env : Env World) (calls : List Call) (sound : ∀ call ∈ calls, call.Sound env)
    (machine : Machine World) :
    (performAll env calls (fun _ => false) machine).EndsWith (fun stop => stop = .outOfFuel) (fun _ => false) := by
  have balanced : Calls (fun stop => stop = .outOfFuel) 7 (performAll env calls) := by
    apply Balanced.forEach
    intro call listed
    have one : Calls (fun stop => stop = .outOfFuel) 7 (call.perform env) :=
      perform_calls env call rfl fun unsound => absurd (sound call listed) unsound
    exact .bind one fun result => .pure ()
  exact balanced _ machine fun _ _ => rfl

end Call

/-- A kernel without a free page, on devices that are never busy. -/
def bareMachine : Machine Unit where
  busCache := []
  world := ()
  pmm := { mem := fun _ => 0, pageBms := [], pageStk := [] }
  kheap := { mem := fun _ => 0, khHead := 0, khTail := 0, khNpages := 0, mapped := [], pmm := fun _ => 0, taken := 0 }
  paging := { mem := fun _ => 0, pmm := fun _ => 0, taken := 0 }
  cr3 := 0
  low := fun _ => 0

def idleEnv : Env Unit where
  bus := { ports := quietPorts, beyond := ⟨0, 0, 0⟩ }
  platform := .zeroed
  space := .whole
  fuel := 1

/-- A cache without memory for its buffer. -/
def nullCache : BlkCache where
  place := 0x5000
  blkdev := ataPioBlkdevCreate ⟨2, 8, 0x1f0, 0x3f6, 0, 1⟩ 0x4000
  buf := none
  loadedBlk := 8

/-- A block is read into a null buffer, and all mutexes are free again. -/
theorem Call.perform_mutexesFree_nullCache : ∃ result final,
    (Call.blkCacheRd nullCache (.disk _ _) 0x100000 3 1).perform idleEnv (fun _ => false) bareMachine =
      .returned result (fun _ => false) final := by
  refine (Call.perform_mutexesFree idleEnv (.blkCacheRd nullCache (.disk _ _) 0x100000 3 1) bareMachine).2 ?_ ?_
  · have room : nullCache.buf.Room nullCache.blkdev.blkSize := by
      intro bytes null
      cases null
    exact fun _ => ⟨by decide, room, by decide⟩
  · intro stopped
    cases stopped

end Bwuhos.Locking
