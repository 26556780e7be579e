import Bwuhos.Kheap.Backed
import Bwuhos.Kheap.Runs

namespace Bwuhos

open Bwuhos.Data

/-! # The headers of the blocks in physical memory

What `kheap.c` does over physical memory is what the heap of quadwords does, as long as its pages are
backed.
-/

namespace KernelMem

/-- The answer of a search, or the state that it stops in. -/
def orStop {Result : Type} (k : KernelMem) : Option Result → Except KernelMem Result
  | some result => .ok result
  | none => .error k

/-- The memory that a call leaves, also if it stops. -/
def ending {Result : Type} (left : Result → KernelMem) : Except KernelMem Result → KernelMem
  | .ok result => left result
  | .error stopped => stopped

/-- One more page is mapped at the end of the heap. -/
def grown (k : KernelMem) : KernelMem :=
  { { k with phys := k.phys.alloc.2 }.vmmMapCur k.phys.alloc.1 k.limit vfWrite with khNpages := k.khNpages + 1 }

/-- The first page is mapped, and the list of blocks begins in it. -/
def firstPage (k : KernelMem) : KernelMem :=
  let mapped := { { k with phys := k.phys.alloc.2 }.vmmMapCur k.phys.alloc.1 khStart vfWrite with khNpages := 1 }
  { mapped with khTail := khStart, khHead := khStart }

/-- A search of the heap, and the growth loop if it fails. -/
def takeOrGrow (fuel n count : Nat) (k : KernelMem) : Except KernelMem (Nat × KernelMem) :=
  k.findFree fuel n >>= fun new =>
    if new = 0 then kheapGrow fuel n count k
    else k.appendBlock new n >>= fun appended => pure (new + khEntSize, appended)

theorem bind_stops {Value Result : Type} {first : Except KernelMem Value} {rest : Value → Except KernelMem Result}
    {after : KernelMem} (stopped : first >>= rest = .error after) :
    first = .error after ∨ ∃ value, first = .ok value ∧ rest value = .error after := by
  cases first with
  | error reached => exact Or.inl (congrArg Except.error (Except.error.inj stopped))
  | ok value => exact Or.inr ⟨value, rfl, stopped⟩

section

variable {k after : KernelMem} {base limit fuel n rounds ent vaddr value new count : Nat}

theorem load_stops (stopped : k.load vaddr = .error after) : after = k := by
  unfold load at stopped
  split at stopped
  · exact (Except.error.inj stopped).symm
  · cases stopped

theorem isFree_stops (stopped : k.isFree base limit fuel ent = .error after) : after = k := by
  induction fuel generalizing ent with
  | zero => exact (Except.error.inj stopped).symm
  | succ fuel ih =>
      rw [isFree] at stopped
      split at stopped
      · cases stopped
      split at stopped
      · cases stopped
      obtain first | ⟨dataSize, _, later⟩ := bind_stops stopped
      · exact load_stops first
      split at later
      · cases later
      obtain link | ⟨next, _, rest⟩ := bind_stops later
      · exact load_stops link
      · exact ih rest

theorem findFreeFrom_stops (stopped : k.findFreeFrom n rounds fuel ent = .error after) : after = k := by
  induction fuel generalizing ent with
  | zero => exact (Except.error.inj stopped).symm
  | succ fuel ih =>
      rw [findFreeFrom] at stopped
      split at stopped
      · cases stopped
      obtain first | ⟨dataSize, _, later⟩ := bind_stops stopped
      · exact load_stops first
      obtain test | ⟨free, _, verdict⟩ := bind_stops later
      · exact isFree_stops test
      split at verdict
      · cases verdict
      obtain link | ⟨next, _, rest⟩ := bind_stops verdict
      · exact load_stops link
      · exact ih rest

theorem findFree_stops (stopped : k.findFree fuel n = .error after) : after = k := findFreeFrom_stops stopped

theorem bind_answers {first : Except KernelMem KernelMem} {rest : KernelMem → Except KernelMem KernelMem}
    (kept : ∀ next, (ending id (rest next)).phys.answers = next.phys.answers) :
    (ending id (first >>= rest)).phys.answers = (ending id first).phys.answers := by
  cases first with
  | error stopped => rfl
  | ok next => exact kept next

theorem store_answers : (ending id (k.store vaddr value)).phys.answers = k.phys.answers := by
  unfold store
  split <;> rfl

theorem appendBlock_answers : (ending id (k.appendBlock new n)).phys.answers = k.phys.answers := by
  refine (bind_answers fun filled => (bind_answers fun _ => rfl).trans store_answers).trans ?_
  exact (bind_answers fun _ => store_answers).trans store_answers

theorem returned_answers (ret : Nat) : (ending Prod.snd (do
    let appended ← k.appendBlock new n
    return (ret, appended))).phys.answers = k.phys.answers := by
  have same := @appendBlock_answers k n new
  cases appended : k.appendBlock new n with
  | error stopped => exact (congrArg (fun r => (ending id r).phys.answers) appended).symm.trans same
  | ok next => exact (congrArg (fun r => (ending id r).phys.answers) appended).symm.trans same

theorem kheapInit_eq : kheapInit k =
    if k.phys.alloc.1 = physAddrNull then .ok (1, { k with phys := k.phys.alloc.2 })
    else k.firstPage.writeEnt khStart 0 0 >>= fun filled => pure (0, filled) := rfl

theorem kheapGrow_succ : kheapGrow fuel n (count + 1) k =
    if k.phys.alloc.1 = physAddrNull then .ok (0, { k with phys := k.phys.alloc.2 })
    else takeOrGrow fuel n count k.grown := rfl

theorem kheapAlloc_eq : kheapAlloc fuel n k = takeOrGrow fuel n (khMaxNpages - k.khNpages) k := rfl

theorem takeOrGrow_answers (grows : k.phys.answers <+: (ending Prod.snd (kheapGrow fuel n count k)).phys.answers) :
    k.phys.answers <+: (ending Prod.snd (takeOrGrow fuel n count k)).phys.answers := by
  cases found : k.findFree fuel n with
  | error stopped =>
      have ends : takeOrGrow fuel n count k = .error stopped := by
        rw [takeOrGrow, found]
        rfl
      rw [ends, findFree_stops found]
      exact List.prefix_refl _
  | ok new =>
      have goes : takeOrGrow fuel n count k = if new = 0 then kheapGrow fuel n count k
          else k.appendBlock new n >>= fun appended => pure (new + khEntSize, appended) := by
        rw [takeOrGrow, found]
        rfl
      rw [goes]
      split
      · exact grows
      · exact returned_answers _ ▸ List.prefix_refl _

theorem kheapGrow_answers : k.phys.answers <+: (ending Prod.snd (kheapGrow fuel n count k)).phys.answers := by
  induction count generalizing k with
  | zero => exact List.prefix_refl _
  | succ count ih =>
      rw [kheapGrow_succ]
      split
      · exact k.phys.alloc_answers
      · have mapped := k.phys.alloc.2.pagingMap_answers k.cr3 k.phys.alloc.1 k.limit (x86Flags vfWrite)
        exact (k.phys.alloc_answers.trans mapped).trans (takeOrGrow_answers (k := k.grown) ih)

end

end KernelMem

/-- The static variables and the headers in memory are those of the heap. -/
structure Headed (k : KernelMem) (frames : List Nat) (kh : Kheap) (blocks : List Nat) : Prop where
  shape : HeapShape kh blocks
  head : k.khHead = kh.khHead
  tail : k.khTail = kh.khTail
  npages : k.khNpages = kh.khNpages
  next : ∀ ent ∈ blocks, (heapMem k.phys frames).loadInt ent 8 = kh.next ent
  dataSize : ∀ ent ∈ blocks, (heapMem k.phys frames).loadInt (ent + 8) 8 = kh.dataSize ent

section

variable {regions : List Bitmap} {held : Finset Nat} {final : List Nat} {calls : List PagingCall} {k : KernelMem}
  {m : PagingMem} {root others : Nat} {frames blocks rest : List Nat} {kh : Kheap}
  {ent fuel n new count : Nat}
  (laid : Laid regions) (physical : ∀ page, Managed regions page → page + 4096 ≤ 2 ^ 52) (elsewhere : Elsewhere calls)
  (backed : Backed regions held final calls root k m others frames) (headed : Headed k frames kh blocks)

include headed

theorem Headed.limit : k.limit = kh.limit := congrArg (fun pages => u64 (khStart + pageSize * pages)) headed.npages

include backed

theorem Headed.inHeap (member : ent ∈ blocks) {cell : Nat} (low : ent ≤ cell) (high : cell < kh.blockEnd ent) :
    InHeap frames.length cell := by
  obtain ⟨start, last⟩ := headed.shape.inside ent member
  have pages := backed.npages
  rw [headed.npages] at pages
  rw [pages] at last
  exact ⟨Nat.le_trans start low, Nat.lt_of_lt_of_le high last⟩

include laid physical elsewhere

theorem Headed.load (member : ent ∈ blocks) :
    k.load ent = .ok (kh.next ent) ∧ k.load (ent + 8) = .ok (kh.dataSize ent) := by
  have aligned := headed.shape.aligned ent member
  have behind : ent + 8 < kh.blockEnd ent := by
    unfold Kheap.blockEnd khEntSize
    omega
  rw [← headed.next ent member, ← headed.dataSize ent member]
  exact ⟨backed.load laid physical elsewhere (headed.inHeap backed member (Nat.le_refl _) (by omega)) (by omega),
    backed.load laid physical elsewhere (headed.inHeap backed member (Nat.le_add_right _ _) behind) (by omega)⟩

theorem isFree_backed (chain : LinkedList.Chain kh.next 0 ent rest) (within : ∀ node ∈ rest, node ∈ blocks)
    (fuel base limit : Nat) : k.isFree base limit fuel ent =
      k.orStop (LinkedList.scan kh.next 0 (fun ent => some
        (if u64 (base + limit) > kh.limit then some false
        else if base < u64 (ent + khEntSize + kh.dataSize ent) ∧ u64 (base + limit) > ent then some false
        else none)) true fuel ent) := by
  induction fuel generalizing ent rest with
  | zero => rfl
  | succ fuel ih =>
      rw [KernelMem.isFree, LinkedList.scan, headed.limit]
      cases rest with
      | nil =>
          have null : ent = 0 := chain
          rw [if_pos null, if_pos null]
          rfl
      | cons node rest =>
          obtain ⟨rfl, notNull, tail⟩ := chain
          obtain ⟨link, size⟩ := headed.load laid physical elsewhere backed (within ent List.mem_cons_self)
          have later := ih tail fun node member => within node (List.mem_cons_of_mem _ member)
          rw [if_neg notNull, if_neg notNull, size, link]
          by_cases beyond : u64 (base + limit) > kh.limit
          · rw [if_pos beyond, if_pos beyond]
            rfl
          · rw [if_neg beyond, if_neg beyond]
            by_cases overlap : base < u64 (ent + khEntSize + kh.dataSize ent) ∧ u64 (base + limit) > ent
            · simp only [bind, Except.bind, if_pos overlap]
              rfl
            · simp only [bind, Except.bind, if_neg overlap]
              exact later

theorem findFreeFrom_backed (chain : LinkedList.Chain kh.next 0 ent rest) (within : ∀ node ∈ rest, node ∈ blocks)
    (rounds fuel n : Nat) : k.findFreeFrom n rounds fuel ent = k.orStop (LinkedList.scan kh.next 0 (fun ent =>
      (Bwuhos.isFree rounds kh (candidate kh ent) (u64 (khEntSize + n))).map fun free =>
        if free then some (candidate kh ent) else none) 0 fuel ent) := by
  induction fuel generalizing ent rest with
  | zero => rfl
  | succ fuel ih =>
      rw [KernelMem.findFreeFrom, LinkedList.scan]
      cases rest with
      | nil =>
          have null : ent = 0 := chain
          rw [if_pos null, if_pos null]
          rfl
      | cons node rest =>
          obtain ⟨rfl, notNull, tail⟩ := chain
          obtain ⟨link, size⟩ := headed.load laid physical elsewhere backed (within ent List.mem_cons_self)
          have later := ih tail fun node member => within node (List.mem_cons_of_mem _ member)
          have tested := isFree_backed laid physical elsewhere backed headed headed.shape.chain (fun _ member => member)
            rounds (candidate kh ent) (u64 (khEntSize + n))
          have same : KernelMem.candidateBehind ent (kh.dataSize ent) = candidate kh ent := rfl
          rw [if_neg notNull, if_neg notNull, size, link, headed.head]
          simp only [bind, Except.bind, same, tested]
          rw [← Bwuhos.isFree]
          cases Bwuhos.isFree rounds kh (candidate kh ent) (u64 (khEntSize + n)) with
          | none => rfl
          | some free =>
              cases free with
              | true => rfl
              | false => exact later

theorem findFree_backed (fuel n : Nat) : k.findFree fuel n = k.orStop (Bwuhos.findFree fuel kh n) := by
  rw [KernelMem.findFree, headed.head]
  exact findFreeFrom_backed laid physical elsewhere backed headed headed.shape.chain (fun _ member => member) fuel
    fuel n

end

/-- Words of eight bytes that do not overlap are written one at a time. -/
theorem loadInt_storeInt_aligned {memory : ByteMemory} {addr other value : Nat} (here : addr % 8 = 0)
    (there : other % 8 = 0) (fits : value < 2 ^ 64) : (memory.storeInt addr 8 value).loadInt other 8 =
      if other = addr then value else memory.loadInt other 8 := by
  split
  · next same =>
      rw [same, ByteMemory.loadInt_storeInt]
      exact Nat.mod_eq_of_lt fits
  · exact ByteMemory.loadInt_storeInt_apart (by omega)

/-- A word of the heap is read from bytes of the heap. -/
theorem loadInt_inHeap {one other : ByteMemory} {pages word : Nat}
    (same : ∀ cell, InHeap pages cell → one cell = other cell) (aligned : word % 8 = 0) (inside : InHeap pages word) :
    one.loadInt word 8 = other.loadInt word 8 := by
  refine ByteMemory.loadInt_congr fun position small => same _ ⟨Nat.le_trans inside.1 (Nat.le_add_right _ _), ?_⟩
  have below := inside.2
  have top : heapPage pages % 8 = 0 := by
    unfold heapPage pageSize khStart
    omega
  omega

/-- The header of a new block, and the link to it in the last one. -/
def appendedMem (memory : ByteMemory) (tail new n : Nat) : ByteMemory :=
  ((memory.storeInt new 8 0).storeInt (new + 8) 8 n).storeInt tail 8 new

/-- The data of the blocks is the same in both memories. -/
def KeepsData (kh : Kheap) (blocks : List Nat) (before after : ByteMemory) : Prop :=
  ∀ ent ∈ blocks, ∀ cell, ent + khEntSize ≤ cell → cell < kh.blockEnd ent → after cell = before cell

section

variable {kh : Kheap} {blocks : List Nat} {n new : Nat} (shape : HeapShape kh blocks) (fits : Fits kh blocks n new)
  (memory : ByteMemory)
include shape fits

theorem HeapShape.tail_mem : kh.khTail ∈ blocks := List.mem_of_getLast? (shape.last fits.nonempty)

theorem appendedMem_word {word : Nat} (aligned : word % 8 = 0)
    (known : memory.loadInt word 8 = kh.mem word ∨ word = new ∨ word = new + 8) :
    (appendedMem memory kh.khTail new n).loadInt word 8 = (appendBlock kh new n).mem word := by
  have pages := shape.bounded
  have ends := fits.inside.2
  have place := fits.aligned
  have tail := shape.aligned _ (shape.tail_mem fits)
  unfold khMaxNpages at pages
  unfold khStart khEntSize pageSize at ends
  rw [appendedMem, loadInt_storeInt_aligned (by omega) aligned (by omega),
    loadInt_storeInt_aligned (by omega) aligned (by omega), loadInt_storeInt_aligned (by omega) aligned (by decide),
    appendBlock_mem]
  obtain same | rfl | rfl := known
  · rw [same]
  · simp
  · simp

theorem appendedMem_data : KeepsData kh blocks memory (appendedMem memory kh.khTail new n) := by
  intro ent member cell low high
  have tailMember := shape.tail_mem fits
  have apart := fits.apart ent member
  have tail : cell < kh.khTail ∨ kh.khTail + 8 ≤ cell := by
    by_cases here : ent = kh.khTail
    · unfold khEntSize at low
      omega
    · have others := shape.apart member tailMember here
      have header : kh.khTail + 16 ≤ kh.blockEnd kh.khTail := Nat.le_add_right _ _
      omega
  unfold khEntSize at apart
  rw [appendedMem, ByteMemory.storeInt_outside (by omega), ByteMemory.storeInt_outside (by omega),
    ByteMemory.storeInt_outside (by omega)]

end

section

variable {regions : List Bitmap} {held : Finset Nat} {final : List Nat} {calls : List PagingCall} {k : KernelMem}
  {m : PagingMem} {root others : Nat} {frames blocks : List Nat} {kh : Kheap} {ent fuel n new count : Nat}
  (laid : Laid regions) (physical : ∀ page, Managed regions page → page + 4096 ≤ 2 ^ 52) (elsewhere : Elsewhere calls)
  (backed : Backed regions held final calls root k m others frames) (headed : Headed k frames kh blocks)
include laid physical elsewhere backed

/-- A header is written in a place of the heap. -/
theorem writeEnt_backed (next dataSize : Nat) (aligned : ent % 16 = 0) (low : khStart ≤ ent)
    (high : ent + khEntSize ≤ heapPage frames.length) :
    ∃ mem m', k.writeEnt ent next dataSize = .ok (k.setMem mem) ∧
      Backed regions held final calls root (k.setMem mem) m' others frames ∧
      ∀ cell, InHeap frames.length cell → heapMem (k.setMem mem).phys frames cell =
        ((heapMem k.phys frames).storeInt ent 8 next).storeInt (ent + 8) 8 dataSize cell := by
  unfold khEntSize at high
  have first : InHeap frames.length ent := ⟨low, by omega⟩
  have second : InHeap frames.length (ent + 8) := ⟨by omega, by omega⟩
  obtain ⟨mem1, m1, linked, backed1, words1⟩ := backed.store laid physical elsewhere first (by omega) next
  obtain ⟨mem2, m2, filled, backed2, words2⟩ := backed1.store laid physical elsewhere second (by omega) dataSize
  refine ⟨mem2, m2, ?_, backed2, fun cell inside => ?_⟩
  · rw [KernelMem.writeEnt, linked]
    exact filled
  · have cells := words2 cell inside
    rw [ByteMemory.storeInt] at cells ⊢
    rw [← words1 cell inside]
    exact cells

include headed

theorem appendBlock_mem_backed (fits : Fits kh blocks n new) :
    ∃ mem m', k.appendBlock new n = .ok { k.setMem mem with khTail := new } ∧
      Backed regions held final calls root (k.setMem mem) m' others frames ∧
      ∀ cell, InHeap frames.length cell →
        heapMem (k.setMem mem).phys frames cell = appendedMem (heapMem k.phys frames) kh.khTail new n cell := by
  have tailMember := headed.shape.tail_mem fits
  have tailAligned := headed.shape.aligned _ tailMember
  have tailHere : kh.khTail < kh.blockEnd kh.khTail := by
    unfold Kheap.blockEnd khEntSize
    omega
  have room := fits.inside
  rw [← headed.npages, backed.npages] at room
  obtain ⟨mem1, m1, filled, backed1, words1⟩ := writeEnt_backed laid physical elsewhere backed 0 n fits.aligned room.1
    (Nat.le_trans (Nat.le_add_right _ _) room.2)
  obtain ⟨mem2, m2, linked, backed2, words2⟩ := backed1.store laid physical elsewhere
    (headed.inHeap backed tailMember (Nat.le_refl _) tailHere) (by omega) new
  refine ⟨mem2, m2, ?_, backed2, fun cell inside => ?_⟩
  · have tail : (k.setMem mem1).khTail = kh.khTail := headed.tail
    rw [KernelMem.appendBlock, filled]
    simp only [bind, Except.bind, tail, linked]
    rfl
  · have last := words2 cell inside
    rw [ByteMemory.storeInt] at last
    rw [appendedMem, ByteMemory.storeInt, ← words1 cell inside]
    exact last

theorem appendBlock_backed (fits : Fits kh blocks n new) :
    ∃ after m', k.appendBlock new n = .ok after ∧ Backed regions held final calls root after m' others frames ∧
      Headed after frames (appendBlock kh new n) (blocks ++ [new]) ∧
      KeepsData kh blocks (heapMem k.phys frames) (heapMem after.phys frames) := by
  obtain ⟨mem, m', appended, backed', cells⟩ := appendBlock_mem_backed laid physical elsewhere backed headed fits
  have shape := headed.shape.append fits
  have headers : ∀ ent ∈ blocks ++ [new], ent % 8 = 0 ∧ InHeap frames.length ent ∧ InHeap frames.length (ent + 8) := by
    intro ent member
    have aligned := shape.aligned ent member
    have inside := shape.inside ent member
    have pages : (appendBlock kh new n).khNpages = frames.length := headed.npages.symm.trans backed.npages
    rw [pages] at inside
    unfold Kheap.blockEnd khEntSize at inside
    exact ⟨by omega, ⟨inside.1, by unfold heapPage; omega⟩, by omega, by unfold heapPage; omega⟩
  have words : ∀ word, word % 8 = 0 → InHeap frames.length word →
      ((heapMem k.phys frames).loadInt word 8 = kh.mem word ∨ word = new ∨ word = new + 8) →
      (heapMem (k.setMem mem).phys frames).loadInt word 8 = (appendBlock kh new n).mem word :=
    fun word aligned inside known =>
      (loadInt_inHeap cells aligned inside).trans (appendedMem_word headed.shape fits _ aligned known)
  refine ⟨_, m', appended, ⟨backed'.built, backed'.map, backed'.npages, backed'.bounded, backed'.given,
    backed'.distinct, backed'.noTable⟩, ⟨shape, headed.head, rfl, headed.npages, ?_, ?_⟩, ?_⟩
  · intro ent member
    obtain ⟨aligned, inside, _⟩ := headers ent member
    refine words ent aligned inside ?_
    obtain old | added := List.mem_append.mp member
    · exact Or.inl (headed.next ent old)
    · exact Or.inr (Or.inl (List.mem_singleton.mp added))
  · intro ent member
    obtain ⟨aligned, _, inside⟩ := headers ent member
    refine words (ent + 8) (by omega) inside ?_
    obtain old | added := List.mem_append.mp member
    · exact Or.inl (headed.dataSize ent old)
    · exact Or.inr (Or.inr (congrArg (· + 8) (List.mem_singleton.mp added)))
  · intro ent member cell low high
    have inside := headed.inHeap backed member (Nat.le_trans (Nat.le_add_right _ _) low) high
    exact (cells cell inside).trans (appendedMem_data headed.shape fits _ ent member cell low high)

omit elsewhere in
/-- Another page is mapped, and the blocks stay. -/
theorem grown_backed (room : frames.length < khMaxNpages) (page : k.phys.alloc.1 ≠ physAddrNull)
    (answered : Answered final k.grown.phys.answers) :
    ∃ m', Backed regions held final calls root k.grown m' (others + 1) (frames ++ [k.phys.alloc.1]) ∧
      Headed k.grown (frames ++ [k.phys.alloc.1])
        { kh.pmmAlloc.2.vmmMapCur k.phys.alloc.1 kh.limit vfWrite with khNpages := kh.khNpages + 1 } blocks ∧
      KeepsData kh blocks (heapMem k.phys frames) (heapMem k.grown.phys (frames ++ [k.phys.alloc.1])) := by
  have pages : kh.khNpages = frames.length := headed.npages.symm.trans backed.npages
  have limit : k.limit = heapPage frames.length := by
    rw [headed.limit, headed.shape.limit_eq, pages]
    rfl
  have same : k.grown = { k with
      phys := k.phys.alloc.2.vmmMap k.cr3 k.phys.alloc.1 (heapPage frames.length) vfWrite
      khNpages := frames.length + 1 } := by
    rw [KernelMem.grown, limit, backed.npages]
    rfl
  rw [same] at answered ⊢
  obtain ⟨m', mapped, cells⟩ := backed.mapPage laid physical room answered
  have words := fun word (aligned : word % 8 = 0) inside => loadInt_inHeap cells aligned inside
  refine ⟨m', mapped, ⟨headed.shape.grow (pages.symm ▸ room) page, headed.head, headed.tail,
    congrArg (· + 1) pages.symm, ?_, ?_⟩, ?_⟩
  · intro ent member
    have aligned := headed.shape.aligned ent member
    have here : ent < kh.blockEnd ent := by
      unfold Kheap.blockEnd khEntSize
      omega
    exact (words ent (by omega) (headed.inHeap backed member (Nat.le_refl _) here)).trans (headed.next ent member)
  · intro ent member
    have aligned := headed.shape.aligned ent member
    have here : ent + 8 < kh.blockEnd ent := by
      unfold Kheap.blockEnd khEntSize
      omega
    exact (words (ent + 8) (by omega) (headed.inHeap backed member (Nat.le_add_right _ _) here)).trans
      (headed.dataSize ent member)
  · intro ent member cell low high
    exact cells cell (headed.inHeap backed member (Nat.le_trans (Nat.le_add_right _ _) low) high)

end

section

variable {regions : List Bitmap} {held : Finset Nat} {final : List Nat} {calls : List PagingCall} {k after : KernelMem}
  {m : PagingMem} {root others : Nat} {frames blocks : List Nat} {kh : Kheap} {ent fuel n new count ret : Nat}

theorem findFree_fits (shape : HeapShape kh blocks) (small : n ≤ khMaxNpages * pageSize)
    (found : Bwuhos.findFree fuel kh n = some new) : new = 0 ∨ Fits kh blocks n new := by
  obtain ⟨other, answer, fits⟩ := @findFree_spec kh blocks (blocks.length + 1) n shape (Nat.lt_succ_self _) small
  have one := findFree_mono (Nat.le_max_left fuel (blocks.length + 1)) found
  have two := findFree_mono (Nat.le_max_right fuel (blocks.length + 1)) answer
  rw [Option.some.inj (one.symm.trans two)]
  exact fits

/-- What a call of `kheap_alloc` leaves: all earlier blocks with their data, and one new block if it
succeeds. -/
def Allocated (regions : List Bitmap) (held : Finset Nat) (final : List Nat) (calls : List PagingCall) (root : Nat)
    (before : ByteMemory) (kh : Kheap) (blocks : List Nat) (n ret : Nat) (after : KernelMem) : Prop :=
  ∃ m others frames kh' added, Backed regions held final calls root after m others frames ∧
    Headed after frames kh' (blocks ++ added) ∧ KeepsData kh blocks before (heapMem after.phys frames) ∧
    (∀ ent ∈ blocks, kh'.dataSize ent = kh.dataSize ent) ∧
    (ret = 0 ∧ added = [] ∨ ∃ new, ret = new + khEntSize ∧ added = [new] ∧ kh'.dataSize new = n)

theorem Allocated.failed (backed : Backed regions held final calls root k m others frames)
    (headed : Headed k frames kh blocks) :
    Allocated regions held final calls root (heapMem k.phys frames) kh blocks n 0 k :=
  ⟨m, others, frames, kh, [], backed, (List.append_nil blocks).symm ▸ headed, fun _ _ _ _ _ => rfl, fun _ _ => rfl,
    Or.inl ⟨rfl, rfl⟩⟩

theorem Allocated.grown {grown : Kheap} {memory between : ByteMemory}
    (allocated : Allocated regions held final calls root between grown blocks n ret after)
    (sizes : grown.dataSize = kh.dataSize) (kept : KeepsData kh blocks memory between) :
    Allocated regions held final calls root memory kh blocks n ret after := by
  obtain ⟨m, others, frames, kh', added, backed, headed, keeps, same, ends⟩ := allocated
  refine ⟨m, others, frames, kh', added, backed, headed, ?_, fun ent member => ?_, ends⟩
  · intro ent member cell low high
    have also : cell < grown.blockEnd ent := by
      rw [Kheap.blockEnd, sizes]
      exact high
    exact (keeps ent member cell low also).trans (kept ent member cell low high)
  · rw [same ent member, sizes]

/-- A call allocates, or it stops for want of fuel. -/
def AllocEnds (regions : List Bitmap) (held : Finset Nat) (final : List Nat) (calls : List PagingCall) (root : Nat)
    (before : ByteMemory) (kh : Kheap) (blocks : List Nat) (fuel n : Nat)
    (result : Except KernelMem (Nat × KernelMem)) : Prop :=
  (∃ ret after, result = .ok (ret, after) ∧
    Allocated regions held final calls root before kh blocks n ret after) ∨
  fuel ≤ blocks.length ∧ ∃ stopped, result = .error stopped

theorem AllocEnds.grown {grown : Kheap} {memory between : ByteMemory} {result : Except KernelMem (Nat × KernelMem)}
    (ends : AllocEnds regions held final calls root between grown blocks fuel n result)
    (sizes : grown.dataSize = kh.dataSize) (kept : KeepsData kh blocks memory between) :
    AllocEnds regions held final calls root memory kh blocks fuel n result := by
  obtain ⟨ret, after, returned, allocated⟩ | stopped := ends
  · exact Or.inl ⟨ret, after, returned, allocated.grown sizes kept⟩
  · exact Or.inr stopped

variable (laid : Laid regions) (physical : ∀ page, Managed regions page → page + 4096 ≤ 2 ^ 52)
  (elsewhere : Elsewhere calls) (small : n ≤ khMaxNpages * pageSize)
include laid physical elsewhere

theorem Allocated.appended (backed : Backed regions held final calls root k m others frames)
    (headed : Headed k frames kh blocks) (fits : Fits kh blocks n new) :
    ∃ after, (k.appendBlock new n >>= fun appended => pure (new + khEntSize, appended)) =
        (Except.ok (new + khEntSize, after) : Except KernelMem (Nat × KernelMem)) ∧
      Allocated regions held final calls root (heapMem k.phys frames) kh blocks n (new + khEntSize) after := by
  obtain ⟨after, m', appended, backed', headed', keeps⟩ :=
    appendBlock_backed laid physical elsewhere backed headed fits
  obtain ⟨_, size, _, _, sizes⟩ := appendBlock_words headed.shape fits
  refine ⟨after, ?_, m', others, frames, _, [new], backed', headed', keeps, sizes, Or.inr ⟨new, rfl, rfl, size⟩⟩
  rw [appended]
  rfl

include small

theorem takeOrGrow_backed (backed : Backed regions held final calls root k m others frames)
    (headed : Headed k frames kh blocks)
    (grows : Answered final (KernelMem.ending Prod.snd (KernelMem.kheapGrow fuel n count k)).phys.answers →
      AllocEnds regions held final calls root (heapMem k.phys frames) kh blocks fuel n
        (KernelMem.kheapGrow fuel n count k))
    (answered : Answered final (KernelMem.ending Prod.snd (KernelMem.takeOrGrow fuel n count k)).phys.answers) :
    AllocEnds regions held final calls root (heapMem k.phys frames) kh blocks fuel n
      (KernelMem.takeOrGrow fuel n count k) := by
  rw [KernelMem.takeOrGrow, findFree_backed laid physical elsewhere backed headed] at answered ⊢
  cases found : Bwuhos.findFree fuel kh n with
  | none =>
      refine Or.inr ⟨Nat.le_of_not_lt fun enough => ?_, k, rfl⟩
      obtain ⟨new, answer, _⟩ := @findFree_spec kh blocks fuel n headed.shape enough small
      rw [found] at answer
      cases answer
  | some new =>
      rw [found] at answered
      change Answered final (KernelMem.ending Prod.snd (if new = 0 then _ else _)).phys.answers at answered
      change AllocEnds _ _ _ _ _ _ _ _ _ _ (if new = 0 then _ else _)
      by_cases full : new = 0
      · rw [if_pos full] at answered ⊢
        exact grows answered
      · rw [if_neg full]
        obtain ⟨after, appended, allocated⟩ := Allocated.appended laid physical elsewhere backed headed
          ((findFree_fits headed.shape small found).resolve_left full)
        exact Or.inl ⟨_, after, appended, allocated⟩

/-- The growth loop, with any fuel. -/
theorem kheapGrow_backed (backed : Backed regions held final calls root k m others frames)
    (headed : Headed k frames kh blocks) (room : frames.length + count ≤ khMaxNpages)
    (answered : Answered final (KernelMem.ending Prod.snd (KernelMem.kheapGrow fuel n count k)).phys.answers) :
    AllocEnds regions held final calls root (heapMem k.phys frames) kh blocks fuel n
      (KernelMem.kheapGrow fuel n count k) := by
  induction count generalizing k kh m others frames with
  | zero => exact Or.inl ⟨0, k, rfl, .failed backed headed⟩
  | succ count ih =>
      rw [KernelMem.kheapGrow_succ] at answered ⊢
      by_cases null : k.phys.alloc.1 = physAddrNull
      · rw [if_pos null] at answered
        exact absurd (List.mem_append_right _ (List.mem_singleton.mpr null.symm)) answered.notNull
      · rw [if_neg null] at answered ⊢
        obtain ⟨m', mapped, headed', keeps⟩ := grown_backed laid physical backed headed (by omega) null
          (answered.before (KernelMem.takeOrGrow_answers KernelMem.kheapGrow_answers))
        have left : (frames ++ [k.phys.alloc.1]).length + count ≤ khMaxNpages := by
          rw [List.length_append, List.length_singleton]
          omega
        exact (takeOrGrow_backed laid physical elsewhere small mapped headed' (ih mapped headed' left) answered).grown
          rfl keeps

theorem kheapAlloc_backed (backed : Backed regions held final calls root k m others frames)
    (headed : Headed k frames kh blocks)
    (answered : Answered final (KernelMem.ending Prod.snd (KernelMem.kheapAlloc fuel n k)).phys.answers) :
    AllocEnds regions held final calls root (heapMem k.phys frames) kh blocks fuel n
      (KernelMem.kheapAlloc fuel n k) := by
  rw [KernelMem.kheapAlloc_eq] at answered ⊢
  have room : frames.length + (khMaxNpages - k.khNpages) ≤ khMaxNpages := by
    have bounded := backed.bounded
    rw [backed.npages]
    omega
  exact takeOrGrow_backed laid physical elsewhere small backed headed
    (kheapGrow_backed laid physical elsewhere small backed headed room) answered

end

/-- The heap that `kheap_init` makes of a page. -/
def firstHeap (page : Nat) : Kheap where
  mem := fun _ => 0
  khHead := khStart
  khTail := khStart
  khNpages := 1
  mapped := [{ paddr := page, vaddr := khStart, flags := vfWrite }]
  pmm := fun _ => page
  taken := 1

theorem firstHeap_shape {page : Nat} (notNull : page ≠ physAddrNull) : HeapShape (firstHeap page) [khStart] where
  chain := ⟨rfl, by decide, rfl⟩
  tail := rfl
  aligned := by simp [khStart]
  inside := by simp [Kheap.blockEnd, Kheap.dataSize, firstHeap, khEntSize, pageSize]
  disjoint := List.pairwise_singleton _ _
  bounded := (by decide : 1 ≤ khMaxNpages)
  window := rfl
  backed := by simpa [firstHeap] using notNull

section

variable {regions : List Bitmap} {held : Finset Nat} {final : List Nat} {calls : List PagingCall} {k after : KernelMem}
  {m : PagingMem} {root others : Nat}

theorem writeEnt_answers {ent next dataSize : Nat} :
    (KernelMem.ending id (k.writeEnt ent next dataSize)).phys.answers = k.phys.answers :=
  (KernelMem.bind_answers fun _ => KernelMem.store_answers).trans KernelMem.store_answers

theorem Backed.empty (built : Built regions held final k.phys m root others calls) (map : k.cr3 = 4096 * root)
    (none : k.khNpages = 0) : Backed regions held final calls root k m others [] where
  built := (List.append_nil calls).symm ▸ built
  map := map
  npages := none
  bounded := Nat.zero_le _
  given := fun _ member => absurd member List.not_mem_nil
  distinct := .nil
  noTable := fun _ member => absurd member List.not_mem_nil

theorem Backed.statics {frames : List Nat} (backed : Backed regions held final calls root k m others frames)
    (khHead khTail : Nat) : Backed regions held final calls root { k with khHead, khTail } m others frames :=
  ⟨backed.built, backed.map, backed.npages, backed.bounded, backed.given, backed.distinct, backed.noTable⟩

theorem firstPage_backed (laid : Laid regions) (physical : ∀ page, Managed regions page → page + 4096 ≤ 2 ^ 52)
    (built : Built regions held final k.phys m root others calls) (map : k.cr3 = 4096 * root) (none : k.khNpages = 0)
    (answered : Answered final k.firstPage.phys.answers) :
    ∃ m', Backed regions held final calls root k.firstPage m' (others + 1) [k.phys.alloc.1] := by
  have start : heapPage ([] : List Nat).length = khStart := rfl
  have room : ([] : List Nat).length < khMaxNpages := by decide
  obtain ⟨m', backed, _⟩ := (Backed.empty built map none).mapPage laid physical room (start ▸ answered)
  rw [start] at backed
  exact ⟨m', backed.statics khStart khStart⟩

theorem kheapInit_answers (returned : KernelMem.kheapInit k = .ok (0, after)) :
    after.phys.answers = k.firstPage.phys.answers := by
  rw [KernelMem.kheapInit_eq] at returned
  split at returned
  · cases returned
  · have answers := @writeEnt_answers k.firstPage khStart 0 0
    cases written : k.firstPage.writeEnt khStart 0 0 with
    | error stopped =>
        rw [written] at returned
        cases returned
    | ok filled =>
        rw [written] at returned answers
        exact (congrArg (fun pair => pair.2.phys.answers) (Except.ok.inj returned)).symm.trans answers

theorem kheapInit_backed (laid : Laid regions) (physical : ∀ page, Managed regions page → page + 4096 ≤ 2 ^ 52)
    (elsewhere : Elsewhere calls) (built : Built regions held final k.phys m root others calls)
    (map : k.cr3 = 4096 * root) (none : k.khNpages = 0) (returned : KernelMem.kheapInit k = .ok (0, after))
    (answered : Answered final after.phys.answers) :
    ∃ m' page, Backed regions held final calls root after m' (others + 1) [page] ∧
      Headed after [page] (firstHeap page) [khStart] := by
  rw [KernelMem.kheapInit_eq] at returned
  by_cases null : k.phys.alloc.1 = physAddrNull
  · rw [if_pos null] at returned
    cases returned
  · rw [if_neg null] at returned
    have answers := @writeEnt_answers k.firstPage khStart 0 0
    cases written : k.firstPage.writeEnt khStart 0 0 with
    | error stopped =>
        rw [written] at returned
        cases returned
    | ok filled =>
        rw [written] at returned answers
        obtain rfl : filled = after := congrArg Prod.snd (Except.ok.inj returned)
        obtain ⟨m', backed⟩ := firstPage_backed laid physical built map none (answers ▸ answered)
        have room : khStart + khEntSize ≤ heapPage 1 := by decide
        have first : InHeap 1 khStart := ⟨by decide, by decide⟩
        have second : InHeap 1 (khStart + 8) := ⟨by decide, by decide⟩
        obtain ⟨mem, m2, same, filledBacked, cells⟩ := writeEnt_backed laid physical elsewhere backed 0 0
          (by decide : khStart % 16 = 0) (Nat.le_refl _) room
        obtain rfl := Except.ok.inj (same.symm.trans written)
        have words := fun word (aligned : word % 8 = 0) inside => loadInt_inHeap cells aligned inside
        refine ⟨m2, _, filledBacked, firstHeap_shape null, rfl, rfl, rfl, fun ent member => ?_, fun ent member => ?_⟩
        · rw [List.mem_singleton.mp member, words khStart (by decide) first,
            loadInt_storeInt_aligned (by decide) (by decide) (by decide), if_neg (by decide),
            loadInt_storeInt_aligned (by decide) (by decide) (by decide), if_pos rfl]
          rfl
        · rw [List.mem_singleton.mp member, words (khStart + 8) (by decide) second,
            loadInt_storeInt_aligned (by decide) (by decide) (by decide), if_pos rfl]
          rfl

end

end Bwuhos
