import Bwuhos.Pmm.Region
import Mathlib.Data.List.Nodup

namespace Bwuhos

open Bwuhos.Data

/-! # Refilling the page stack

`bm_feed_stk` moves clear frames onto the stack.  `Fed` says what any part of it did
to the bitmaps: the bits of the pushed frames, which were clear, are now set, and no
other bit changed.
-/

variable {regions : List Bitmap} {before middle after : ByteMemory} {bm : Bitmap}

structure Fed (regions : List Bitmap) (before after : ByteMemory) (pushed : List Nat) : Prop where
  bits : ∀ bm ∈ regions, ∀ index < bm.npage,
    (bm.taken after index = true ↔ bm.taken before index = true ∨ bm.frame index ∈ pushed)
  fresh : ∀ page ∈ pushed, ∃ bm ∈ regions, ∃ index < bm.npage,
    page = bm.frame index ∧ bm.taken before index = false
  nodup : pushed.Nodup

namespace Fed

variable {first second pushed : List Nat} {index : Nat}

theorem refl (regions : List Bitmap) (mem : ByteMemory) : Fed regions mem mem [] :=
  ⟨fun _ _ _ _ => by simp, by simp, .nil⟩

theorem push (laid : Laid regions) (member : bm.reset ∈ regions) (bound : index < bm.npage)
    (clear : bm.taken before index = false) :
    Fed regions before (BitArray.set before bm.data index) [bm.frame index] := by
  refine ⟨fun other otherMember position positionBound => ?_, ?_, List.nodup_singleton _⟩
  · have written := laid.taken_set before member otherMember bound positionBound
    simp only [Bitmap.reset_data, Bitmap.reset_frame] at written
    rw [written, List.mem_singleton, or_comm]
  · intro page inPushed
    rw [List.mem_singleton] at inPushed
    exact ⟨bm.reset, member, index, bound, inPushed, clear⟩

theorem trans (fed : Fed regions before middle first) (next : Fed regions middle after second) :
    Fed regions before after (second ++ first) := by
  refine ⟨fun bm member index bound => ?_, ?_, ?_⟩
  · rw [next.bits bm member index bound, fed.bits bm member index bound, List.mem_append, or_assoc,
      or_comm (a := bm.frame index ∈ first)]
  · intro page inEither
    rcases List.mem_append.mp inEither with inSecond | inFirst
    · obtain ⟨bm, member, index, bound, same, clear⟩ := next.fresh page inSecond
      refine ⟨bm, member, index, bound, same, ?_⟩
      by_contra alreadyTaken
      have stillTaken := (fed.bits bm member index bound).mpr (Or.inl (by simpa using alreadyTaken))
      simp [stillTaken] at clear
    · exact fed.fresh page inFirst
  · refine List.Nodup.append next.nodup fed.nodup ?_
    intro page inSecond inFirst
    obtain ⟨bm, member, index, bound, same, clear⟩ := next.fresh page inSecond
    have taken := (fed.bits bm member index bound).mpr (Or.inr (same ▸ inFirst))
    simp [taken] at clear

theorem keeps_taken (fed : Fed regions before after pushed) (member : bm.reset ∈ regions)
    (bound : index < bm.npage) (taken : bm.taken before index = true) : bm.taken after index = true :=
  (fed.bits bm.reset member index bound).mpr (Or.inl taken)

end Fed

/-- The hint of a region never passes a clear bit. -/
def Bitmap.HintSound (mem : ByteMemory) (bm : Bitmap) : Prop :=
  ∀ index < bm.firstFree, index < bm.npage → bm.taken mem index = true

/-- Every frame of the region is marked in its bitmap. -/
def Bitmap.Full (mem : ByteMemory) (bm : Bitmap) : Prop :=
  ∀ index < bm.npage, bm.taken mem index = true

theorem bmScan_spec (mem : ByteMemory) (bm : Bitmap) (count free : Nat) :
    free ≤ bmScan mem bm count free ∧
      ∀ index, free ≤ index → index < bmScan mem bm count free → bm.taken mem index = true := by
  induction count generalizing free with
  | zero => exact ⟨Nat.le_refl _, fun index lower upper => absurd upper (Nat.not_lt.mpr lower)⟩
  | succ count ih =>
      unfold bmScan
      by_cases taken : bm.taken mem free = true
      · rw [if_pos taken]
        obtain ⟨lower, passed⟩ := ih (free + 1)
        refine ⟨by omega, fun index above below => ?_⟩
        by_cases here : index = free
        · rw [here]; exact taken
        · exact passed index (by omega) below
      · rw [if_neg taken]
        exact ⟨Nat.le_refl _, fun index lower upper => absurd upper (Nat.not_lt.mpr lower)⟩

/-- What the inner loop of `bm_feed_stk` does from frame `index` on. -/
structure PagesFed (regions : List Bitmap) (bm : Bitmap) (index count : Nat)
    (before : ByteMemory) (stk : List Nat) (after : ByteMemory × List Nat) (pushed : List Nat) : Prop where
  fed : Fed regions before after.1 pushed
  stack : after.2 = pushed ++ stk
  capped : after.2.length ≤ pageStkCap
  firstTaken : 0 < count → bm.taken after.1 index = true
  exhausted : after.2.length < pageStkCap →
    ∀ position, index ≤ position → position < index + count → bm.taken after.1 position = true

theorem bmFeedPage_spec (laid : Laid regions) (member : bm.reset ∈ regions) (index : Nat)
    (bound : index < bm.npage) (before : ByteMemory) (stk : List Nat) :
    ∃ pushed, Fed regions before
        (if bm.taken before index then (before, stk)
          else (BitArray.set before bm.data index, bm.frame index :: stk)).1 pushed ∧
      (if bm.taken before index then (before, stk)
          else (BitArray.set before bm.data index, bm.frame index :: stk)).2 = pushed ++ stk ∧
      pushed.length ≤ 1 ∧
      bm.taken (if bm.taken before index then (before, stk)
          else (BitArray.set before bm.data index, bm.frame index :: stk)).1 index = true := by
  by_cases taken : bm.taken before index = true
  · simp only [if_pos taken]
    exact ⟨[], Fed.refl _ _, rfl, Nat.zero_le _, taken⟩
  · simp only [if_neg taken]
    have fed := Fed.push laid member bound (eq_false_of_ne_true taken)
    exact ⟨[bm.frame index], fed, rfl, Nat.le_refl _,
      (fed.bits bm.reset member index bound).mpr (Or.inr (List.mem_singleton_self _))⟩

theorem bmFeedPages_spec (laid : Laid regions) (member : bm.reset ∈ regions) (count index : Nat)
    (before : ByteMemory) (stk : List Nat) (inside : index + count ≤ bm.npage) (room : stk.length < pageStkCap) :
    ∃ pushed, PagesFed regions bm index count before stk (bmFeedPages bm count index before stk) pushed := by
  induction count generalizing index before stk with
  | zero =>
      exact ⟨[], Fed.refl _ _, rfl, Nat.le_of_lt room, fun positive => absurd positive (by decide),
        fun _ _ _ _ => by omega⟩
  | succ count ih =>
      obtain ⟨pushed, fed, stack, single, taken⟩ := bmFeedPage_spec laid member index (by omega) before stk
      unfold bmFeedPages
      generalize (if bm.taken before index then (before, stk)
        else (BitArray.set before bm.data index, bm.frame index :: stk)) = here at fed stack taken
      have length : here.2.length ≤ pageStkCap := by rw [stack, List.length_append]; omega
      dsimp only
      by_cases full : pageStkCap ≤ here.2.length
      · rw [if_pos full]
        exact ⟨pushed, fed, stack, length, fun _ => taken, fun notFull => absurd full (Nat.not_le.mpr notFull)⟩
      · rw [if_neg full]
        obtain ⟨others, rest⟩ := ih (index + 1) here.1 here.2 (by omega) (Nat.not_le.mp full)
        refine ⟨others ++ pushed, fed.trans rest.fed, ?_, rest.capped, fun _ => ?_, ?_⟩
        · rw [rest.stack, stack, List.append_assoc]
        · exact rest.fed.keeps_taken member (by omega) taken
        · intro notFull position lower upper
          by_cases first : position = index
          · rw [first]; exact rest.fed.keeps_taken member (by omega) taken
          · exact rest.exhausted notFull position (by omega) (by omega)

/-- One region of the refill.  The hint moves forward by at least one frame, and the
frame it leaves behind was marked before the loop could stop early. -/
theorem bmFeedRegion_spec (laid : Laid regions) (member : bm.reset ∈ regions) {stk : List Nat}
    (sound : bm.HintSound before) (room : stk.length < pageStkCap) :
    ∃ pushed, Fed regions before (bmFeedRegion bm before stk).2.1 pushed ∧
      (bmFeedRegion bm before stk).2.2 = pushed ++ stk ∧
      (bmFeedRegion bm before stk).2.2.length ≤ pageStkCap ∧
      (bmFeedRegion bm before stk).1.reset = bm.reset ∧
      (bmFeedRegion bm before stk).1.HintSound (bmFeedRegion bm before stk).2.1 ∧
      ((bmFeedRegion bm before stk).2.2.length < pageStkCap →
        bm.Full (bmFeedRegion bm before stk).2.1) := by
  -- an exhausted region has its hint at or past the end, and then the loop is empty
  have loop : ∃ pushed, PagesFed regions bm bm.firstFree (bm.npage - bm.firstFree) before stk
      (bmFeedPages bm (bm.npage - bm.firstFree) bm.firstFree before stk) pushed := by
    by_cases inside : bm.firstFree ≤ bm.npage
    · exact bmFeedPages_spec laid member _ _ before stk (by omega) room
    · rw [show bm.npage - bm.firstFree = 0 by omega]
      exact ⟨[], Fed.refl _ _, rfl, Nat.le_of_lt room, fun positive => absurd positive (by decide),
        fun _ _ _ _ => by omega⟩
  obtain ⟨pushed, pages⟩ := loop
  simp only [bmFeedRegion]
  generalize bmFeedPages bm (bm.npage - bm.firstFree) bm.firstFree before stk = fed at pages
  have behind : ∀ index ≤ bm.firstFree, index < bm.npage → bm.taken fed.1 index = true := by
    intro index lower bound
    by_cases here : index = bm.firstFree
    · rw [here]; exact pages.firstTaken (by omega)
    · exact pages.fed.keeps_taken member bound (sound index (by omega) bound)
  refine ⟨pushed, pages.fed, pages.stack, pages.capped, rfl, ?_, ?_⟩
  · intro index below bound
    obtain ⟨_, passed⟩ := bmScan_spec fed.1 bm (bm.npage - u64 (bm.firstFree + 1)) (u64 (bm.firstFree + 1))
    by_cases old : index ≤ bm.firstFree
    · exact behind index old bound
    · exact passed index (Nat.le_trans (u64_le _) (by omega)) below
  · intro notFull index bound
    by_cases old : index ≤ bm.firstFree
    · exact behind index old bound
    · exact pages.exhausted notFull index (by omega) (by omega)

/-- What the outer loop of `bm_feed_stk` does over a list of regions. -/
structure RegionsFed (regions bms : List Bitmap) (before : ByteMemory) (stk : List Nat)
    (after : List Bitmap × ByteMemory × List Nat) (pushed : List Nat) : Prop where
  fed : Fed regions before after.2.1 pushed
  stack : after.2.2 = pushed ++ stk
  capped : after.2.2.length ≤ pageStkCap
  geometry : after.1.map Bitmap.reset = bms.map Bitmap.reset
  hints : ∀ bm ∈ after.1, bm.HintSound after.2.1
  exhausted : after.2.2.length < pageStkCap → ∀ bm ∈ bms, bm.Full after.2.1

theorem Fed.hintSound {pushed : List Nat} (fed : Fed regions before after pushed)
    (member : bm.reset ∈ regions) (sound : bm.HintSound before) : bm.HintSound after :=
  fun index below bound => fed.keeps_taken member bound (sound index below bound)

theorem bmFeedRegions_spec (laid : Laid regions) (bms : List Bitmap) (before : ByteMemory) (stk : List Nat)
    (members : ∀ bm ∈ bms, bm.reset ∈ regions) (sound : ∀ bm ∈ bms, bm.HintSound before)
    (capped : stk.length ≤ pageStkCap) :
    ∃ pushed, RegionsFed regions bms before stk (bmFeedRegions bms before stk) pushed := by
  induction bms generalizing before stk with
  | nil => exact ⟨[], Fed.refl _ _, rfl, capped, rfl, by simp [bmFeedRegions], by simp⟩
  | cons bm rest ih =>
      have member := members bm (by simp)
      unfold bmFeedRegions
      by_cases room : stk.length < pageStkCap
      · obtain ⟨pushed, fed, stack, length, same, hint, full⟩ :=
          bmFeedRegion_spec laid member (sound bm (by simp)) room
        generalize bmFeedRegion bm before stk = here at fed stack length same hint full
        obtain ⟨others, remaining⟩ := ih here.2.1 here.2.2
          (fun other otherMember => members other (by simp [otherMember]))
          (fun other otherMember => fed.hintSound (members other (by simp [otherMember]))
            (sound other (by simp [otherMember]))) length
        rw [if_pos room]
        dsimp only
        refine ⟨others ++ pushed, fed.trans remaining.fed, ?_, remaining.capped, ?_, ?_, ?_⟩
        · rw [remaining.stack, stack, List.append_assoc]
        · rw [List.map_cons, List.map_cons, remaining.geometry, same]
        · intro other otherMember
          rcases List.mem_cons.mp otherMember with equal | inRest
          · rw [equal]
            exact remaining.fed.hintSound (same ▸ member) hint
          · exact remaining.hints other inRest
        · intro notFull other otherMember
          dsimp only at notFull
          have shorter : here.2.2.length < pageStkCap := by
            have length := congrArg List.length remaining.stack
            rw [List.length_append] at length
            omega
          rcases List.mem_cons.mp otherMember with equal | inRest
          · rw [equal]
            exact fun index bound => remaining.fed.keeps_taken member bound (full shorter index bound)
          · exact remaining.exhausted notFull other inRest
      · rw [if_neg room]
        exact ⟨[], Fed.refl _ _, rfl, capped, rfl, sound, fun notFull => absurd notFull room⟩

end Bwuhos
