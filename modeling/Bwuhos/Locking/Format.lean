import Bwuhos.Locking.Print

namespace Bwuhos.Locking

open Bwuhos.Data Locked

/-! # The characters that a message is read by

The loop of `ku_print_v` by its pointer: the message is a run of characters in memory with a
terminator behind it, and what lies behind that is arbitrary.
-/

def nul : Char := Char.ofNat 0

/-- What a round of the loop hands on: a character, or a conversion with its modifier. -/
inductive Printed where
  | ch (c : Char)
  | conv (mod : Nat) (c : Char)
  deriving Repr, DecidableEq

/-- The pointer `c` as an index, the indices that were read, and what was handed on. -/
structure Format where
  cursor : Nat
  reads : List Nat
  printed : List Printed
  deriving Repr, DecidableEq

/-- A round, with the `++c` at its end. -/
def formatRound (text : Nat → Char) (s : Format) : Except Unit (Format ⊕ Format) :=
  let c := s.cursor
  if text c = nul then .ok (.inr { s with reads := s.reads ++ [c] })
  else if text c ≠ '%' then
    .ok (.inl { cursor := c + 1, reads := s.reads ++ [c], printed := s.printed ++ [.ch (text c)] })
  else if text (c + 1) = nul ∨ text (c + 1) = '%' then
    .ok (.inl { cursor := c + 2, reads := s.reads ++ [c, c + 1], printed := s.printed ++ [.ch (text c)] })
  else if fmtMod (text (c + 1)) ≠ 0 then
    .ok (.inl { cursor := c + 3, reads := s.reads ++ [c, c + 1, c + 2],
                printed := s.printed ++ [.conv (fmtMod (text (c + 1))) (text (c + 2))] })
  else
    .ok (.inl { cursor := c + 2, reads := s.reads ++ [c, c + 1],
                printed := s.printed ++ [.conv 0 (text (c + 1))] })

def formatLoop (text : Nat → Char) (fuel : Nat) : Except Unit Format :=
  loop () (formatRound text) fuel { cursor := 0, reads := [], printed := [] }

/-- The message is in memory from an index on, with its terminator. -/
structure HeldAt (text : Nat → Char) (start : Nat) (msg : List Char) : Prop where
  chars : ∀ index (bound : index < msg.length), text (start + index) = msg[index]
  terminator : text (start + msg.length) = nul
  inside : ∀ c ∈ msg, c ≠ nul

/-- What the rounds over a message hand on, from its text or from inside a conversion with a
modifier, which is 0 as long as there is none. -/
def printedFrom : Option Nat → List Char → List Printed
  | _, [] => []
  | none, c :: rest => if c = '%' then printedFrom (some 0) rest else .ch c :: printedFrom none rest
  | some mod, c :: rest =>
      if mod = 0 ∧ c = '%' then .ch c :: printedFrom none rest
      else if mod = 0 ∧ fmtMod c ≠ 0 then printedFrom (some (fmtMod c)) rest
      else .conv mod c :: printedFrom none rest

def printedOf (msg : List Char) : List Printed := printedFrom none msg

def Reading.next (reading : Reading) (c : Char) : Reading :=
  match reading with
  | .text => if c = '%' then .percent else .text
  | .percent => if c ≠ '%' ∧ fmtMod c ≠ 0 then .modifier else .text
  | .modifier => .text

/-- The message does not end inside a conversion. -/
def complete (msg : List Char) : Prop := msg.foldl Reading.next .text = .text

instance (msg : List Char) : Decidable (complete msg) := inferInstanceAs (Decidable (_ = _))

section

variable {text : Nat → Char} {start : Nat} {msg rest : List Char} {c d : Char}

theorem HeldAt.head (held : HeldAt text start (c :: rest)) : text start = c ∧ c ≠ nul :=
  ⟨held.chars 0 (Nat.succ_pos _), held.inside c List.mem_cons_self⟩

theorem HeldAt.tail (held : HeldAt text start (c :: rest)) : HeldAt text (start + 1) rest where
  chars index bound := (congrArg text (by omega)).trans (held.chars (index + 1) (Nat.succ_lt_succ bound))
  terminator := (congrArg text (by rw [List.length_cons]; omega)).trans held.terminator
  inside c member := held.inside c (List.mem_cons_of_mem _ member)

/-- The rounds lead to the terminator, or behind it. -/
structure Formatted (text : Nat → Char) (start : Nat) (msg : List Char) (before after : Format) : Prop where
  rounds : Rounds (formatRound text) before after
  cursor : after.cursor = if complete msg then start + msg.length else start + msg.length + 1
  reads : ∀ read ∈ after.reads, read ∈ before.reads ∨ read ≤ start + msg.length
  printed : complete msg → after.printed = before.printed ++ printedOf msg

variable {before next after : Format} {skipped : List Char}

/-- A round that takes some characters of the message. -/
theorem Formatted.step (later : Formatted text (start + skipped.length) rest next after)
    (again : formatRound text before = .ok (.inl next)) (same : complete (skipped ++ rest) ↔ complete rest)
    (reads : ∀ read ∈ next.reads, read ∈ before.reads ∨ read ≤ start + (skipped ++ rest).length)
    (printed : next.printed ++ printedOf rest = before.printed ++ printedOf (skipped ++ rest)) :
    Formatted text start (skipped ++ rest) before after where
  rounds := .next again later.rounds
  cursor := by simp only [later.cursor, same, List.length_append, Nat.add_assoc]
  reads read member := by
    have length := @List.length_append _ skipped rest
    obtain earlier | small := later.reads read member
    · exact reads read earlier
    · exact Or.inr (by omega)
  printed whole := (later.printed (same.mp whole)).trans printed

theorem Formatted.leads (again : formatRound text before = .ok (.inl next))
    (later : ∃ after, Formatted text (start + skipped.length) rest next after)
    (same : complete (skipped ++ rest) ↔ complete rest)
    (reads : ∀ read ∈ next.reads, read ∈ before.reads ∨ read ≤ start + (skipped ++ rest).length)
    (printed : next.printed ++ printedOf rest = before.printed ++ printedOf (skipped ++ rest)) :
    ∃ after, Formatted text start (skipped ++ rest) before after := by
  obtain ⟨after, later⟩ := later
  exact ⟨after, later.step again same reads printed⟩

/-- A round that goes on behind the terminator. -/
theorem Formatted.overrun (again : formatRound text before = .ok (.inl next)) (cut : ¬complete msg)
    (cursor : next.cursor = start + msg.length + 1)
    (reads : ∀ read ∈ next.reads, read ∈ before.reads ∨ read ≤ start + msg.length) :
    Formatted text start msg before next where
  rounds := .next again (.refl next)
  cursor := by rw [cursor, if_neg cut]
  reads := reads
  printed whole := absurd whole cut

theorem formatRound_letter (here : before.cursor = start) (present : text start ≠ nul) (letter : text start ≠ '%') :
    formatRound text before = .ok (.inl
      { cursor := start + 1, reads := before.reads ++ [start], printed := before.printed ++ [.ch (text start)] }) := by
  rw [formatRound, here, if_neg present, if_pos letter]

theorem formatRound_percent (here : before.cursor = start) (percent : text start = '%')
    (second : text (start + 1) = nul ∨ text (start + 1) = '%') :
    formatRound text before = .ok (.inl
      { cursor := start + 2, reads := before.reads ++ [start, start + 1]
        printed := before.printed ++ [.ch (text start)] }) := by
  have present : text start ≠ nul := by
    rw [percent]
    decide
  rw [formatRound, here, if_neg present, if_neg (not_not.mpr percent), if_pos second]

theorem formatRound_modifier (here : before.cursor = start) (percent : text start = '%')
    (modifier : fmtMod (text (start + 1)) ≠ 0) :
    formatRound text before = .ok (.inl
      { cursor := start + 3, reads := before.reads ++ [start, start + 1, start + 2]
        printed := before.printed ++ [.conv (fmtMod (text (start + 1))) (text (start + 2))] }) := by
  have present : text start ≠ nul := by
    rw [percent]
    decide
  have plain : ¬(text (start + 1) = nul ∨ text (start + 1) = '%') := by
    intro either
    obtain same | same := either
    · exact modifier (same ▸ rfl)
    · exact modifier (same ▸ rfl)
  rw [formatRound, here, if_neg present, if_neg (not_not.mpr percent), if_neg plain, if_pos modifier]

theorem formatRound_conversion (here : before.cursor = start) (percent : text start = '%')
    (plain : ¬(text (start + 1) = nul ∨ text (start + 1) = '%')) (conversion : fmtMod (text (start + 1)) = 0) :
    formatRound text before = .ok (.inl
      { cursor := start + 2, reads := before.reads ++ [start, start + 1]
        printed := before.printed ++ [.conv 0 (text (start + 1))] }) := by
  have present : text start ≠ nul := by
    rw [percent]
    decide
  rw [formatRound, here, if_neg present, if_neg (not_not.mpr percent), if_neg plain, if_neg (not_not.mpr conversion)]

theorem reads_append {reads new : List Nat} {limit : Nat} (small : ∀ read ∈ new, read ≤ limit) :
    ∀ read ∈ reads ++ new, read ∈ reads ∨ read ≤ limit := by
  intro read member
  obtain earlier | now := List.mem_append.mp member
  · exact Or.inl earlier
  · exact Or.inr (small read now)

theorem complete_percent (plain : d ≠ '%') :
    complete ('%' :: d :: rest) ↔
      if fmtMod d ≠ 0 then rest.foldl Reading.next .modifier = .text else complete rest := by
  by_cases modifier : fmtMod d ≠ 0
  · rw [if_pos modifier]
    simp [complete, Reading.next, plain, modifier]
  · rw [if_neg modifier]
    simp [complete, Reading.next, plain, not_not.mp modifier]

/-- Wherever the message is held, rounds from there lead to its end. -/
def Leads (text : Nat → Char) (msg : List Char) : Prop :=
  ∀ start before, HeldAt text start msg → before.cursor = start → ∃ after, Formatted text start msg before after

theorem leads_letter (letter : c ≠ '%') (later : Leads text rest) : Leads text (c :: rest) := by
  intro start before held here
  obtain ⟨first, present⟩ := held.head
  have round := formatRound_letter here (first ▸ present) (first ▸ letter)
  apply @Formatted.leads text start rest before _ [c] round
  · exact later _ _ held.tail rfl
  · simp [complete, Reading.next, letter]
  · exact reads_append fun read new => by simp at new; omega
  · simp [printedOf, printedFrom, not_not.mp, letter, first]

theorem leads_lonePercent : Leads text ['%'] := by
  intro start before held here
  have round := formatRound_percent here held.head.1 (Or.inl held.terminator)
  apply Exists.intro _ (Formatted.overrun round (by decide) rfl _)
  exact reads_append fun read new => by simp at new ⊢; omega

theorem leads_percents (later : Leads text rest) : Leads text ('%' :: '%' :: rest) := by
  intro start before held here
  have round := formatRound_percent here held.head.1 (Or.inr held.tail.head.1)
  apply @Formatted.leads text start rest before _ ['%', '%'] round
  · exact later _ _ held.tail.tail rfl
  · simp [complete, Reading.next]
  · exact reads_append fun read new => by simp at new ⊢; omega
  · simp [printedOf, printedFrom, held.head.1]

theorem leads_loneModifier (plain : d ≠ '%') (modifier : fmtMod d ≠ 0) : Leads text ['%', d] := by
  intro start before held here
  have round := formatRound_modifier here held.head.1 (held.tail.head.1 ▸ modifier)
  apply Exists.intro _ (Formatted.overrun round _ rfl _)
  · rw [complete_percent plain, if_pos modifier]
    decide
  · exact reads_append fun read new => by simp at new ⊢; omega

theorem leads_modifier (plain : d ≠ '%') (modifier : fmtMod d ≠ 0) (later : Leads text rest) :
    Leads text ('%' :: d :: c :: rest) := by
  intro start before held here
  have round := formatRound_modifier here held.head.1 (held.tail.head.1 ▸ modifier)
  apply @Formatted.leads text start rest before _ ['%', d, c] round
  · exact later _ _ held.tail.tail.tail rfl
  · exact (complete_percent plain).trans (by rw [if_pos modifier]; rfl)
  · exact reads_append fun read new => by simp at new ⊢; omega
  · simp [printedOf, printedFrom, plain, modifier, held.tail.head.1, held.tail.tail.head.1]

theorem leads_conversion (plain : d ≠ '%') (conversion : fmtMod d = 0) (later : Leads text rest) :
    Leads text ('%' :: d :: rest) := by
  intro start before held here
  obtain ⟨second, present⟩ := held.tail.head
  have other : ¬(text (start + 1) = nul ∨ text (start + 1) = '%') := by
    rw [second]
    exact fun either => either.elim present plain
  have round := formatRound_conversion here held.head.1 other (second ▸ conversion)
  apply @Formatted.leads text start rest before _ ['%', d] round
  · exact later _ _ held.tail.tail rfl
  · exact (complete_percent plain).trans (by rw [if_neg (not_not.mpr conversion)]; rfl)
  · exact reads_append fun read new => by simp at new ⊢; omega
  · simp [printedOf, printedFrom, plain, conversion, second]

theorem formatLoop_leads (text : Nat → Char) (msg : List Char) : Leads text msg := by
  induction length : msg.length using Nat.strong_induction_on generalizing msg with
  | h count ih =>
      have shorter (rest : List Char) (fewer : rest.length < count) : Leads text rest := ih _ fewer rest rfl
      cases msg with
      | nil =>
          intro start before _ here
          exact ⟨before, .refl before, here, fun read earlier => Or.inl earlier, fun _ => (List.append_nil _).symm⟩
      | cons c rest =>
          rw [List.length_cons] at length
          by_cases percent : c = '%'
          · subst percent
            cases rest with
            | nil => exact leads_lonePercent
            | cons d rest =>
                rw [List.length_cons] at length
                by_cases second : d = '%'
                · subst second
                  exact leads_percents (shorter rest (by omega))
                · by_cases modifier : fmtMod d = 0
                  · exact leads_conversion second modifier (shorter rest (by omega))
                  · cases rest with
                    | nil => exact leads_loneModifier second modifier
                    | cons e rest =>
                        rw [List.length_cons] at length
                        exact leads_modifier second modifier (shorter rest (by omega))
          · exact leads_letter percent (shorter rest (by omega))

/-- A round reads the character at the pointer, and forgets nothing. -/
theorem formatRound_reads {outcome : Format ⊕ Format} (round : formatRound text before = .ok outcome) :
    before.cursor ∈ outcome.elim Format.reads Format.reads ∧
      ∀ read ∈ before.reads, read ∈ outcome.elim Format.reads Format.reads := by
  simp only [formatRound] at round
  split at round
  · cases round
    simp +contextual
  · split at round
    · cases round
      simp +contextual
    · split at round
      · cases round
        simp +contextual
      · split at round <;> cases round <;> simp +contextual

theorem formatLoop_reads {fuel : Nat} {final : Format}
    (returned : loop () (formatRound text) fuel before = .ok final) : before.cursor ∈ final.reads := by
  cases fuel with
  | zero => cases returned
  | succ fuel =>
      cases round : formatRound text before with
      | error stop =>
          rw [loop_stopped round] at returned
          cases returned
      | ok outcome =>
          have first := (formatRound_reads round).1
          cases outcome with
          | inl next =>
              rw [loop_next round] at returned
              exact loop_partial (fun s => before.cursor ∈ s.reads) (fun final => before.cursor ∈ final.reads)
                (fun s next known round => (formatRound_reads round).2 _ known)
                (fun s final known round => (formatRound_reads round).2 _ known) first returned
          | inr last =>
              rw [loop_done round] at returned
              cases returned
              exact first

/-- A complete message is read up to its terminator and handed on. -/
theorem formatLoop_complete (held : HeldAt text 0 msg) (whole : complete msg) : ∃ final,
    Settles () (formatLoop text) final ∧ (∀ read ∈ final.reads, read ≤ msg.length) ∧ final.printed = printedOf msg := by
  obtain ⟨after, rounds, cursor, reads, printed⟩ :=
    formatLoop_leads text msg 0 { cursor := 0, reads := [], printed := [] } held rfl
  simp only [Nat.zero_add, List.not_mem_nil, false_or, if_pos whole] at cursor reads
  have terminator : text after.cursor = nul := by
    have last := held.terminator
    rwa [Nat.zero_add, ← cursor] at last
  refine ⟨_, rounds.settles (settles_loop_done (if_pos terminator)), fun read member => ?_, printed whole⟩
  obtain earlier | last := List.mem_append.mp member
  · exact reads read earlier
  · rw [List.mem_singleton.mp last, cursor]

/-- Any other message is read on behind its terminator. -/
theorem formatLoop_overruns (held : HeldAt text 0 msg) (cut : ¬complete msg) {fuel : Nat} {final : Format}
    (returned : formatLoop text fuel = .ok final) : msg.length + 1 ∈ final.reads := by
  obtain ⟨after, rounds, cursor, _, _⟩ :=
    formatLoop_leads text msg 0 { cursor := 0, reads := [], printed := [] } held rfl
  obtain ⟨left, returned⟩ := rounds.returned returned
  have beyond := formatLoop_reads returned
  rwa [cursor, if_neg cut, Nat.zero_add] at beyond

/-- The loop reads nothing behind the terminator, and so ends, if and only if the message does not
end inside a conversion. -/
theorem ku_print_v_reads_iff (text : Nat → Char) (msg : List Char) (held : HeldAt text 0 msg) :
    (∃ final, Settles () (formatLoop text) final ∧ ∀ read ∈ final.reads, read ≤ msg.length) ↔ complete msg := by
  constructor
  · intro safe
    obtain ⟨final, settles, within⟩ := safe
    apply Decidable.byContradiction
    intro cut
    obtain ⟨fuel, returned⟩ := settles.returns
    exact Nat.not_succ_le_self _ (within _ (formatLoop_overruns held cut returned))
  · intro whole
    obtain ⟨final, settles, within, _⟩ := formatLoop_complete held whole
    exact ⟨final, settles, within⟩

end

/-- The message `%`, with zeros behind it. -/
def lonePercent : Nat → Char := fun index => if index = 0 then '%' else nul

theorem lonePercent_held : HeldAt lonePercent 0 ['%'] where
  chars index bound := by
    obtain rfl : index = 0 := by simpa using bound
    rfl
  terminator := rfl
  inside c member := by
    rw [List.mem_singleton.mp member]
    decide

/-- Its terminator is skipped. -/
theorem ku_print_v_lonePercent : HeldAt lonePercent 0 ['%'] ∧
    ¬∃ final, Settles () (formatLoop lonePercent) final ∧ ∀ read ∈ final.reads, read ≤ ['%'].length := by
  refine ⟨lonePercent_held, fun safe => ?_⟩
  obtain ⟨final, settles, within⟩ := safe
  obtain ⟨fuel, returned⟩ := settles.returns
  exact Nat.not_succ_le_self _ (within _ (formatLoop_overruns lonePercent_held (by decide) returned))

/-- The message `%%`, with zeros behind it. -/
def escapedPercent : Nat → Char := fun index => if index < 2 then '%' else nul

theorem escapedPercent_held : HeldAt escapedPercent 0 ['%', '%'] where
  chars index bound := by
    rw [List.length_cons, List.length_singleton] at bound
    obtain rfl | rfl : index = 0 ∨ index = 1 := by omega
    all_goals rfl
  terminator := rfl
  inside c member := by
    simp only [List.mem_cons, List.not_mem_nil, or_false, or_self] at member
    rw [member]
    decide

theorem ku_print_v_reads_iff_escapedPercent : ∃ final,
    Settles () (formatLoop escapedPercent) final ∧ ∀ read ∈ final.reads, read ≤ ['%', '%'].length :=
  (ku_print_v_reads_iff escapedPercent ['%', '%'] escapedPercent_held).mpr (by decide)

section

variable {World : Type} {env : Env World} {msg : List Char} {args : List PrintArg}

def performPrinted (env : Env World) : List Printed → List PrintArg → Devices World Unit
  | [], _ => return ()
  | .ch c :: rest, args => do
      spWriteCh env c.toNat
      performPrinted env rest args
  | .conv mod c :: rest, args =>
      match argsLeft c args with
      | none => stop .outOfBounds
      | some left => do
          printConv env c mod args
          performPrinted env rest left

theorem printMsg_printed (whole : complete msg) : printMsg env msg args = performPrinted env (printedOf msg) args := by
  fun_induction printMsg env msg args with
  | case1 => rfl
  | case2 c =>
      have letter : c ≠ '%' := by
        intro percent
        subst percent
        exact absurd whole (by decide)
      simp [printedOf, printedFrom, letter, performPrinted]
  | case3 c d rest args letter ih =>
      have later : complete (d :: rest) := by simpa [complete, Reading.next, letter] using whole
      rw [printedOf, printedFrom, if_neg letter, performPrinted, ih later, printedOf]
  | case4 c rest args percent ih =>
      obtain rfl : c = '%' := not_not.mp percent
      have later : complete rest := by simpa [complete, Reading.next] using whole
      rw [ih later]
      simp [printedOf, printedFrom, performPrinted]
  | case5 c d rest args percent other plain missing =>
      obtain rfl : c = '%' := not_not.mp percent
      simp [printedOf, printedFrom, other, plain, performPrinted, missing]
  | case6 c d rest args percent other plain left taken ih =>
      obtain rfl : c = '%' := not_not.mp percent
      have later : complete rest := by
        have next := (complete_percent other).mp whole
        rwa [if_neg (not_not.mpr plain)] at next
      rw [ih later]
      simp [printedOf, printedFrom, other, plain, performPrinted, taken]
  | case7 c d args percent other modified =>
      obtain rfl : c = '%' := not_not.mp percent
      have next := (complete_percent other).mp whole
      rw [if_pos modified] at next
      cases next
  | case8 c d args percent other modified conv rest missing =>
      obtain rfl : c = '%' := not_not.mp percent
      simp [printedOf, printedFrom, other, modified, performPrinted, missing]
  | case9 c d args percent other modified conv rest left taken ih =>
      obtain rfl : c = '%' := not_not.mp percent
      have later : complete rest := by
        have next := (complete_percent other).mp whole
        rwa [if_pos modified] at next
      rw [ih later]
      simp [printedOf, printedFrom, other, modified, performPrinted, taken]

/-- A message whose arguments fit is complete. -/
theorem fits_complete {reading : Reading} (fit : fits reading msg args = true) :
    msg.foldl Reading.next reading = .text := by
  induction msg generalizing reading args with
  | nil => simpa [fits] using fit
  | cons c rest ih =>
      rw [fits] at fit
      rw [List.foldl_cons]
      cases reading with
      | text => exact ih fit
      | percent =>
          by_cases second : c = '%'
          · have next : Reading.next .percent c = .text := by simp [Reading.next, second]
            rw [next]
            exact ih (by simpa [second] using fit)
          · by_cases modifier : fmtMod c ≠ 0
            · have next : Reading.next .percent c = .modifier := by simp [Reading.next, second, modifier]
              rw [next]
              exact ih (by simpa [second, modifier] using fit)
            · have next : Reading.next .percent c = .text := by simp [Reading.next, modifier]
              rw [next]
              cases taken : argsLeft c args with
              | none => simp [second, not_not.mp modifier, taken] at fit
              | some left => exact ih (by simpa [second, not_not.mp modifier, taken] using fit)
      | modifier =>
          change rest.foldl Reading.next .text = .text
          cases taken : argsLeft c args with
          | none => simp [taken] at fit
          | some left => exact ih (by simpa [taken] using fit)

end

end Bwuhos.Locking
