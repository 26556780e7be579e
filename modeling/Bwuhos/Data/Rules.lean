import Bwuhos.Data.Program

namespace Bwuhos.Data

/-! # Rules for programs

What a program does with locks and with the state, seen through a ghost that it carries
along.  Rules say what each kind of step asks for, and what the ghost is then.
-/

/-- For every kind of step, its condition and what has to hold of the ghost that it leaves. -/
structure Rules (Lock State Ghost : Type) where
  lock : Lock → Ghost → (Ghost → Prop) → Prop
  unlock : Lock → Ghost → (Ghost → Prop) → Prop
  act : State → State → Ghost → (Ghost → Prop) → Prop
  lock_mono : ∀ {mutex ghost} {post wider : Ghost → Prop}, (∀ next, post next → wider next) →
    lock mutex ghost post → lock mutex ghost wider
  unlock_mono : ∀ {mutex ghost} {post wider : Ghost → Prop}, (∀ next, post next → wider next) →
    unlock mutex ghost post → unlock mutex ghost wider
  act_mono : ∀ {state final ghost} {post wider : Ghost → Prop}, (∀ next, post next → wider next) →
    act state final ghost post → act state final ghost wider

namespace Program

variable {Lock Fault State Inner Ghost Part Result Next Carried Item : Type}

/-- The program keeps to the rules from a ghost on, and where it returns, its result and
its ghost satisfy `post`.  A loop does so by an invariant. -/
def Follows (rules : Rules Lock State Ghost) :
    {Result : Type} → Program Lock Fault State Result → Ghost → (Result → Ghost → Prop) → Prop
  | _, .ret result, ghost, post => post result ghost
  | _, .stop _, _, _ => True
  | _, .lock mutex, ghost, post => rules.lock mutex ghost (post ())
  | _, .unlock mutex, ghost, post => rules.unlock mutex ghost (post ())
  | _, .act step, ghost, post =>
      ∀ state result final, step state = .ok (result, final) → rules.act state final ghost (post result)
  | _, .andThen first second, ghost, post =>
      Follows rules first ghost fun value ghost => Follows rules (second value) ghost post
  | _, @Program.repeating _ _ _ Carried _ body carried, ghost, post =>
      ∃ invariant : Carried → Ghost → Prop, invariant carried ghost ∧ ∀ carried ghost, invariant carried ghost →
        Follows rules (body carried) ghost fun outcome ghost =>
          match outcome with
          | .inl next => invariant next ghost
          | .inr result => post result ghost

variable {rules : Rules Lock State Ghost} {ghost : Ghost}

/-- Two programs one after the other. -/
theorem Follows.bind {first : Program Lock Fault State Part} {second : Part → Program Lock Fault State Result}
    {post : Result → Ghost → Prop}
    (follows : Follows rules first ghost fun value next => Follows rules (second value) next post) :
    Follows rules (first >>= second) ghost post := follows

theorem Follows.parts {first : Program Lock Fault State Part} {second : Part → Program Lock Fault State Result}
    {post : Result → Ghost → Prop} (follows : Follows rules (andThen first second) ghost post) :
    Follows rules first ghost fun value next => Follows rules (second value) next post := follows

theorem Follows.mono {program : Program Lock Fault State Result} {post wider : Result → Ghost → Prop}
    (follows : Follows rules program ghost post) (included : ∀ result next, post result next → wider result next) :
    Follows rules program ghost wider := by
  induction program generalizing ghost with
  | ret result => exact included result ghost follows
  | stop fault => trivial
  | lock mutex => exact rules.lock_mono (included ()) follows
  | unlock mutex => exact rules.unlock_mono (included ()) follows
  | act step =>
      exact fun state result final stepped => rules.act_mono (included result) (follows state result final stepped)
  | andThen first second first_ih second_ih =>
      exact first_ih follows fun value next rest => second_ih value rest included
  | repeating body carried ih =>
      obtain ⟨invariant, start, kept⟩ := follows
      refine ⟨invariant, start, fun carried ghost holds => ih carried (kept carried ghost holds) ?_⟩
      intro outcome next ends
      cases outcome with
      | inl again => exact ends
      | inr result => exact included result next ends

/-- How a step leaves the locks and the state, with what the rules say of the ghost. -/
inductive Moves [DecidableEq Lock] (rules : Rules Lock State Ghost) (held : Lock → Bool) (state : State) (ghost : Ghost)
    (post : Ghost → Prop) : (Lock → Bool) → State → Prop
  | silent (kept : post ghost) : Moves rules held state ghost post held state
  | lock (mutex : Lock) (free : held mutex = false) (allowed : rules.lock mutex ghost post) :
      Moves rules held state ghost post (Function.update held mutex true) state
  | unlock (mutex : Lock) (taken : held mutex = true) (allowed : rules.unlock mutex ghost post) :
      Moves rules held state ghost post (Function.update held mutex false) state
  | act (final : State) (allowed : rules.act state final ghost post) : Moves rules held state ghost post held final

variable [DecidableEq Lock] {held after : Lock → Bool} {state final : State}

theorem Moves.mono {post wider : Ghost → Prop} (moves : Moves rules held state ghost post after final)
    (included : ∀ next, post next → wider next) : Moves rules held state ghost wider after final := by
  cases moves with
  | silent kept => exact .silent (included ghost kept)
  | lock mutex free allowed => exact .lock mutex free (rules.lock_mono included allowed)
  | unlock mutex taken allowed => exact .unlock mutex taken (rules.unlock_mono included allowed)
  | act _ allowed => exact .act final (rules.act_mono included allowed)

omit [DecidableEq Lock] in
theorem Follows.finish {first : Program Lock Fault State Part} {second : Part → Program Lock Fault State Result}
    {rest : Program Lock Fault State Result} {post : Result → Ghost → Prop}
    (follows : Follows rules (andThen first second) ghost post) (ended : finish second first = some rest) :
    Follows rules rest ghost post := by
  cases first with
  | ret value =>
      cases ended
      exact follows
  | stop fault =>
      cases ended
      trivial
  | _ => cases ended

/-- A step of a program that keeps to the rules is one that they allow, and the rest keeps to them. -/
theorem Follows.step {program rest : Program Lock Fault State Result} {post : Result → Ghost → Prop}
    (follows : Follows rules program ghost post) (stepped : program.step held state = some (after, final, rest)) :
    Moves rules held state ghost (fun next => Follows rules rest next post) after final := by
  induction program generalizing ghost after final with
  | ret result => cases stepped
  | stop fault => cases stepped
  | lock mutex =>
      simp only [Program.step] at stepped
      split at stepped
      · cases stepped
      · next free =>
          cases stepped
          exact .lock mutex (Bool.of_not_eq_true free) follows
  | unlock mutex =>
      simp only [Program.step] at stepped
      split at stepped
      · next taken =>
          cases stepped
          exact .unlock mutex taken follows
      · cases stepped
  | act step =>
      simp only [Program.step] at stepped
      split at stepped
      · cases stepped
        exact .silent trivial
      · next outcome =>
          cases stepped
          exact .act _ (follows state _ _ outcome)
  | andThen first second first_ih second_ih =>
      simp only [Program.step] at stepped
      split at stepped
      · next ended =>
          cases stepped
          exact .silent (follows.finish ended)
      · obtain ⟨moved, firstStep, same⟩ := Option.map_eq_some_iff.mp stepped
        cases same
        exact first_ih follows firstStep
  | repeating body carried ih =>
      cases stepped
      obtain ⟨invariant, start, kept⟩ := follows
      refine .silent ((kept carried ghost start).mono fun outcome next ends => ?_)
      cases outcome with
      | inl again => exact ⟨invariant, ends, kept⟩
      | inr result => exact ends

end Program

end Bwuhos.Data
