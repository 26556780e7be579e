import Bwuhos.BlkCache.Reads
import Bwuhos.Fat.Dirent
import Mathlib.Logic.Relation

namespace Bwuhos

open Bwuhos.Data

/-! # What a walk leaves alone

On every device, the directory walks of `fat.c` change the block cache of the driver and
nothing else of it, and the cache only by reads.
-/

def CacheStep {World : Type} (platform : Platform World) (before after : BlkCache World) : Prop :=
  ∃ addr n world result, blkCacheRd platform before addr n world = .ok result ∧ after = result.cache

/-- The driver is as before but for its cache, and reads lead from one cache to the other. -/
structure OnlyReads {World : Type} (platform : Platform World) (before after : FatState World) : Prop where
  driver : after.driver = { before.driver with blkCache := after.driver.blkCache }
  cache : Relation.ReflTransGen (CacheStep platform) before.driver.blkCache after.driver.blkCache

section

variable {World : Type} {platform : Platform World} {before middle after : FatState World} {fuel : Nat}

theorem OnlyReads.refl (s : FatState World) : OnlyReads platform s s := ⟨rfl, .refl⟩

theorem OnlyReads.trans (first : OnlyReads platform before middle) (second : OnlyReads platform middle after) :
    OnlyReads platform before after :=
  ⟨by rw [second.driver, first.driver], first.cache.trans second.cache⟩

theorem OnlyReads.fileDescs (only : OnlyReads platform before after) :
    after.driver.fileDescs = before.driver.fileDescs := by
  rw [only.driver]

theorem Coherent.reads {dev : Blkdev World} {contents : Nat → List UInt8} {cache last : BlkCache World}
    (coherent : Coherent cache dev contents) (delivers : Delivers dev contents) (bound : dev.nblk < 2 ^ 64)
    (reads : Relation.ReflTransGen (CacheStep platform) cache last) : Coherent last dev contents := by
  induction reads with
  | refl => exact coherent
  | tail _ step ih =>
      obtain ⟨addr, n, world, result, returned, rfl⟩ := step
      exact ih.kept delivers bound returned

theorem reads_null {cache last : BlkCache World} (reads : Relation.ReflTransGen (CacheStep platform) cache last) :
    last.buf = none ↔ cache.buf = none := by
  induction reads with
  | refl => rfl
  | tail _ step ih =>
      obtain ⟨addr, n, world, result, returned, rfl⟩ := step
      exact (blkCacheRd_null returned).trans ih

theorem loop_onlyReads {State Result : Type} {body : State → Except Stop (State ⊕ Result)} {start : State}
    {result : Result} (inside : State → FatState World) (last : Result → FatState World)
    (rounds : ∀ state outcome, body state = .ok outcome →
      OnlyReads platform (inside state) (outcome.elim inside last))
    (returned : loop .outOfFuel body fuel start = .ok result) : OnlyReads platform (inside start) (last result) := by
  refine loop_partial (fun state => OnlyReads platform (inside start) (inside state))
    (fun result => OnlyReads platform (inside start) (last result)) ?_ ?_ (.refl (inside start)) returned
  · exact fun state next only round => only.trans (rounds _ _ round)
  · exact fun state result only round => only.trans (rounds _ _ round)

theorem readEnt_onlyReads {de : Nat} {ent : Option (List UInt8)}
    (returned : readEnt platform before de = .ok (ent, after)) : OnlyReads platform before after := by
  obtain ⟨rd, read, finished⟩ := bind_eq_ok returned
  cases finished
  exact ⟨rfl, .single ⟨de, 32, before.world, rd, read, rfl⟩⟩

theorem skipRound_onlyReads {de : Nat} {outcome : (Nat × FatState World) ⊕ (EntWalk × FatState World)}
    (returned : skipRound platform de before = .ok outcome) :
    OnlyReads platform before (outcome.elim Prod.snd Prod.snd) := by
  obtain ⟨⟨ent, after⟩, read, finished⟩ := bind_eq_ok returned
  have only := readEnt_onlyReads read
  cases ent with
  | none =>
      cases finished
      exact only
  | some ent =>
      simp only at finished
      split at finished
      · cases finished
        exact only
      · split at finished
        · cases finished
          exact only
        · split at finished <;> cases finished <;> exact only

theorem nextRound_onlyReads {last de : Nat} {outcome : (Nat × FatState World) ⊕ (EntWalk × FatState World)}
    (returned : nextRound platform last de before = .ok outcome) :
    OnlyReads platform before (outcome.elim Prod.snd Prod.snd) := by
  obtain ⟨⟨ent, after⟩, read, finished⟩ := bind_eq_ok returned
  have only := readEnt_onlyReads read
  cases ent with
  | none =>
      cases finished
      exact only
  | some ent =>
      simp only at finished
      split at finished
      · cases finished
        exact only
      · split at finished <;> cases finished <;> exact only

theorem fatNextDirent_onlyReads {de next : Nat}
    (returned : fatNextDirent platform fuel before de = .ok (next, after)) :
    OnlyReads platform before after := by
  obtain ⟨⟨skipped, middle⟩, skip, rest⟩ := bind_eq_ok returned
  have first := loop_onlyReads Prod.snd Prod.snd (fun _ _ => skipRound_onlyReads) skip
  cases skipped with
  | ret code =>
      cases rest
      exact first
  | «at» last =>
      obtain ⟨⟨walk, final⟩, walked, finished⟩ := bind_eq_ok rest
      have second := loop_onlyReads Prod.snd Prod.snd (fun _ _ => nextRound_onlyReads) walked
      cases walk <;> cases finished <;> exact first.trans second

theorem getDirentRound_onlyReads {de : Nat} {name : List UInt8}
    {outcome : (Nat × List UInt8 × FatState World) ⊕ (Option DirentAt × FatState World)}
    (returned : getDirentRound platform de name before = .ok outcome) :
    OnlyReads platform before (outcome.elim (fun next => next.2.2) Prod.snd) := by
  obtain ⟨⟨ent, after⟩, read, finished⟩ := bind_eq_ok returned
  have only := readEnt_onlyReads read
  cases ent with
  | none =>
      cases finished
      exact only
  | some ent =>
      simp only at finished
      split at finished
      · cases finished
        exact only
      · split at finished
        · cases finished
          exact only
        · split at finished
          · obtain ⟨name, _, stored⟩ := bind_eq_ok finished
            cases stored
            exact only
          · cases finished
            exact only

theorem fatGetDirentInfo_onlyReads {de : Nat} {dirent : Option DirentAt}
    (returned : fatGetDirentInfo platform fuel before de = .ok (dirent, after)) : OnlyReads platform before after :=
  loop_onlyReads (fun state => state.2.2) Prod.snd (fun _ _ => getDirentRound_onlyReads) returned

theorem findRound_onlyReads {de : Nat} {name : List UInt8} {examined : List DirentAt}
    {outcome : (Nat × List DirentAt × FatState World) ⊕ FindResult World}
    (returned : findRound platform fuel name de examined before = .ok outcome) :
    OnlyReads platform before (outcome.elim (fun next => next.2.2) FindResult.state) := by
  obtain ⟨⟨dirent, middle⟩, got, rest⟩ := bind_eq_ok returned
  have first := fatGetDirentInfo_onlyReads got
  cases dirent with
  | none =>
      cases rest
      exact first
  | some dirent =>
      simp only at rest
      split at rest
      · cases rest
        exact first
      · obtain ⟨⟨next, after⟩, moved, finished⟩ := bind_eq_ok rest
        have second := fatNextDirent_onlyReads moved
        simp only at finished
        split at finished <;> cases finished <;> exact first.trans second

theorem fatFindDirent_onlyReads {de : Nat} {name : List UInt8} {result : FindResult World}
    (returned : fatFindDirent platform fuel before de name = .ok result) : OnlyReads platform before result.state :=
  loop_onlyReads (fun state => state.2.2) FindResult.state (fun _ _ => findRound_onlyReads) returned

end

end Bwuhos
