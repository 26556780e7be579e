import Bwuhos.Paging
import Bwuhos.Data.RadixTree

namespace Bwuhos

open Bwuhos.Data

/-! # The hardware page walk

What the processor makes of the tables: at each level it takes a 9-bit index of the
virtual address, stops at an entry without the present bit, and follows bits 12 to 51.
-/

/-- Bits 12 to 51 of an entry, as an address. -/
def entryAddr (entry : Nat) : Nat := entry / 2 ^ 12 % 2 ^ 40 * 2 ^ 12

/-- The 9-bit index of `vaddr` at a level of the walk, 0 being the PML4. -/
def levelIndex (vaddr level : Nat) : Nat := vaddr / 2 ^ (39 - 9 * level) % 512

/-- The entries a walk meets, from the given table down. -/
def hwWalk (mem : Nat → Nat) (table : Nat) : List Nat → Option (List Nat)
  | [] => some []
  | index :: rest =>
      let entry := mem (table + 8 * index)
      if entry.testBit 0 then (hwWalk mem (entryAddr entry) rest).map (entry :: ·) else none

/-- The four entries of the walk for a virtual address. -/
def walkEntries (mem : Nat → Nat) (cr3 vaddr : Nat) : Option (List Nat) :=
  hwWalk mem cr3 [levelIndex vaddr 0, levelIndex vaddr 1, levelIndex vaddr 2, levelIndex vaddr 3]

/-- The frame that a virtual address translates to. -/
def translate (mem : Nat → Nat) (cr3 vaddr : Nat) : Option Nat :=
  (walkEntries mem cr3 vaddr).bind fun entries => entries.getLast?.map entryAddr

/-- The read/write bit is set at every level of the walk. -/
def EffectivelyWritable (mem : Nat → Nat) (cr3 vaddr : Nat) : Prop :=
  ∃ entries, walkEntries mem cr3 vaddr = some entries ∧ ∀ entry ∈ entries, entry.testBit 1 = true

/-- The number of the page that a virtual address lies in.  Four levels of nine bits
leave bits 48 and up out of the walk. -/
def virtualPage (vaddr : Nat) : Nat := vaddr / 2 ^ 12 % 2 ^ 36

/-- The number of the stretch of addresses that an entry at a level maps: 512 GiB at
level 0, then 1 GiB, 2 MiB and, at level 3, one page. -/
def levelRegion (vaddr level : Nat) : Nat := vaddr / 2 ^ (39 - 9 * level) % 2 ^ (9 * (level + 1))

/-! ## Tables as a radix tree

A page frame number names a table; the frame number in a present entry names its child.
-/

/-- The page frame number that a present entry links to. -/
def entryLink (entry : Nat) : Option Nat :=
  if entry.testBit 0 then some (entry / 2 ^ 12 % 2 ^ 40) else none

def tablesOf (mem : Nat → Nat) (frame : Nat) (index : Fin 512) : Nat := mem (4096 * frame + 8 * index)

def pathIndex (vaddr level : Nat) : Fin 512 := ⟨levelIndex vaddr level, Nat.mod_lt _ (by decide)⟩

def upperPath (vaddr level : Nat) : List (Fin 512) := (List.range level).map (pathIndex vaddr)

/-- The word at the end of a path of indices, zero where there is no table. -/
def wordAt (mem : Nat → Nat) (root : Nat) (path : List (Fin 512)) (index : Fin 512) : Nat :=
  RadixTree.wordAt entryLink 0 (tablesOf mem) root path index

def tableAt (mem : Nat → Nat) (root : Nat) (path : List (Fin 512)) : Option Nat :=
  RadixTree.walk entryLink (tablesOf mem) root path

/-- The word that the walk for `vaddr` reads at a level. -/
def wordFor (mem : Nat → Nat) (root vaddr level : Nat) : Nat :=
  wordAt mem root (upperPath vaddr level) (pathIndex vaddr level)

end Bwuhos
