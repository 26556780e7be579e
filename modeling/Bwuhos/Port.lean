import Mathlib.Tactic.Common

namespace Bwuhos

/-! # Port I/O

`port.c` on x86_64.  The `in` and `out` instructions act on a `World`.
-/

inductive PortSize where
  | ps8
  | ps16
  | ps32
  | ps64
deriving Repr, DecidableEq

structure Ports (World : Type) where
  portRd8 : UInt16 → World → UInt8 × World
  portRd16 : UInt16 → World → UInt16 × World
  portRd32 : UInt16 → World → UInt32 × World
  portWr8 : UInt16 → UInt8 → World → World
  portWr16 : UInt16 → UInt16 → World → World
  portWr32 : UInt16 → UInt32 → World → World

section

variable {World : Type}

def portRd (ports : Ports World) (p : Nat) (size : PortSize) (world : World) : Nat × World :=
  match size with
  | .ps8 => ((ports.portRd8 (.ofNat p) world).1.toNat, (ports.portRd8 (.ofNat p) world).2)
  | .ps16 => ((ports.portRd16 (.ofNat p) world).1.toNat, (ports.portRd16 (.ofNat p) world).2)
  | .ps32 => ((ports.portRd32 (.ofNat p) world).1.toNat, (ports.portRd32 (.ofNat p) world).2)
  | .ps64 => (0, world)

def portWr (ports : Ports World) (p data : Nat) (size : PortSize) (world : World) : World :=
  match size with
  | .ps8 => ports.portWr8 (.ofNat p) (.ofNat data) world
  | .ps16 => ports.portWr16 (.ofNat p) (.ofNat data) world
  | .ps32 => ports.portWr32 (.ofNat p) (.ofNat data) world
  | .ps64 => world

end

end Bwuhos
