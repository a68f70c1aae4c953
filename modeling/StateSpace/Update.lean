import StateSpace.Bits.Block
import StateSpace.Error

/-!
# Updates of a block

An update changes a block in place and may stop. What it wrote before it stopped stays
written.
-/

namespace StateSpace

/-- A computation that changes a block of `size` bytes and may stop. -/
abbrev Update
    (size : Nat)
    (α : Type) : Type :=
  ExceptT Stop (StateM (Block size)) α

namespace Update

variable {size : Nat} {α : Type}

/-- Run an update on a block, giving its outcome and the block it leaves. -/
def runOn
    (update : Update size α)
    (block : Block size) : Except Stop α × Block size :=
  StateT.run (ExceptT.run update) block

/-- The result of looking at the block, which stays as it is. -/
def inspect (look : Block size → Except Stop α) : Update size α := do
  MonadExcept.ofExcept (look (← get))

/-- Write a field of the block. -/
def write (offset width value : Nat) : Update size Unit := do
  match (← get).write offset width value with
  | .ok written => set written
  | .error breach => throw (.breach breach)

/-- Stop with a fault. -/
def fault (fault : Fault) : Update size α :=
  throw (.fault fault)

end Update
end StateSpace
