import StateSpace.Bits.Block

/-!
# States

A state is a packed block together with the blocks of the states it was derived from,
nearest first. Two states count as the same when their blocks are equal, however they
were reached.

A recycler hands out the storage of new candidates and keeps at most one discarded block
for reuse. A recycled block still holds what its last user wrote.
-/

namespace StateSpace

/-- A packed state with the path that led to it. -/
structure State (size : Nat) where
  block : Block size
  /-- The states from the direct predecessor back to a start state. -/
  ancestors : List (Block size)

namespace State

variable {size : Nat}

/-- A state without predecessor. -/
def ofBlock (block : Block size) : State size :=
  ⟨block, []⟩

/-- The state that a given one leads to. -/
def successor
    (origin : State size)
    (block : Block size) : State size :=
  ⟨block, origin.block :: origin.ancestors⟩

/-- The direct predecessor. -/
def previous? (state : State size) : Option (State size) :=
  match state.ancestors with
  | [] => none
  | block :: ancestors => some ⟨block, ancestors⟩

/-- The number of states on the path from a start state, both ends included. -/
def depth (state : State size) : Nat :=
  state.ancestors.length + 1

/-- The path from a start state, both ends included. -/
def path (state : State size) : List (Block size) :=
  (state.block :: state.ancestors).reverse

/-- The bytes of a state, for a reader of a log. -/
def describe (state : State size) : String :=
  "State(" ++ state.block.hex ++ ")"

end State

/-- A source of blocks that keeps one discarded block for reuse. -/
structure Recycler (size : Nat) where
  cached : Option (Block size)
  /-- The number of blocks made anew. -/
  fresh : Nat
  /-- The number of blocks handed out again. -/
  reused : Nat

namespace Recycler

variable {size : Nat}

/-- A recycler that has handed out nothing. -/
def empty (size : Nat) : Recycler size :=
  ⟨none, 0, 0⟩

/-- Hand out a block: the cached one as it is, or a zeroed new one, if there can be
one. -/
def alloc (recycler : Recycler size) : Except Breach (Block size) × Recycler size :=
  match recycler.cached with
  | some block =>
    (.ok block, { recycler with cached := none, reused := recycler.reused + 1 })
  | none =>
    (if size < Word.allocationLimit then .ok (.zero size) else .error .storageTooLarge,
      { recycler with fresh := recycler.fresh + 1 })

/-- Hand out a zeroed block. -/
def allocZeroed (recycler : Recycler size) :
    Except Breach (Block size) × Recycler size :=
  (recycler.alloc.1.map fun _ => .zero size, recycler.alloc.2)

/-- Hand out a copy of a block, which has to be of the recycled size. -/
def allocCopy
    {originSize : Nat}
    (recycler : Recycler size)
    (origin : Block originSize) :
    Except Breach (Block size) × Recycler size :=
  (do
    let _ ← recycler.alloc.1
    if same : originSize = size then return same ▸ origin
    else throw (.copiedSize originSize size),
  recycler.alloc.2)

/-- A successor of a state that starts out as a copy of it. -/
def duplicate
    {originSize : Nat}
    (recycler : Recycler size)
    (origin : State originSize) :
    Except Breach (State originSize) × Recycler size :=
  let (copied, rest) := recycler.allocCopy origin.block
  (copied.map fun _ => origin.successor origin.block, rest)

/-- Take a discarded block of the recycled size back, while no other one waits. -/
def free
    {blockSize : Nat}
    (recycler : Recycler size)
    (block : Block blockSize) :
    Except Breach (Recycler size) :=
  match recycler.cached with
  | some _ => .error .slotOccupied
  | none =>
    if same : blockSize = size then .ok { recycler with cached := some (same ▸ block) }
    else .error (.returnedSize blockSize size)

end Recycler
end StateSpace
