import StateSpace.Bits.Block

/-!
# Free-standing buffers

A buffer is a zeroed block for a stated number of bits, owned by no state. Its text
shows the capacity and the bytes.
-/

namespace StateSpace

/-- Storage for `capacity` bits in whole bytes. -/
structure Buffer where
  capacity : Nat
  size : Nat
  block : Block size
  deriving DecidableEq

namespace Buffer

/-- A zeroed buffer for `capacity` bits. -/
def ofCapacity (capacity : Nat) : Except Breach Buffer := do
  let size ← bytesForBits capacity
  return ⟨capacity, size, .zero size⟩

/-- Write a field of the buffer. -/
def write
    (buffer : Buffer)
    (offset width value : Nat) : Except Breach Buffer := do
  return { buffer with block := ← buffer.block.write offset width value }

/-- Whether every bit is clear. -/
def isZero (buffer : Buffer) : Bool :=
  buffer.block = .zero buffer.size

/-- The capacity and the bytes, for a reader of a log. -/
def describe (buffer : Buffer) : String :=
  "BitBuffer(" ++ toString buffer.capacity ++ " bits: " ++ buffer.block.hex ++ ")"

end Buffer
end StateSpace
