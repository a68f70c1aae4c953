import StateSpace.Arithmetic
import StateSpace.Update

/-!
# Views of scalar fields

A view is a type and an offset, and owns no storage: the same view reads and writes
every block. Setters refuse values that the type does not have. Getters decode whatever
bits are stored; arithmetic on a range field first makes sure that the stored bits are
within bounds.
-/

namespace StateSpace

variable {size : Nat}

/-- The place of a Boolean. -/
structure BoolView where
  offset : Nat

namespace BoolView

def get
    (view : BoolView)
    (block : Block size) : Except Breach Bool := do
  return (← block.read view.offset 1) != 0

def set
    (view : BoolView)
    (value : Bool) : Update size Unit :=
  Update.write view.offset 1 value.toNat

end BoolView

/-- The place of an integer within bounds. -/
structure RangeView where
  offset : Nat
  bounds : Bounds

namespace RangeView

def get
    (view : RangeView)
    (block : Block size) : Except Breach Int64 := do
  return view.bounds.decode (← block.read view.offset view.bounds.width)

def set
    (view : RangeView)
    (value : Int64) : Update size Unit := do
  view.bounds.checkValue value
  Update.write view.offset view.bounds.width (← view.bounds.encode value)

/-- The stored integer, which has to be within bounds. -/
def operand
    (view : RangeView)
    (block : Block size) : Except Stop Int64 := do
  let value ← view.get block
  view.bounds.checkValue value
  return value

/-- Combine the stored integer with a free one. -/
def arith
    (view : RangeView)
    (policy : OverflowPolicy)
    (block : Block size)
    (op : ArithOp)
    (side : FreeSide)
    (free : Int64) : Except Stop Int64 := do
  let value ← view.operand block
  view.bounds.arith policy op side value free

/-- Compare the stored integer with a free one. -/
def cmp
    (view : RangeView)
    (block : Block size)
    (op : CmpOp)
    (side : FreeSide)
    (free : Int64) :
    Except Stop Bool := do
  let value ← view.operand block
  view.bounds.cmp op side value free

end RangeView

/-- The place of an enumeration member. -/
structure EnumView where
  offset : Nat
  members : Members

namespace EnumView

/-- The ordinal that is stored. -/
def get
    (view : EnumView)
    (block : Block size) : Except Breach Nat :=
  block.read view.offset view.members.width

def set
    (view : EnumView)
    (ordinal : Nat) : Update size Unit :=
  if view.members.count ≤ ordinal then Update.fault (.valueOutOfRange ordinal)
  else Update.write view.offset view.members.width ordinal

/-- The ordinal of a member. -/
def ordinal
    (view : EnumView)
    (member : String) : Except Fault Nat :=
  match view.members.ordinal? member with
  | some ordinal => .ok ordinal
  | none => .error (.unknownMember member)

/-- Whether the stored member is the one of the given name. -/
def is
    (view : EnumView)
    (block : Block size)
    (member : String) : Except Stop Bool := do
  let ordinal ← view.ordinal member
  return (← view.get block) == ordinal

/-- Store the member of the given name. -/
def setMember
    (view : EnumView)
    (member : String) : Update size Unit := do
  view.set (← view.ordinal member)

end EnumView
end StateSpace
