import StateSpace.Bits.Block
import StateSpace.Ty.Basic

/-!
# Layouts

A layout is an ordered list of variables with distinct names, packed back to back in
declaration order. `Layout.of?` assigns the offsets, so the state's width is the sum of
the variables' widths.
-/

namespace StateSpace

/-- A declared variable and the offset of its first bit. -/
structure Variable where
  name : String
  ty : Ty
  offset : Nat

/-- Variables with their places, and the bits that they take together. -/
structure Layout where
  entries : Array Variable
  bits : Nat

namespace Layout

/-- The number of variables that a layout can have. -/
def maxVariables : Nat :=
  65536

/-- The layout without variables. -/
def empty : Layout :=
  ⟨#[], 0⟩

/-- Place further declarations behind those of a layout, whose names are `taken`. At one
declaration a repeated name is refused before a variable too many, and that before a
width too large. -/
def extend
    (layout : Layout)
    (taken : Std.HashSet String) :
    List (String × Ty) → Except LayoutError Layout
  | [] => .ok layout
  | (name, ty) :: rest =>
    if taken.contains name then .error (.duplicateVariable name)
    else if maxVariables ≤ layout.entries.size then .error
      (.tooManyVariables maxVariables)
    else
      match Word.add? layout.bits ty.width with
      | none => .error .tooWide
      | some bits =>
        extend ⟨layout.entries.push ⟨name, ty, layout.bits⟩, bits⟩
          (taken.insert name) rest

/-- The layout of the given declarations. -/
def of? (declarations : List (String × Ty)) : Except LayoutError Layout :=
  empty.extend ∅ declarations

/-- The bytes that hold a state: the fewest with room for every bit. -/
def bytes (layout : Layout) : Nat :=
  (layout.bits + 7) / 8

/-- The block of a state whose bits are all clear, if its size can be rounded up to
bytes. -/
def zeroed (layout : Layout) : Except Breach (Block layout.bytes) := do
  let _ ← bytesForBits layout.bits
  return .zero layout.bytes

/-- The position of a variable. -/
def index?
    (layout : Layout)
    (name : String) : Option Nat :=
  layout.entries.findIdx? (·.name == name)

/-- The variable of a name. -/
def find?
    (layout : Layout)
    (name : String) : Option Variable :=
  layout.entries.find? (·.name == name)

end Layout
end StateSpace
