import StateSpace.Bits.Buffer
import StateSpace.Layout
import StateSpace.Value
import StateSpace.View.Scalar

/-!
# Views

A view of any type gives access to a whole value at once. Composite values are read and
written leaf by leaf, in index and declaration order; a write that is refused at some
leaf has already stored the leaves before it. `View.copy` moves the bits of a value
without decoding them.
-/

namespace StateSpace

variable {size : Nat}

/-- The place of a value of some type. -/
structure View where
  ty : Ty
  offset : Nat

/-- The place of an array. -/
structure ArrayView where
  offset : Nat
  index : Scalar
  element : Ty

/-- The place of a record. -/
structure RecordView where
  offset : Nat
  fields : List (String × Ty)

namespace ArrayView

/-- The number of elements. -/
def length (view : ArrayView) : Nat :=
  view.index.count

/-- The bits that the elements take together. -/
def width (view : ArrayView) : Nat :=
  view.length * view.element.width

/-- The element at a position, which has to exist. -/
def element?
    (view : ArrayView)
    (position : Nat) : Except Breach View :=
  if position < view.length then
    .ok ⟨view.element, view.offset + position * view.element.width⟩
  else .error .elementMissing

/-- The element for an index, which has to be a value of the index type. -/
def at?
    (view : ArrayView)
    (index : Int64) : Except Stop View :=
  match view.index.ordinalOf? index with
  | some position => view.element? position
  | none => .error (.fault (.indexOutOfRange index.toInt))

/-- The elements in order. -/
def elements (view : ArrayView) : List View :=
  (List.range view.length).map fun position =>
    ⟨view.element, view.offset + position * view.element.width⟩

end ArrayView

namespace RecordView

/-- The field of a name. -/
def field?
    (view : RecordView)
    (name : String) : Except Fault View :=
  match Ty.field? view.fields name with
  | some (ty, offset) => .ok ⟨ty, view.offset + offset⟩
  | none => .error (.unknownField name)

/-- The fields in order, with their names. -/
def namedFields (view : RecordView) : List (String × View) :=
  (Ty.placeFields view.offset view.fields).map fun (name, ty, offset) =>
    (name, ⟨ty, offset⟩)

end RecordView

namespace Ty

mutual

/-- Decode a value of the type at an offset. -/
def load
    (block : Block size)
    (offset : Nat) : Ty → Except Breach Value
  | .scalar .boolean => return .boolean (← (⟨offset⟩ : BoolView).get block)
  | .scalar (.range bounds) => return .range (← (⟨offset, bounds⟩ : RangeView).get block)
  | .scalar (.enumeration members) =>
    return .enumeration (← (⟨offset, members⟩ : EnumView).get block)
  | .array index element =>
    return .array (← (List.range index.count).mapM fun position =>
      load block (offset + position * element.width) element)
  | .record fields => return .record (← loadFields block offset fields)

/-- Decode the values of consecutive fields. -/
def loadFields
    (block : Block size)
    (offset : Nat) :
    List (String × Ty) → Except Breach (List Value)
  | [] => return []
  | (_, ty) :: rest =>
    return (← load block offset ty) :: (← loadFields block (offset + ty.width) rest)

end

mutual

/-- Encode a value of the type at an offset. -/
def store (offset : Nat) : Ty → Value → Update size Unit
  | .scalar .boolean, .boolean value => (⟨offset⟩ : BoolView).set value
  | .scalar (.range bounds), .range value => (⟨offset, bounds⟩ : RangeView).set value
  | .scalar (.enumeration members), .enumeration ordinal =>
    (⟨offset, members⟩ : EnumView).set ordinal
  | .array index element, .array values =>
    if values.length = index.count then
      values.zipIdx.forM fun (value, position) =>
        store (offset + position * element.width) element value
    else Update.fault (.elementCountMismatch index.count values.length)
  | .record fields, .record values =>
    if values.length = fields.length then storeFields offset fields values
    else Update.fault (.fieldCountMismatch fields.length values.length)
  | ty, value => Update.fault (.kindMismatch value.kind.name ty.kind.name)

/-- Encode values into consecutive fields. -/
def storeFields (offset : Nat) : List (String × Ty) → List Value → Update size Unit
  | (_, ty) :: rest, value :: values => do
    store offset ty value
    storeFields (offset + ty.width) rest values
  | _, _ => return ()

end

end Ty

namespace View

/-- The bits that the value takes. -/
def width (view : View) : Nat :=
  view.ty.width

/-- The number of values of the type, as the nearest word. -/
def count (view : View) : Nat :=
  view.ty.count

/-- The kind of value that the view holds. -/
def kind (view : View) : Kind :=
  view.ty.kind

/-- The fault of asking for another kind of view. -/
def mismatch
    (view : View)
    (wanted : Kind) : Fault :=
  .kindMismatch wanted.name view.kind.name

def toBool (view : View) : Except Fault BoolView :=
  match view.ty with
  | .scalar .boolean => .ok ⟨view.offset⟩
  | _ => .error (view.mismatch .boolean)

def toRange (view : View) : Except Fault RangeView :=
  match view.ty with
  | .scalar (.range bounds) => .ok ⟨view.offset, bounds⟩
  | _ => .error (view.mismatch .range)

def toEnum (view : View) : Except Fault EnumView :=
  match view.ty with
  | .scalar (.enumeration members) => .ok ⟨view.offset, members⟩
  | _ => .error (view.mismatch .enumeration)

def toArray (view : View) : Except Fault ArrayView :=
  match view.ty with
  | .array index element => .ok ⟨view.offset, index, element⟩
  | _ => .error (view.mismatch .array)

def toRecord (view : View) : Except Fault RecordView :=
  match view.ty with
  | .record fields => .ok ⟨view.offset, fields⟩
  | _ => .error (view.mismatch .record)

/-- Decode the value. -/
def get
    (view : View)
    (block : Block size) : Except Breach Value :=
  view.ty.load block view.offset

/-- Encode a value. -/
def set
    (view : View)
    (value : Value) : Update size Unit :=
  view.ty.store view.offset value

/-- The target with the bits of the value taken from the source. -/
def copy
    {sourceSize : Nat}
    (view : View)
    (source : Block sourceSize)
    (target : Block size) :
    Except Breach (Block size) :=
  Block.copyBits source view.offset target view.offset view.width

/-- A zeroed buffer that holds one value of a type, and the view of it. -/
def standalone (ty : Ty) : Except Breach (View × Buffer) := do
  return (⟨ty, 0⟩, ← Buffer.ofCapacity ty.width)

end View

/-- The view of a variable. -/
def Variable.view (declared : Variable) : View :=
  ⟨declared.ty, declared.offset⟩

/-- The view of the variable of a name. -/
def Layout.view?
    (layout : Layout)
    (name : String) : Option View :=
  (layout.find? name).map Variable.view

end StateSpace
