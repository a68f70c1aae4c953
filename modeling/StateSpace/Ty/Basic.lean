import StateSpace.Ty.Scalar

/-!
# Types of variables

A type is a scalar, an array indexed by a scalar, or a record. Values are laid out
without padding: the elements of an array one after the other in index order, the fields
of a record in declaration order. `Ty.array?` and `Ty.record?` build composite types and
refuse those whose width is no machine word.
-/

namespace StateSpace

/-- The type of a state variable. -/
inductive Ty where
  | scalar (leaf : Scalar)
  | array (index : Scalar) (element : Ty)
  | record (fields : List (String × Ty))

/-- What a value is at its outermost level. -/
inductive Kind where
  | boolean
  | range
  | enumeration
  | array
  | record
  deriving DecidableEq, Repr

/-- The kind in words. -/
def Kind.name : Kind → String
  | boolean => "boolean"
  | range => "range"
  | enumeration => "enum"
  | array => "array"
  | record => "record"

namespace Ty

/-- The kind of a type's values. -/
def kind : Ty → Kind
  | scalar .boolean => .boolean
  | scalar (.range _) => .range
  | scalar (.enumeration _) => .enumeration
  | array _ _ => .array
  | record _ => .record

/-- Whether values of the type are single ordinals. -/
def isScalar : Ty → Bool
  | scalar _ => true
  | _ => false

mutual

/-- The bits that one value takes. -/
def width : Ty → Nat
  | scalar leaf => leaf.width
  | array index element => index.count * element.width
  | record fields => fieldsWidth fields

/-- The bits that one value of each field takes. -/
def fieldsWidth : List (String × Ty) → Nat
  | [] => 0
  | (_, ty) :: rest => ty.width + fieldsWidth rest

end

mutual

/-- The number of values, as the nearest word. -/
def count : Ty → Nat
  | scalar leaf => leaf.count
  | array index element => Word.saturatingPow element.count index.count
  | record fields => fieldsCount fields

/-- The number of ways to give every field a value, as the nearest word. -/
def fieldsCount : List (String × Ty) → Nat
  | [] => 1
  | (_, ty) :: rest => Word.saturate (ty.count * fieldsCount rest)

end

/-- The ordinal of the scalar value that an integer stands for. -/
def ordinalOf? : Ty → Int64 → Option Nat
  | scalar leaf, value => leaf.ordinalOf? value
  | _, _ => none

/-- The integer that stands for the scalar value with an ordinal. -/
def valueAt : Ty → Nat → Int64
  | scalar leaf, ordinal => leaf.valueAt ordinal
  | _, ordinal => Int64.ofNat ordinal

/-- The scalar value with an ordinal as it appears between the brackets of an element
path. -/
def label : Ty → Nat → String
  | scalar leaf, ordinal => leaf.label ordinal
  | _, ordinal => toString (Int64.ofNat ordinal).toInt

/-- The offset of an element from the start of its array, which has to be a machine
word. -/
def elementOffset
    (element : Ty)
    (ordinal : Nat) : Except Breach Nat :=
  match Word.mul? ordinal element.width with
  | some offset => .ok offset
  | none => .error .productTooLarge

/-- The fields of a record with their offsets from its start, the first at the given
offset. -/
def placeFields (offset : Nat) : List (String × Ty) → List (String × Ty × Nat)
  | [] => []
  | (name, ty) :: rest => (name, ty, offset) :: placeFields (offset + ty.width) rest

/-- The first field of a name with its offset from the start of its record. -/
def field?
    (fields : List (String × Ty))
    (name : String) : Option (Ty × Nat) :=
  ((placeFields 0 fields).find? (·.1 == name)).map (·.2)

/-- The Boolean type. -/
def boolean : Ty :=
  .scalar .boolean

/-- The integers from `min` to `max`. -/
def range? (min max : Int64) : Except LayoutError Ty := do
  return .scalar (.range (← Bounds.of? min max))

/-- The enumeration of the given names. -/
def enumeration? (names : List String) : Except LayoutError Ty := do
  return .scalar (.enumeration (← Members.of? names))

/-- The arrays with one element for each value of a scalar index type. -/
def array? (index element : Ty) : Except LayoutError Ty :=
  match index with
  | .scalar index =>
    match Word.mul? index.count element.width with
    | some _ => .ok (.array index element)
    | none => .error .tooWide
  | _ => .error .nonScalarIndex

/-- The first defect of a list of fields: a name that is already taken, or a field whose
end is no machine word. The names in `seen` are taken and the first field lies at
`offset`. -/
def fieldDefect?
    (seen : Std.HashSet String)
    (offset : Nat) :
    List (String × Ty) → Option LayoutError
  | [] => none
  | (name, ty) :: rest =>
    if seen.contains name then some (.duplicateField name)
    else
      match Word.add? offset ty.width with
      | some next => fieldDefect? (seen.insert name) next rest
      | none => some .tooWide

/-- The records with the given fields. -/
def record? (fields : List (String × Ty)) : Except LayoutError Ty :=
  match fieldDefect? ∅ 0 fields with
  | some defect => .error defect
  | none => .ok (.record fields)

end Ty
end StateSpace
