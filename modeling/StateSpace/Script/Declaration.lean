import StateSpace.Layout

/-!
# Declarations

A script declares types and variables by description. Types are built inside out and
from left to right, and the first part that cannot be built decides the error.
-/

namespace StateSpace
namespace Script

/-- The description of a type. -/
inductive TypeSpec where
  | boolean
  | range (min max : Int64)
  | enumeration (members : List String)
  /-- The members `stem0`, `stem1`, … -/
  | numbered (stem : String) (count : Nat)
  | array (index element : TypeSpec)
  | record (fields : List (String × TypeSpec))

/-- The names that end in the numbers below `count`. -/
def numberedNames
    (stem : String)
    (count : Nat) : List String :=
  (List.range count).map fun number => stem ++ toString number

mutual

/-- The described type. -/
def TypeSpec.build : TypeSpec → Except LayoutError Ty
  | boolean => return .boolean
  | range min max => Ty.range? min max
  | enumeration members => Ty.enumeration? members
  | numbered stem count => Ty.enumeration? (numberedNames stem count)
  | array index element => do
    let index ← index.build
    let element ← element.build
    Ty.array? index element
  | record fields => do Ty.record? (← TypeSpec.buildFields fields)

/-- The types of the described fields. -/
def TypeSpec.buildFields : List (String × TypeSpec) →
    Except LayoutError (List (String × Ty))
  | [] => return []
  | (name, spec) :: rest => return (name, ← spec.build) :: (← TypeSpec.buildFields rest)

end

/-- The description of one variable, or of several that are told apart by number. -/
structure VariableSpec where
  name : String
  type : TypeSpec
  /-- How many numbered variables are meant, if not the one of exactly this name. -/
  count : Option Nat

/-- The described variables. -/
def VariableSpec.build (spec : VariableSpec) :
    Except LayoutError (List (String × Ty)) := do
  let ty ← spec.type.build
  match spec.count with
  | some count => return (numberedNames spec.name count).map fun name => (name, ty)
  | none => return [(spec.name, ty)]

/-- The layout of the described variables. All types are built before any variable is
placed. -/
def buildLayout (specs : List VariableSpec) : Except LayoutError Layout := do
  Layout.of? (← specs.mapM VariableSpec.build).flatten

end Script
end StateSpace
