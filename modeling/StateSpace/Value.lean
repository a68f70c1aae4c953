import StateSpace.Ty.Basic

/-!
# Values

A value is the decoded form of anything that a typed view can hold. Enumeration members
are their ordinals, array elements stand in index order and record fields in declaration
order.
-/

namespace StateSpace

/-- A decoded value. -/
inductive Value where
  | boolean (value : Bool)
  | range (value : Int64)
  | enumeration (ordinal : Nat)
  | array (elements : List Value)
  | record (fields : List Value)

namespace Value

/-- What the value is at its outermost level. -/
def kind : Value → Kind
  | boolean _ => .boolean
  | range _ => .range
  | enumeration _ => .enumeration
  | array _ => .array
  | record _ => .record

/-- The truth value, if the value is one. -/
def asBool? : Value → Option Bool
  | boolean value => some value
  | _ => none

/-- The integer, if the value is one of a range. -/
def asInt? : Value → Option Int64
  | range value => some value
  | _ => none

mutual

/-- Whether two values are the same. -/
def beq : Value → Value → Bool
  | boolean left, boolean right => left == right
  | range left, range right => left == right
  | enumeration left, enumeration right => left == right
  | array left, array right => beqList left right
  | record left, record right => beqList left right
  | _, _ => false

/-- Whether two lists hold the same values in the same order. -/
def beqList : List Value → List Value → Bool
  | [], [] => true
  | left :: lefts, right :: rights => beq left right && beqList lefts rights
  | _, _ => false

end

instance : BEq Value :=
  ⟨beq⟩

end Value
end StateSpace
