import StateSpace.Text.Quoted

/-!
# Faults of a checked model

A fault is raised while a model's guards, bodies and properties are evaluated against
one state. The search reports it and goes on. Assumptions are the exception: a failed
assumption abandons a candidate and is never reported, so it has no kind.
-/

namespace StateSpace

/-- The reporting category of a fault, in the order in which reports list categories. -/
inductive FaultKind where
  | overflow
  | range
  | divisionByZero
  | model
  | invariant
  | deadlock
  deriving DecidableEq, Repr

namespace FaultKind

/-- Every category once, in order. -/
def all : List FaultKind :=
  [.overflow, .range, .divisionByZero, .model, .invariant, .deadlock]

/-- The category in words. -/
def describe : FaultKind → String
  | .overflow => "overflow"
  | .range => "range error"
  | .divisionByZero => "division by zero"
  | .model => "model error"
  | .invariant => "invariant violation"
  | .deadlock => "deadlock"

/-- The name of the category in stored documents. -/
def key : FaultKind → String
  | .overflow => "overflow"
  | .range => "range"
  | .divisionByZero => "division_by_zero"
  | .model => "model"
  | .invariant => "invariant"
  | .deadlock => "deadlock"

/-- The category that a document calls by the given name. -/
def ofKey? (key : String) : Option FaultKind :=
  all.find? (·.key == key)

end FaultKind

/-- A fault raised while one state is evaluated. -/
inductive Fault where
  /-- A result does not fit 64 bits. -/
  | overflow (operation : String)
  /-- A value or an array index lies outside its declared bounds. -/
  | range (message : String)
  | divisionByZero (operation : String)
  /-- An assumption failed, so the state cannot arise. -/
  | assumption (name : String)
  /-- An error of the model itself. -/
  | model (message : String)
  deriving DecidableEq, Repr

namespace Fault

/-- What is said of a fault. -/
def message : Fault → String
  | overflow operation => "integer overflow in " ++ operation
  | range text => text
  | divisionByZero operation => operation ++ " by zero"
  | assumption name => "assumption " ++ Text.quoted name ++ " failed"
  | model text => text

/-- The category under which a fault is reported, or none for a failed assumption. -/
def kind? : Fault → Option FaultKind
  | overflow _ => some .overflow
  | range _ => some .range
  | divisionByZero _ => some .divisionByZero
  | assumption _ => none
  | model _ => some .model

/-- Whether a fault is a failed assumption. -/
def isAssumption : Fault → Bool
  | assumption _ => true
  | _ => false

/-- A value outside the bounds of the place that holds it. -/
def valueOutOfRange (value : Int) : Fault :=
  .range (toString value ++ " is out of range")

/-- A free operand outside the bounds of the value it is combined with. -/
def operandOutOfRange
    (operand : Int)
    (operation : String) : Fault :=
  .range (toString operand ++ " is out of range in " ++ operation)

/-- A result outside the bounds of the operand that has some. -/
def resultOutOfRange (operation : String) : Fault :=
  .range ("result of " ++ operation ++ " is out of range")

/-- An array index outside the index type. -/
def indexOutOfRange (index : Int) : Fault :=
  .range ("out of range access to array element " ++ toString index)

/-- A name that is no member of an enumeration. -/
def unknownMember (name : String) : Fault :=
  .model ("unknown enum member " ++ Text.quoted name)

/-- A name that is no field of a record. -/
def unknownField (name : String) : Fault :=
  .model ("record has no field " ++ Text.quoted name)

/-- One kind of value where another was wanted. -/
def kindMismatch (wanted found : String) : Fault :=
  .model ("expected " ++ wanted ++ " but found " ++ found)

/-- An array given the wrong number of element values. -/
def elementCountMismatch (expected found : Nat) : Fault :=
  .model ("array of " ++ toString expected ++ " elements assigned " ++
    toString found ++ " values")

/-- A record given the wrong number of field values. -/
def fieldCountMismatch (expected found : Nat) : Fault :=
  .model ("record of " ++ toString expected ++ " fields assigned " ++
    toString found ++ " values")

end Fault

/-- A fault as a run reports it. -/
structure FaultRecord where
  kind : FaultKind
  message : String
  /-- The start state, rule or property that was evaluated. -/
  context : Option String
  deriving DecidableEq, Repr

namespace FaultRecord

/-- The message, followed by its context in parentheses. -/
def describe (record : FaultRecord) : String :=
  match record.context with
  | some context => record.message ++ " (in " ++ context ++ ")"
  | none => record.message

/-- The record of a fault raised in a context. A failed assumption has none. -/
def ofFault?
    (fault : Fault)
    (context : String) : Option FaultRecord :=
  fault.kind?.map fun kind => ⟨kind, fault.message, some context⟩

end FaultRecord
end StateSpace
