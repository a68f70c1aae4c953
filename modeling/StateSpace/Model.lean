import StateSpace.Arithmetic
import StateSpace.Symmetry.Permutation
import StateSpace.Update

/-!
# Models

A model is a layout with ordered tables of named callables: start states write an
initial state into a zeroed block, rules pair a guard with a body that changes a copy of
the state, invariants have to hold in every state, and a failed assumption makes a state
impossible. Callables are functions of the arithmetic policy and the block alone.

`Model.of?` freezes the tables and refuses a model that starts nowhere.
-/

namespace StateSpace

/-- A property of a block, which may stop instead of answering. -/
abbrev Predicate (size : Nat) : Type :=
  OverflowPolicy → Block size → Except Stop Bool

/-- A change of a block, which may stop midway. -/
abbrev Action (size : Nat) : Type :=
  OverflowPolicy → Update size Unit

/-- A way to begin. -/
structure StartState (size : Nat) where
  name : String
  init : Action size

/-- A guarded change. -/
structure Rule (size : Nat) where
  name : String
  guard : Predicate size
  body : Action size

/-- A named invariant or assumption. -/
structure Property (size : Nat) where
  name : String
  holds : Predicate size

/-- The integers from `low` to `high` in ascending order. -/
def integersBetween (low high : Int64) : List Int64 :=
  (List.range (high.toInt - low.toInt + 1).toNat).map fun (step : Nat) =>
    Int64.ofInt (low.toInt + step)

/-- The name of one member of a quantified declaration. -/
def quantifiedName
    (name variableName : String)
    (value : Int64) : String :=
  name ++ ", " ++ variableName ++ ":" ++ toString value.toInt

/-- One start state for each value of a variable. -/
def StartState.family
    {size : Nat}
    (name variableName : String)
    (low high : Int64)
    (init : Int64 → Action size) : List (StartState size) :=
  (integersBetween low high).map fun value =>
    ⟨quantifiedName name variableName value, init value⟩

/-- One rule for each value of a variable. -/
def Rule.family
    {size : Nat}
    (name variableName : String)
    (low high : Int64)
    (guard : Int64 → Predicate size)
    (body : Int64 → Action size) : List (Rule size) :=
  (integersBetween low high).map fun value =>
    ⟨quantifiedName name variableName value, guard value, body value⟩

/-- A model over the variables of a layout. -/
structure Model (layout : Layout) where
  startStates : List (StartState layout.bytes)
  rules : List (Rule layout.bytes)
  invariants : List (Property layout.bytes)
  assumptions : List (Property layout.bytes)
  canonicalizer : Option (Canonicalizer layout.bytes)
  startStates_ne_nil : startStates ≠ []

namespace Model

variable {layout : Layout}

/-- The model with the given tables. -/
def of?
    (startStates : List (StartState layout.bytes))
    (rules : List (Rule layout.bytes))
    (invariants assumptions : List (Property layout.bytes))
    (canonicalizer : Option (Canonicalizer layout.bytes)) :
    Except CheckError (Model layout) :=
  if started : startStates ≠ [] then
    .ok ⟨startStates, rules, invariants, assumptions, canonicalizer, started⟩
  else .error .noStartState

/-- Stop at the first of some properties that does not hold, as a failed assumption. -/
def assume
    (policy : OverflowPolicy)
    (block : Block layout.bytes) :
    List (Property layout.bytes) → Except Stop Unit
  | [] => return ()
  | property :: rest => do
    if ← property.holds policy block then assume policy block rest
    else throw (.fault (.assumption property.name))

/-- Check every assumption of the model. -/
def checkAssumptions
    (model : Model layout)
    (policy : OverflowPolicy)
    (block : Block layout.bytes) : Except Stop Unit :=
  assume policy block model.assumptions

/-- The sizes of the tables, for a reader of a log. -/
def describe (model : Model layout) : String :=
  "Model \x7b variables: " ++ toString layout.entries.size
    ++ ", state_bits: " ++ toString layout.bits
    ++ ", start_states: " ++ toString model.startStates.length
    ++ ", rules: " ++ toString model.rules.length
    ++ ", invariants: " ++ toString model.invariants.length
    ++ ", assumptions: " ++ toString model.assumptions.length
    ++ ", symmetry: " ++
      (if model.canonicalizer.isSome then "true" else "false") ++ " \x7d"

end Model
end StateSpace
