import StateSpace.Breach
import StateSpace.Fault

/-!
# Errors

Four layers can fail. Declarations are refused with a `LayoutError`, configurations with
a `ConfigError`, and a whole run with a `CheckError`. A callable of a model stops with a
fault or a breach (`Stop`), and a run ends early with an error or a breach (`RunError`).
-/

namespace StateSpace

/-- Why a declaration of types, variables or symmetries is refused. -/
inductive LayoutError where
  | duplicateVariable (name : String)
  | emptyRange (min max : Int)
  | emptyEnum
  | duplicateMember (name : String)
  | duplicateField (name : String)
  | nonScalarIndex
  | tooWide
  | tooManyVariables (limit : Nat)
  | symmetryMismatch (expected found : Nat)
  | notAnOrdinal
  deriving DecidableEq, Repr

/-- What is said of a refused declaration. -/
def LayoutError.message : LayoutError → String
  | duplicateVariable name =>
    "variable " ++ Text.quoted name ++ " declared more than once"
  | emptyRange min max => "empty range [" ++ toString min ++ ", " ++ toString max ++ "]"
  | emptyEnum => "enum has no members"
  | duplicateMember name =>
    "enum member " ++ Text.quoted name ++ " declared more than once"
  | duplicateField name =>
    "record field " ++ Text.quoted name ++ " declared more than once"
  | nonScalarIndex => "array index must be a boolean, range or enum type"
  | tooWide => "type is too wide to be represented"
  | tooManyVariables limit => "too many variables (limit is " ++ toString limit ++ ")"
  | symmetryMismatch expected found =>
    "symmetric array has " ++ toString found ++ " elements but the domain has " ++
      toString expected
  | notAnOrdinal => "only range and enum fields can hold a symmetric ordinal"

/-- Why a configuration is refused, with the line that is to blame. Line zero stands for
no line. -/
structure ConfigError where
  line : Nat
  message : String
  deriving DecidableEq, Repr

/-- The message, after its line if it has one. -/
def ConfigError.describe (error : ConfigError) : String :=
  if error.line = 0 then error.message
  else "line " ++ toString error.line ++ ": " ++ error.message

/-- Why a run has no result. -/
inductive CheckError where
  | noStartState
  | layout (error : LayoutError)
  | config (error : ConfigError)
  /-- The search could not explain its own states. -/
  | internal (reason : String)
  | workerPanicked (thread : Nat)
  | io (reason : String)
  deriving DecidableEq, Repr

/-- What is said of a run without a result. -/
def CheckError.message : CheckError → String
  | noStartState => "model has no start state"
  | layout error => "invalid layout: " ++ error.message
  | config error => "invalid configuration: " ++ error.describe
  | internal reason => "internal failure: " ++ reason
  | workerPanicked thread => "worker thread " ++ toString thread ++ " panicked"
  | io reason => "I/O error: " ++ reason

/-- Why a callable of a model stops before its end. -/
inductive Stop where
  | fault (fault : Fault)
  | breach (breach : Breach)
  deriving DecidableEq, Repr

/-- Why a run stops before its end. -/
inductive RunError where
  | check (error : CheckError)
  | breach (breach : Breach)
  deriving DecidableEq, Repr

instance : MonadLift (Except Fault) (Except Stop) :=
  ⟨fun attempt => attempt.mapError .fault⟩

instance : MonadLift (Except Breach) (Except Stop) :=
  ⟨fun attempt => attempt.mapError .breach⟩

instance : MonadLift (Except Breach) (Except RunError) :=
  ⟨fun attempt => attempt.mapError .breach⟩

instance : MonadLift (Except CheckError) (Except RunError) :=
  ⟨fun attempt => attempt.mapError .check⟩

/-- A sequence of attempts succeeds exactly if each of them does. -/
theorem bind_eq_ok
    {ε α β : Type}
    {attempt : Except ε α}
    {next : α → Except ε β}
    {result : β} :
    (attempt >>= next) = .ok result ↔
      ∃ value, attempt = .ok value ∧ next value = .ok result := by
  cases attempt with
  | error problem => exact ⟨nofun, nofun⟩
  | ok value =>
      constructor
      · exact fun rest => ⟨value, rfl, rest⟩
      · rintro ⟨_, ⟨⟩, rest⟩
        exact rest

@[simp] theorem liftBreach_ok
    {α : Type}
    (value : α) :
    (liftM (Except.ok value : Except Breach α) : Except RunError α) = .ok value :=
  rfl

/-- Seen from a run, a check succeeds exactly if it does on its own. -/
theorem liftCheck_eq_ok
    {α : Type}
    {attempt : Except CheckError α}
    {result : α} :
    (liftM attempt : Except RunError α) = .ok result ↔ attempt = .ok result := by
  cases attempt with
  | error problem => exact ⟨nofun, nofun⟩
  | ok value => exact ⟨fun same => by cases same; rfl, fun same => by cases same; rfl⟩

/-- Seen from a run, a storage operation succeeds exactly if it does on its own. -/
theorem liftBreach_eq_ok
    {α : Type}
    {attempt : Except Breach α}
    {result : α} :
    (liftM attempt : Except RunError α) = .ok result ↔ attempt = .ok result := by
  cases attempt with
  | error breach => exact ⟨nofun, nofun⟩
  | ok value => exact ⟨fun same => by cases same; rfl, fun same => by cases same; rfl⟩

end StateSpace
