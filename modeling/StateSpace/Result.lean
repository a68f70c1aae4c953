import StateSpace.Duration
import StateSpace.Fault

/-!
# Results

The outcome of a run that came to its end.
-/

namespace StateSpace

/-- What a run found. -/
structure CheckResult where
  /-- The number of distinct states discovered. -/
  states : Nat
  rulesFired : Nat
  errors : Nat
  faults : List FaultRecord
  elapsed : Duration
  deriving DecidableEq, Repr

namespace CheckResult

/-- Whether nothing was found wrong. -/
def passed (result : CheckResult) : Bool :=
  result.errors = 0

/-- The exit status of a program that ran the check. -/
def exitCode (result : CheckResult) : Nat :=
  if result.passed then 0 else 1

/-- The categories of the faults, in order and each once. -/
def faultKinds (result : CheckResult) : List FaultKind :=
  FaultKind.all.filter fun kind => result.faults.any (·.kind = kind)

end CheckResult
end StateSpace
