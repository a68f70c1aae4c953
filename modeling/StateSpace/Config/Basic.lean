import StateSpace.Error

/-!
# Configurations of a run

The options of one run, with the values they have by default. A run needs room for at
least one error and a progress interval that is not zero.
-/

namespace StateSpace

/-- How the path to an offending state is shown. -/
inductive TraceMode where
  /-- Not at all: only the offending state is shown. -/
  | off
  /-- The first state in full, then what changes. -/
  | diff
  /-- Every state in full. -/
  | full
  deriving DecidableEq, Repr

namespace TraceMode

/-- The name of the mode. -/
def key : TraceMode → String
  | off => "off"
  | diff => "diff"
  | full => "full"

/-- The mode of exactly the given name. -/
def ofKey? (key : String) : Option TraceMode :=
  [off, diff, full].find? (·.key == key)

/-- The mode of a name in letters of either case, or what is said of a name that is
none. -/
def parse (text : String) : Except String TraceMode :=
  match String.ofList (text.toList.map Char.toLower) with
  | "off" | "none" => .ok off
  | "diff" => .ok diff
  | "full" => .ok full
  | other =>
    .error ("unknown trace mode " ++ Text.quoted other ++
      " (expected off, diff or full)")

end TraceMode

/-- The options of one run. -/
structure Config where
  /-- Explore one representative of each symmetry class. -/
  symmetryReduction : Bool := false
  /-- Report states in which no rule can fire. -/
  deadlockDetection : Bool := true
  /-- Treat 64-bit overflow as a fault. -/
  overflowChecks : Bool := true
  /-- Stop after this many reported faults. -/
  maxErrors : Nat := 1
  /-- The number of workers. Zero asks for one per processor. -/
  threads : Nat := 1
  counterexampleTrace : TraceMode := .diff
  /-- The queue length at which the workers after the first start. -/
  warmupThreshold : Nat := 20
  /-- Print a progress line each time this many states have been discovered. -/
  progressInterval : Nat := 10000
  deriving DecidableEq, Repr

namespace Config

/-- The defect of options that no run can honour. -/
def defect? (config : Config) : Option ConfigError :=
  if config.maxErrors = 0 then some ⟨0, "max_errors must be at least 1"⟩
  else if config.progressInterval = 0 then some
    ⟨0, "progress_interval must be at least 1"⟩
  else none

end Config
end StateSpace
