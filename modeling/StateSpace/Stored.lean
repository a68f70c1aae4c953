import StateSpace.Config.Basic
import StateSpace.Json.Read
import StateSpace.Result
import StateSpace.Word

/-!
# Stored documents

How configurations, fault records and results are stored as JSON. A structure is written
as an object. It is read from an object in any order, or from an array of its fields in
order. A repeated field is refused and an unknown one ignored; a configuration takes
defaults for missing fields, and the other structures need all of theirs but the context
of a record.
-/

namespace StateSpace
namespace Stored

/-- The value of a named member, if there is exactly one of that name. None is no
error. -/
def member?
    (members : List (String × Json))
    (name : String) : Option (Option Json) :=
  match members.filter (·.1 == name) with
  | [] => some none
  | [(_, value)] => some (some value)
  | _ => none

/-- The values of named fields, each of which may be missing, in the order of the names.
In an array the fields that are missing are the last. -/
def fields? (names : List String) : Json → Option (List (Option Json))
  | .object members => do
    let members ← members.mapM fun (name, value) => return (← name, value)
    names.mapM (member? members)
  | .array items =>
    if items.length ≤ names.length then
      some (items.map some ++ List.replicate (names.length - items.length) none)
    else none
  | _ => none

/-- Whether a value has no members beyond the named ones. -/
def hasOnly (names : List String) : Json → Bool
  | .object members => members.all fun (name, _) => name.any names.contains
  | _ => true

/-- A truth value. -/
def truth? : Json → Option Bool
  | .truth value => some value
  | _ => none

/-- A natural number below a limit. -/
def natural? (limit : Nat) : Json → Option Nat
  | .natural value => if value < limit then some value else none
  | _ => none

/-- A text. -/
def text? : Json → Option String
  | .string content => content
  | _ => none

/-- One of some named values: its name, or the object that pairs its name with null. -/
def choice?
    {α : Type}
    (ofKey? : String → Option α) : Json → Option α
  | .string content => do ofKey? (← content)
  | .object [(name, .null)] => do ofKey? (← name)
  | _ => none

/-- A field, or its default if it is missing. -/
def orDefault
    {α : Type}
    (read? : Json → Option α)
    (default : α) : Option Json → Option α
  | some json => read? json
  | none => some default

/-- A field that may not be missing. -/
def required
    {α : Type}
    (read? : Json → Option α)
    (field : Option Json) : Option α := do
  read? (← field)

/-- A text, or null in its place. -/
def optionalText? : Json → Option (Option String)
  | .null => some none
  | json => do return some (← text? json)

/-- A number of 32 bits. -/
def halfWord? : Json → Option Nat :=
  natural? 0x100000000

/-- A machine word. -/
def word? : Json → Option Nat :=
  natural? Word.limit

end Stored

open Stored

namespace FaultRecord

/-- The record that a JSON value stores. -/
def ofJson? (json : Json) : Option FaultRecord := do
  match ← fields? ["kind", "message", "context"] json with
  | [kind, message, context] =>
    return ⟨← required (choice? FaultKind.ofKey?) kind, ← required text? message,
      ← orDefault optionalText? none context⟩
  | _ => none

/-- The record as a JSON value, without a context if it has none. -/
def toJson (record : FaultRecord) : Json :=
  .record ([("kind", .text record.kind.key), ("message", .text record.message)]
    ++ (record.context.map fun context => ("context", Json.text context)).toList)

end FaultRecord

namespace Duration

/-- The duration that a JSON value stores. Nanoseconds beyond a second are carried. -/
def ofJson? (json : Json) : Option Duration := do
  let names := ["secs", "nanos"]
  guard (hasOnly names json)
  match ← fields? names json with
  | [seconds, nanoseconds] =>
    let seconds ← required word? seconds
    let nanoseconds ← required halfWord? nanoseconds
    let total ← Word.add? seconds (nanoseconds / 1000000000)
    return ⟨total, nanoseconds % 1000000000⟩
  | _ => none

def toJson (duration : Duration) : Json :=
  .record [("secs", .natural duration.seconds), ("nanos", .natural duration.nanoseconds)]

end Duration

namespace CheckResult

/-- The records that a JSON value stores. -/
def faultsOfJson? : Json → Option (List FaultRecord)
  | .array items => items.mapM FaultRecord.ofJson?
  | _ => none

/-- The result that a JSON value stores. -/
def ofJson? (json : Json) : Option CheckResult := do
  match ← fields? ["states", "rules_fired", "errors", "faults", "elapsed"] json with
  | [states, rulesFired, errors, faults, elapsed] =>
    return ⟨← required word? states, ← required word? rulesFired,
      ← required word? errors, ← required faultsOfJson? faults,
      ← required Duration.ofJson? elapsed⟩
  | _ => none

def toJson (result : CheckResult) : Json :=
  .record [("states", .natural result.states),
    ("rules_fired", .natural result.rulesFired),
    ("errors", .natural result.errors),
    ("faults", .array (result.faults.map FaultRecord.toJson)),
    ("elapsed", result.elapsed.toJson)]

end CheckResult

namespace Config

/-- The names of the options in stored configurations. -/
def keys : List String :=
  ["symmetry_reduction", "deadlock_detection", "overflow_checks", "max_errors",
    "threads", "counterexample_trace", "warmup_threshold", "progress_interval"]

/-- The configuration that a JSON value stores, with defaults for missing options. -/
def ofJson? (json : Json) : Option Config := do
  let initial : Config := {}
  match ← fields? keys json with
  | [symmetryReduction, deadlockDetection, overflowChecks, maxErrors, threads,
      counterexampleTrace, warmupThreshold, progressInterval] =>
    return {
      symmetryReduction := ← orDefault truth? initial.symmetryReduction symmetryReduction
      deadlockDetection := ← orDefault truth? initial.deadlockDetection deadlockDetection
      overflowChecks := ← orDefault truth? initial.overflowChecks overflowChecks
      maxErrors := ← orDefault word? initial.maxErrors maxErrors
      threads := ← orDefault word? initial.threads threads
      counterexampleTrace :=
        ← orDefault (choice? TraceMode.ofKey?) initial.counterexampleTrace
          counterexampleTrace
      warmupThreshold := ← orDefault word? initial.warmupThreshold warmupThreshold
      progressInterval := ← orDefault word? initial.progressInterval progressInterval }
  | _ => none

def toJson (config : Config) : Json :=
  .record (keys.zip [.truth config.symmetryReduction, .truth config.deadlockDetection,
    .truth config.overflowChecks, .natural config.maxErrors, .natural config.threads,
    .text config.counterexampleTrace.key, .natural config.warmupThreshold,
    .natural config.progressInterval])

end Config
end StateSpace
