import StateSpace.Config.Basic
import StateSpace.Text.Blank
import StateSpace.Word

/-!
# Directive texts

Options can be written as directives, a keyword and a value each. A comment starts with
`\*` and runs to the end of its line. The value stands behind its keyword, or alone on
the next line that is not empty. Keywords are case-sensitive, values are not.

`Config.ofDirectives` applies every directive that is well formed to the defaults, and
collects the errors of the others instead of stopping at the first.
-/

namespace StateSpace

/-- The option that a directive sets. -/
inductive Directive where
  | symmetryReduction
  | deadlockDetection
  | overflowChecks
  | maxErrors
  | threads
  | counterexampleTrace
  | warmupThreshold
  | progressInterval
  deriving DecidableEq, Repr

namespace Directive

/-- The directive that a word announces. Two of them have a second keyword. -/
def ofKeyword? : String → Option Directive
  | "SYMMETRY_REDUCTION" => some symmetryReduction
  | "DEADLOCK_DETECTION" => some deadlockDetection
  | "CHECK_DEADLOCK" => some deadlockDetection
  | "OVERFLOW_CHECKS" => some overflowChecks
  | "MAX_ERRORS" => some maxErrors
  | "THREADS" => some threads
  | "WORKERS" => some threads
  | "COUNTEREXAMPLE_TRACE" => some counterexampleTrace
  | "WARMUP_THRESHOLD" => some warmupThreshold
  | "PROGRESS_INTERVAL" => some progressInterval
  | _ => none

/-- The first keyword of a directive, by which messages call it. -/
def keyword : Directive → String
  | symmetryReduction => "SYMMETRY_REDUCTION"
  | deadlockDetection => "DEADLOCK_DETECTION"
  | overflowChecks => "OVERFLOW_CHECKS"
  | maxErrors => "MAX_ERRORS"
  | threads => "THREADS"
  | counterexampleTrace => "COUNTEREXAMPLE_TRACE"
  | warmupThreshold => "WARMUP_THRESHOLD"
  | progressInterval => "PROGRESS_INTERVAL"

/-- What can be wrong with a line of directives. -/
inductive Problem where
  | missingValue (directive : Directive)
  | unknownDirective (word : String)
  | extraWord (directive : Directive) (word : String)
  | notAFlag (directive : Directive) (value : String)
  | notACount (directive : Directive) (value : String)
  | notATraceMode (complaint : String)
  deriving DecidableEq, Repr

/-- What is said of a problem. -/
def Problem.message : Problem → String
  | missingValue directive => directive.keyword ++ " requires a value"
  | unknownDirective word => "unknown directive " ++ Text.quoted word
  | extraWord directive word =>
    "unexpected " ++ Text.quoted word ++ " after " ++ directive.keyword ++ " value"
  | notAFlag directive value =>
    directive.keyword ++ " expects TRUE or FALSE, found " ++ Text.quoted value
  | notACount directive value =>
    directive.keyword ++ " expects a non-negative integer, found " ++ Text.quoted value
  | notATraceMode complaint => complaint

/-- The truth value that a word stands for in letters of either case. -/
def flag? (word : String) : Option Bool :=
  match String.ofList (word.toList.map Char.toUpper) with
  | "TRUE" | "ON" | "YES" => some true
  | "FALSE" | "OFF" | "NO" => some false
  | _ => none

/-- The number written by one or more decimal digits. -/
def decimal? (digits : List Char) : Option Nat :=
  if digits ≠ [] ∧ digits.all Char.isDigit then
    some (digits.foldl (fun number digit => 10 * number + (digit.toNat - '0'.toNat)) 0)
  else none

/-- The machine word written in decimal, behind a plus sign or not. -/
def count? (word : String) : Option Nat :=
  let digits :=
    match word.toList with
    | '+' :: digits => digits
    | digits => digits
  (decimal? digits).filter (· < Word.limit)

/-- Set an option to the value that a word stands for. -/
def apply
    (directive : Directive)
    (value : String)
    (config : Config) : Except Problem Config := do
  match directive with
  | symmetryReduction => return { config with symmetryReduction := ← flag }
  | deadlockDetection => return { config with deadlockDetection := ← flag }
  | overflowChecks => return { config with overflowChecks := ← flag }
  | maxErrors => return { config with maxErrors := ← count }
  | threads => return { config with threads := ← count }
  | counterexampleTrace =>
    match TraceMode.parse value with
    | .ok mode => return { config with counterexampleTrace := mode }
    | .error complaint => throw (.notATraceMode complaint)
  | warmupThreshold => return { config with warmupThreshold := ← count }
  | progressInterval => return { config with progressInterval := ← count }
where
  flag : Except Problem Bool :=
    match flag? value with
    | some truth => .ok truth
    | none => .error (.notAFlag directive value)
  count : Except Problem Nat :=
    match count? value with
    | some number => .ok number
    | none => .error (.notACount directive value)

/-- The part of a line before its comment. -/
def uncommented : List Char → List Char
  | [] => []
  | '\\' :: '*' :: _ => []
  | character :: rest => character :: uncommented rest

/-- A line that is not empty once comments are gone: its number and its words. -/
structure Line where
  number : Nat
  first : String
  others : List String
  deriving DecidableEq, Repr

/-- The lines of a text that are not empty once comments are gone, numbered from one. -/
def contentLines (text : String) : List Line :=
  (Text.lines text.toList).zipIdx.filterMap fun (line, index) =>
    match Text.words (uncommented line) with
    | [] => none
    | first :: others => some ⟨index + 1, first, others⟩

/-- What reading directives has come to. -/
structure Reading where
  config : Config
  /-- The errors found, in order. -/
  errors : List ConfigError
  /-- The directive that waits for its value, and its line. -/
  pending : Option (Directive × Nat)

namespace Reading

/-- Nothing read yet. -/
def start : Reading :=
  ⟨{}, [], none⟩

/-- Note a problem of a line. -/
def complain
    (reading : Reading)
    (line : Nat)
    (problem : Problem) : Reading :=
  { reading with errors := reading.errors ++ [⟨line, problem.message⟩] }

/-- Note that the waiting directive, if there is one, gets no value. -/
def abandonPending (reading : Reading) : Reading :=
  match reading.pending with
  | some (directive, line) =>
    { reading.complain line (.missingValue directive) with pending := none }
  | none => reading

/-- Give a directive its value, unless a further word follows the value. -/
def assign
    (reading : Reading)
    (line : Nat)
    (directive : Directive)
    (value : String)
    (further : List String) : Reading :=
  match further with
  | word :: _ => reading.complain line (.extraWord directive word)
  | [] =>
    match directive.apply value reading.config with
    | .ok config => { reading with config := config }
    | .error problem => reading.complain line problem

/-- Read one line. -/
def step
    (reading : Reading)
    (line : Line) : Reading :=
  match ofKeyword? line.first with
  | some directive =>
    let settled := reading.abandonPending
    match line.others with
    | value :: further => settled.assign line.number directive value further
    | [] => { settled with pending := some (directive, line.number) }
  | none =>
    match reading.pending with
    | some (directive, _) =>
      { reading with pending := none }.assign line.number directive
        line.first line.others
    | none => reading.complain line.number (.unknownDirective line.first)

/-- The errors of a text that ends here, with the defect of the options that it sets. -/
def finish (reading : Reading) : Except (List ConfigError) Config :=
  let settled := reading.abandonPending
  match settled.errors ++ settled.config.defect?.toList with
  | [] => .ok settled.config
  | errors => .error errors

end Reading
end Directive

/-- The options that a text of directives sets, or all that is wrong with it. -/
def Config.ofDirectives (text : String) : Except (List ConfigError) Config :=
  ((Directive.contentLines text).foldl Directive.Reading.step .start).finish

end StateSpace
