import StateSpace.Duration
import StateSpace.Error

/-!
# Reports

Everything that a run tells its user is an entry of a report: progress, faults, the
final summary. An entry is written as lines. A report goes to a sink, which may have
room for a limited number of bytes only; a report that does not fit is incomplete, and a
flush says so.
-/

namespace StateSpace

/-- The totals that a summary shows. -/
structure Totals where
  states : Nat
  rulesFired : Nat
  errors : Nat
  elapsed : Duration

/-- Something that a run tells its user. -/
inductive Entry where
  | progress (states : Nat) (elapsed : Duration) (rulesFired queued : Nat)
  /-- A fault, with the lines of its trace or, without one, those of the offending
  state. -/
  | fault (record : FaultRecord) (trace : Option (List String)) (state : List String)
  | summary (totals : Totals)
  /-- A line of another origin. -/
  | text (line : String)

namespace Entry

/-- The number of errors in words. -/
def verdict : Nat → String
  | 0 => "\tNo error found."
  | 1 => "\t1 error found."
  | errors => "\t" ++ toString errors ++ " errors found."

/-- An entry as lines. -/
def lines : Entry → List String
  | progress states elapsed rulesFired queued =>
    ["\t " ++ toString states ++ " states explored in " ++ toString elapsed.seconds
      ++ "s, with " ++ toString rulesFired ++ " rules fired and " ++ toString queued
      ++ " states in the queue."]
  | fault record (some trace) _ =>
    ["", "Error: " ++ record.describe, "",
      "The following is the error trace for the error:", ""]
      ++ trace ++ ["", "End of the error trace."]
  | fault record none state =>
    ["", "Error: " ++ record.describe, "", "State:"] ++ state
  | summary totals =>
    ["", String.ofList (List.replicate 74 '='), "", "Status:", "",
      verdict totals.errors, "", "State Space Explored:", "",
      "\t" ++ toString totals.states ++ " states, " ++ toString totals.rulesFired
        ++ " rules fired in " ++ toString totals.elapsed.seconds ++ "s."]
  | text line => [line]

end Entry

/-- Where a report goes. -/
structure Sink where
  /-- The bytes that the sink takes, if they are limited. -/
  room : Option Nat := none
  /-- Whether the sink can be flushed. -/
  flushes : Bool := true

/-- The entries written so far. -/
structure Report where
  entries : Array Entry := #[]

namespace Report

/-- The report with a further entry. -/
def add
    (report : Report)
    (entry : Entry) : Report :=
  ⟨report.entries.push entry⟩

/-- The report line by line. -/
def lines (report : Report) : List String :=
  report.entries.toList.flatMap Entry.lines

/-- The report as one text, with a line feed behind every line. -/
def text (report : Report) : String :=
  String.join (report.lines.map (· ++ "\n"))

/-- The bytes that the report takes. -/
def byteCount (report : Report) : Nat :=
  report.lines.foldr (fun line rest => line.utf8ByteSize + 1 + rest) 0

/-- Whether the sink refused some part of the report. It takes whatever fits, so it
refuses nothing exactly if the whole report fits. -/
def isIncomplete
    (report : Report)
    (sink : Sink) : Bool :=
  match sink.room with
  | some room => room < report.byteCount
  | none => false

/-- Bring the report to its end. A sink that cannot be flushed is reported before a lack
of room. -/
def flush
    (report : Report)
    (sink : Sink) : Except CheckError Unit :=
  if !sink.flushes then .error (.io "flush failed")
  else if report.isIncomplete sink then .error (.io "report output was incomplete")
  else .ok ()

/-- Whether something was refused, for a reader of a log. -/
def describe
    (report : Report)
    (sink : Sink) : String :=
  "Reporter \x7b failed: " ++
    (if report.isIncomplete sink then "true" else "false") ++ ", .. \x7d"

end Report
end StateSpace
