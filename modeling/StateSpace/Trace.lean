import StateSpace.Config.Basic
import StateSpace.Model
import StateSpace.State
import StateSpace.View.Leaves

/-!
# Counterexample traces

A state remembers the states that it came from but not the rules that led from one to
the next. Replay finds them again: it runs every start state, and every enabled rule of
a recorded state, until one yields the next recorded state. Recorded states may be
canonical or not, so a replayed state matches in either form.

`Replay.reconstruct` labels every state on the path to a target, and `Step.render`
writes the labelled path as lines of a report.
-/

namespace StateSpace

/-- A labelled state of a trace. -/
structure Step where
  /-- The start state or rule that produced the state. -/
  label : String
  leaves : List Leaf

namespace Step

/-- The leaves of a step that differ from the leaf at the same position in the step
before it. -/
def changedLeaves (previous : List Leaf) : List Leaf → List Leaf
  | [] => []
  | leaf :: rest =>
    match previous with
    | [] => leaf :: changedLeaves [] rest
    | old :: others =>
      if old.2 = leaf.2 then changedLeaves others rest
        else leaf :: changedLeaves others rest

/-- The leaves that are shown of a step, given the step before it. -/
def shownLeaves
    (mode : TraceMode)
    (previous : Option Step)
    (step : Step) : List Leaf :=
  match mode, previous with
  | .diff, some before => changedLeaves before.leaves step.leaves
  | _, _ => step.leaves

/-- A step as lines of a report: its label, the leaves that are shown, and a rule below
them. -/
def lines
    (mode : TraceMode)
    (previous : Option Step)
    (step : Step) : List String :=
  ("\t" ++ step.label ++ " fired.") :: (shownLeaves mode previous step).map Leaf.line
    ++ ["----------"]

/-- A trace as lines of a report, with the step before the first. -/
def renderAfter
    (mode : TraceMode)
    (previous : Option Step) : List Step → List String
  | [] => []
  | step :: rest => step.lines mode previous ++ renderAfter mode (some step) rest

/-- A trace as lines of a report. -/
def render
    (mode : TraceMode)
    (steps : List Step) : List String :=
  renderAfter mode none steps

end Step

/-- What is needed to run a model again. -/
structure Replay (layout : Layout) where
  model : Model layout
  policy : OverflowPolicy
  canonicalizer : Option (Canonicalizer layout.bytes)

namespace Replay

variable {layout : Layout}

/-- Whether a replayed block is the recorded one, as it is or in canonical form. -/
def matchesRecorded
    (replay : Replay layout)
    (candidate recorded : Block layout.bytes) :
    Except Breach Bool :=
  if candidate = recorded then return true
  else
    match replay.canonicalizer with
    | some canonicalize => return (← canonicalize candidate) = recorded
    | none => return false

/-- The outcome of a run of a callable that is over: a block, or nothing after a
fault. -/
def completed
    {size : Nat}
    (outcome : Except Stop Unit × Block size) :
    Except Breach (Option (Block size)) :=
  match outcome with
  | (.ok (), block) => .ok (some block)
  | (.error (.fault _), _) => .ok none
  | (.error (.breach breach), _) => .error breach

/-- The first start state of a list that yields the recorded block. -/
def findStart
    (replay : Replay layout)
    (recorded : Block layout.bytes) :
    List (StartState layout.bytes) → Except Breach (Option (StartState layout.bytes))
  | [] => return none
  | start :: rest => do
    match ← completed ((start.init replay.policy).runOn (.zero layout.bytes)) with
    | some candidate =>
      if ← replay.matchesRecorded candidate recorded then return some start
      else findStart replay recorded rest
    | none => findStart replay recorded rest

/-- Whether the guard of a rule holds, where a fault counts as no. -/
def isEnabled
    (replay : Replay layout)
    (origin : Block layout.bytes)
    (rule : Rule layout.bytes) : Except Breach Bool :=
  match rule.guard replay.policy origin with
  | .ok holds => .ok holds
  | .error (.fault _) => .ok false
  | .error (.breach breach) => .error breach

/-- The first rule of a list that leads from one recorded block to the next. -/
def findRule
    (replay : Replay layout)
    (origin recorded : Block layout.bytes) :
    List (Rule layout.bytes) → Except Breach (Option (Rule layout.bytes))
  | [] => return none
  | rule :: rest => do
    if ← replay.isEnabled origin rule then
      match ← completed ((rule.body replay.policy).runOn origin) with
      | some candidate =>
        if ← replay.matchesRecorded candidate recorded then return some rule
        else findRule replay origin recorded rest
      | none => findRule replay origin recorded rest
    else findRule replay origin recorded rest

/-- The step to the first recorded block of a path. -/
def startStep
    (replay : Replay layout)
    (recorded : Block layout.bytes) : Except RunError Step := do
  match ← replay.findStart recorded replay.model.startStates with
  | some start => return ⟨"Startstate " ++ start.name, ← layout.leaves recorded⟩
  | none =>
    throw (.check (.internal "no start state found to produce a discovered state"))

/-- The step from one recorded block to the next. -/
def ruleStep
    (replay : Replay layout)
    (origin recorded : Block layout.bytes) :
    Except RunError Step := do
  match ← replay.findRule origin recorded replay.model.rules with
  | some rule => return ⟨"Rule " ++ rule.name, ← layout.leaves recorded⟩
  | none => throw (.check (.internal "no rule found to link two discovered states"))

/-- The steps along the recorded blocks that follow a given one. -/
def ruleSteps
    (replay : Replay layout)
    (origin : Block layout.bytes) :
    List (Block layout.bytes) → Except RunError (List Step)
  | [] => return []
  | recorded :: rest =>
    return (← replay.ruleStep origin recorded) :: (← replay.ruleSteps recorded rest)

/-- The labelled path from a start state to a target, both ends included. -/
def reconstruct
    (replay : Replay layout)
    (target : State layout.bytes) :
    Except RunError (List Step) := do
  match target.path with
  | [] => return []
  | first :: rest => return (← replay.startStep first) :: (← replay.ruleSteps first rest)

end Replay
end StateSpace
