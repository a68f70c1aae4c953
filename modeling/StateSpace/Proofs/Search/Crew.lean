import Mathlib.Algebra.BigOperators.Group.Multiset.Basic
import StateSpace.Proofs.Execution
import StateSpace.Proofs.Search.Reachable

/-!
# Interleaved expansion

Any number of workers expand states at the same time. What they share is a
board and the states that wait. A task is one worker's way through the start
states or through the rules of one state; it advances by points, each of which
reads or writes the board once. Running a callable and judging what it leaves
touches nothing that another worker can change, so this is one step.

A crew is a board with waiting states and tasks under way. Its steps let any
task advance and any waiting state be taken, in any order.
-/

namespace StateSpace

variable {layout : Layout}

/-- What workers share, the waiting states apart. -/
structure Board (layout : Layout) where
  visited : VisitedSet (Block layout.bytes)
  /-- The faults that were raised, also those beyond the room for faults. -/
  raised : Nat
  rulesFired : Nat
  /-- The recorded faults in order. -/
  faults : Array FaultRecord
  report : Report

/-- Whether the room for faults is used up. -/
def Board.isExhausted
    (setup : Setup layout)
    (board : Board layout) : Bool :=
  setup.config.maxErrors ≤ board.raised

/-- The board of a search. -/
def Search.board (search : Search layout) : Board layout :=
  ⟨search.visited, search.faults.size, search.rulesFired, search.faults, search.report⟩

/-- What a task has left to attempt. -/
inductive Agenda (layout : Layout)
  | starts (rest : List (StartState layout.bytes))
  /-- The rules left in a state, which is `stuck` if none before them was
  enabled. -/
  | rules
      (origin : State layout.bytes)
      (stuck : Bool)
      (rest : List (Rule layout.bytes))

/-- A candidate that was attempted, and the state to blame if it is rejected. -/
structure Firing (layout : Layout) where
  context : String
  blamed : State layout.bytes
  /-- Whether the blamed state has a trace. -/
  traceable : Bool
  state : State layout.bytes
  judgement : Judgement

/-- The candidate of a start state. It is to blame itself. -/
def Firing.ofStart
    (start : StartState layout.bytes)
    (candidate : Candidate layout.bytes) : Firing layout where
  context := "startstate " ++ start.name
  blamed := .ofBlock candidate.block
  traceable := false
  state := .ofBlock candidate.block
  judgement := candidate.judgement

/-- The candidate of a rule in a state, which is to blame. -/
def Firing.ofRule
    (origin : State layout.bytes)
    (rule : Rule layout.bytes)
    (candidate : Candidate layout.bytes) : Firing layout where
  context := "rule " ++ rule.name
  blamed := origin
  traceable := true
  state := origin.successor candidate.block
  judgement := candidate.judgement

/-- What follows a reported fault. -/
inductive Sequel (layout : Layout)
  /-- The room for faults is looked at. If there is some, a violating state
  is kept. -/
  | weigh (kept : Option (State layout.bytes))
  | leave

/-- What a task does next to the board. -/
inductive Point (layout : Layout)
  | attempt
  /-- Count the firing of a rule. -/
  | count (firing : Firing layout)
  /-- Claim room for a fault. -/
  | raise
      (record : FaultRecord)
      (state : State layout.bytes)
      (traceable : Bool)
      (sequel : Sequel layout)
  | print
      (record : FaultRecord)
      (state : State layout.bytes)
      (traceable : Bool)
      (sequel : Sequel layout)
  | log (record : FaultRecord) (sequel : Sequel layout)
  | weigh (kept : Option (State layout.bytes))
  /-- Insert the canonical form of a state into the visited set. -/
  | offer (state : State layout.bytes)
  /-- Report progress after the discovery that made the visited set this
  large. -/
  | announce (size : Nat)

/-- How far a task has come. -/
inductive Stage (layout : Layout)
  | active (point : Point layout)
  /-- A state was discovered and has to be queued. -/
  | push (state : State layout.bytes) (size : Nat)
  | ended

/-- One worker's way through start states or through the rules of a state. -/
structure Task (layout : Layout) where
  agenda : Agenda layout
  recycler : Recycler layout.bytes
  stage : Stage layout

/-- The stage after a reported fault. -/
def Sequel.stage : Sequel layout → Stage layout
  | .weigh kept => .active (.weigh kept)
  | .leave => .ended

/-- The stage after a fault of a callable. A failed assumption is not
reported. -/
def Stage.afterFault
    (record? : Option FaultRecord)
    (blamed : State layout.bytes)
    (traceable : Bool) : Stage layout :=
  match record? with
  | some record => .active (.raise record blamed traceable (.weigh none))
  | none => .active (.weigh none)

/-- Go on as a judgement says. -/
def Firing.settle
    (firing : Firing layout)
    (agenda : Agenda layout)
    (recycler : Recycler layout.bytes) : Except RunError (Task layout) := do
  match firing.judgement with
  | .rejected fault =>
    return {
      agenda
      recycler := ← recycler.free firing.state.block
      stage := .afterFault (FaultRecord.ofFault? fault firing.context)
        firing.blamed firing.traceable }
  | .infeasible =>
    return {
      agenda
      recycler := ← recycler.free firing.state.block
      stage := .active .attempt }
  | .violated record =>
    return {
      agenda
      recycler
      stage := .active (.raise record firing.state true (.weigh (some firing.state))) }
  | .accepted => return { agenda, recycler, stage := .active (.offer firing.state) }

/-- Attempt what comes first on an agenda. -/
def Agenda.attempt
    (setup : Setup layout)
    (recycler : Recycler layout.bytes) :
    Agenda layout → Except RunError (Task layout)
  | .starts [] => return { agenda := .starts [], recycler, stage := .ended }
  | .starts (start :: rest) => do
    let candidate ← setup.model.attemptStartOn setup.policy recycler.allocZeroed.1 start
    (Firing.ofStart start candidate).settle (.starts rest) recycler.allocZeroed.2
  | .rules origin stuck [] =>
    return {
      agenda := .rules origin false []
      recycler
      stage :=
        if stuck && setup.config.deadlockDetection then
          .active (.raise Setup.deadlockRecord origin true .leave)
        else .ended }
  | .rules origin stuck (rule :: rest) => do
    match ← setup.model.attemptRuleOn setup.policy origin.block
      (recycler.allocCopy origin.block).1 rule with
    | .disabled =>
      return { agenda := .rules origin stuck rest, recycler, stage := .active .attempt }
    | .guardFault fault =>
      return {
        agenda := .rules origin stuck rest
        recycler
        stage := .afterFault (FaultRecord.ofFault? fault ("rule " ++ rule.name))
          origin true }
    | .candidate candidate =>
      let firing := Firing.ofRule origin rule candidate
      let remaining := Agenda.rules origin false rest
      let allocated := (recycler.allocCopy origin.block).2
      if candidate.completed then
        return {
          agenda := remaining
          recycler := allocated
          stage := .active (.count firing) }
      else firing.settle remaining allocated

/-- Do what a task does next to the board. The number of queued states that a
progress line shows is a guess while other workers are active. -/
def Point.advance
    (setup : Setup layout)
    (queued : Nat)
    (agenda : Agenda layout)
    (recycler : Recycler layout.bytes)
    (board : Board layout) :
    Point layout → Except RunError (Task layout × Board layout)
  | .attempt => do return (← agenda.attempt setup recycler, board)
  | .count firing => do
    return (← firing.settle agenda recycler,
      { board with rulesFired := board.rulesFired + 1 })
  | .raise record state traceable sequel =>
    let stage :=
      if board.isExhausted setup then sequel.stage
      else .active (.print record state traceable sequel)
    return (⟨agenda, recycler, stage⟩, { board with raised := board.raised + 1 })
  | .print record state traceable sequel => do
    let trace ← Search.traceLines setup state traceable
    let dump ← Search.dumpLines state trace
    return (⟨agenda, recycler, .active (.log record sequel)⟩,
      { board with report := board.report.add (.fault record trace dump) })
  | .log record sequel =>
    return (⟨agenda, recycler, sequel.stage⟩,
      { board with faults := board.faults.push record })
  | .weigh kept => do
    if board.isExhausted setup then
      match kept with
      | some state => return (⟨agenda, ← recycler.free state.block, .ended⟩, board)
      | none => return (⟨agenda, recycler, .ended⟩, board)
    else
      match kept with
      | some state => return (⟨agenda, recycler, .active (.offer state)⟩, board)
      | none => return (⟨agenda, recycler, .active .attempt⟩, board)
  | .offer state => do
    let block ← setup.canonical state.block
    if board.visited.contains block then
      return (⟨agenda, ← recycler.free block, .active .attempt⟩, board)
    else
      let visited := board.visited.insert block
      return (⟨agenda, recycler, .push ⟨block, state.ancestors⟩ visited.size⟩,
        { board with visited })
  | .announce size =>
    return (⟨agenda, recycler, .active .attempt⟩,
      if size % setup.config.progressInterval = 0 then
        { board with
          report := board.report.add (.progress size .zero board.rulesFired queued) }
      else board)

/-- The task of a worker that has taken a state. -/
def Task.ofState
    (setup : Setup layout)
    (state : State layout.bytes)
    (recycler : Recycler layout.bytes) : Task layout :=
  ⟨.rules state true setup.model.rules, recycler, .active .attempt⟩

/-- The task that goes through the start states. -/
def Task.seeding
    (setup : Setup layout)
    (recycler : Recycler layout.bytes) : Task layout :=
  ⟨.starts setup.model.startStates, recycler, .active .attempt⟩

/-- Something that a history of a crew remembers. -/
inductive Event (size : Nat)
  /-- A canonical block was held against the visited set. -/
  | offered (block : Block size)
  /-- A waiting state was taken by a worker. -/
  | taken (state : State size)
  /-- The expansion of a state came to its end. -/
  | finished (state : State size)

/-- What is remembered of a point. -/
def Point.events
    (setup : Setup layout) :
    Point layout → List (Event layout.bytes)
  | .offer state =>
    match setup.canonical state.block with
    | .ok block => [.offered block]
    | .error _ => []
  | _ => []

/-- What is remembered of the end of a task. -/
def Agenda.closing : Agenda layout → List (Event layout.bytes)
  | .starts _ => []
  | .rules origin _ _ => [.finished origin]

/-- A board, the states that wait to be taken, and the tasks under way. -/
structure Crew (layout : Layout) where
  board : Board layout
  waiting : Multiset (State layout.bytes)
  tasks : Multiset (Task layout)

namespace Crew

/-- One step of one worker, and what is remembered of it. -/
inductive Step (setup : Setup layout) :
    Crew layout → List (Event layout.bytes) → Crew layout → Prop
  | take
      {board : Board layout}
      {waiting : Multiset (State layout.bytes)}
      {tasks : Multiset (Task layout)}
      {state : State layout.bytes}
      {recycler : Recycler layout.bytes} :
      Step setup ⟨board, state ::ₘ waiting, tasks⟩ [.taken state]
        ⟨board, waiting, Task.ofState setup state recycler ::ₘ tasks⟩
  | advance
      {board advanced : Board layout}
      {waiting : Multiset (State layout.bytes)}
      {tasks : Multiset (Task layout)}
      {agenda : Agenda layout}
      {recycler : Recycler layout.bytes}
      {point : Point layout}
      {task : Task layout}
      {queued : Nat}
      (moved : point.advance setup queued agenda recycler board =
        .ok (task, advanced)) :
      Step setup ⟨board, waiting, ⟨agenda, recycler, .active point⟩ ::ₘ tasks⟩
        (point.events setup) ⟨advanced, waiting, task ::ₘ tasks⟩
  | push
      {board : Board layout}
      {waiting : Multiset (State layout.bytes)}
      {tasks : Multiset (Task layout)}
      {agenda : Agenda layout}
      {recycler : Recycler layout.bytes}
      {state : State layout.bytes}
      {size : Nat} :
      Step setup ⟨board, waiting, ⟨agenda, recycler, .push state size⟩ ::ₘ tasks⟩ []
        ⟨board, state ::ₘ waiting,
         ⟨agenda, recycler, .active (.announce size)⟩ ::ₘ tasks⟩
  | finish
      {board : Board layout}
      {waiting : Multiset (State layout.bytes)}
      {tasks : Multiset (Task layout)}
      {agenda : Agenda layout}
      {recycler : Recycler layout.bytes} :
      Step setup ⟨board, waiting, ⟨agenda, recycler, .ended⟩ ::ₘ tasks⟩
        agenda.closing ⟨board, waiting, tasks⟩

/-- Any number of steps in any order, with the history of what was done. -/
abbrev Run (setup : Setup layout) :
    Crew layout → List (Event layout.bytes) → Crew layout → Prop :=
  Execution (Step setup)

/-- Some run leads from one crew to another. -/
def Reaches
    (setup : Setup layout)
    (first last : Crew layout) : Prop :=
  ∃ history, Run setup first history last

theorem Reaches.refl
    {setup : Setup layout}
    (crew : Crew layout) :
    Reaches setup crew crew :=
  ⟨[], .refl⟩

theorem Reaches.trans
    {setup : Setup layout}
    {first middle last : Crew layout}
    (before : Reaches setup first middle)
    (after : Reaches setup middle last) :
    Reaches setup first last := by
  obtain ⟨earlier, run⟩ := before
  obtain ⟨later, further⟩ := after
  exact ⟨earlier ++ later, run.trans further⟩

theorem Step.reaches
    {setup : Setup layout}
    {crew next : Crew layout}
    {events : List (Event layout.bytes)}
    (step : Step setup crew events next) :
    Reaches setup crew next :=
  ⟨events, .single step⟩

/-- An empty board. -/
def emptyBoard (layout : Layout) : Board layout :=
  ⟨.empty, 0, 0, #[], {}⟩

/-- The crew of a run that begins: nothing is discovered, and one task goes
through the start states. -/
def start
    (setup : Setup layout)
    (recycler : Recycler layout.bytes) : Crew layout :=
  ⟨emptyBoard layout, 0, {Task.seeding setup recycler}⟩

/-- Nothing waits and no task is under way. -/
structure Idle (crew : Crew layout) : Prop where
  waiting : crew.waiting = 0
  tasks : crew.tasks = 0

end Crew
end StateSpace
