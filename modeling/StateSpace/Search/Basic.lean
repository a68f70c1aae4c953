import StateSpace.Queue
import StateSpace.Report
import StateSpace.Search.Attempt
import StateSpace.Trace
import StateSpace.Visited

/-!
# Searches

A search holds what a run has come to: the discovered blocks, the states that wait to be
expanded, the faults reported so far, and the report. Its operations record the outcomes
of attempts. A state is inserted into the visited set and pushed to the queue in one
step, so every discovered state waits exactly once.
-/

namespace StateSpace

/-- What a run works with. -/
structure Setup (layout : Layout) where
  model : Model layout
  config : Config

namespace Setup

variable {layout : Layout}

/-- What becomes of overflow during the run. -/
def policy (setup : Setup layout) : OverflowPolicy :=
  .ofChecks setup.config.overflowChecks

/-- The canonicalizer that the run applies, if it applies one. -/
def canonicalizer (setup : Setup layout) : Option (Canonicalizer layout.bytes) :=
  if setup.config.symmetryReduction then setup.model.canonicalizer else none

/-- The form in which the run stores a block. -/
def canonical
    (setup : Setup layout)
    (block : Block layout.bytes) :
    Except Breach (Block layout.bytes) :=
  match setup.canonicalizer with
  | some canonicalize => canonicalize block
  | none => .ok block

/-- What the run replays the model with. -/
def replay (setup : Setup layout) : Replay layout :=
  ⟨setup.model, setup.policy, setup.canonicalizer⟩

/-- The number of workers, and of shards of the queue. A configuration with no threads
leaves the choice to the machine, which has one worker for each of its processors; here
the machine has one processor, and a run with more workers is that of a configuration
that asks for so many. -/
def workers (setup : Setup layout) : Nat :=
  max setup.config.threads 1

end Setup

/-- What a run has come to. -/
structure Search (layout : Layout) where
  visited : VisitedSet (Block layout.bytes)
  queue : WorkQueue (State layout.bytes)
  recycler : Recycler layout.bytes
  rulesFired : Nat
  /-- The reported faults in order. -/
  faults : Array FaultRecord
  report : Report

namespace Search

variable {layout : Layout}

/-- A search that has not begun, if there can be storage for its shards and its
states. -/
def start (setup : Setup layout) : Except Breach (Search layout) := do
  let queue ← WorkQueue.ofShardCount setup.workers
  let _ ← layout.zeroed
  return {
    visited := .empty
    queue
    recycler := .empty layout.bytes
    rulesFired := 0
    faults := #[]
    report := {} }

/-- Whether as many faults were reported as the run has room for. -/
def isExhausted
    (setup : Setup layout)
    (search : Search layout) : Bool :=
  setup.config.maxErrors ≤ search.faults.size

/-- The lines of the trace to a state, if faults of this sort are traced in this run. -/
def traceLines
    (setup : Setup layout)
    (state : State layout.bytes)
    (traceable : Bool) :
    Except RunError (Option (List String)) :=
  let mode := setup.config.counterexampleTrace
  if traceable ∧ mode ≠ .off then
    return some (Step.render mode (← setup.replay.reconstruct state))
  else return none

/-- The lines that show a state, where no trace shows it. -/
def dumpLines
    (state : State layout.bytes)
    (trace : Option (List String)) :
    Except RunError (List String) :=
  match trace with
  | some _ => return []
  | none => layout.stateLines state.block

/-- Report a fault with the state that it concerns, unless the room for faults is used
up. -/
def addFault
    (setup : Setup layout)
    (record : FaultRecord)
    (state : State layout.bytes)
    (traceable : Bool)
    (search : Search layout) : Except RunError (Search layout) :=
  if search.isExhausted setup then return search
  else do
    let trace ← traceLines setup state traceable
    let dump ← dumpLines state trace
    return { search with
      faults := search.faults.push record
      report := search.report.add (.fault record trace dump) }

/-- Report a fault raised in a context. A failed assumption is not reported. -/
def addRaised
    (setup : Setup layout)
    (fault : Fault)
    (context : String)
    (state : State layout.bytes)
    (traceable : Bool)
    (search : Search layout) :
    Except RunError (Search layout) :=
  match FaultRecord.ofFault? fault context with
  | some record => search.addFault setup record state traceable
  | none => return search

/-- Give the block of a candidate back. -/
def discard
    (block : Block layout.bytes)
    (search : Search layout) :
    Except RunError (Search layout) := do
  return { search with recycler := ← search.recycler.free block }

/-- Report progress if the number of discovered states is a multiple of the interval. -/
def noteProgress
    (setup : Setup layout)
    (search : Search layout) : Search layout :=
  if search.visited.size % setup.config.progressInterval = 0 then
    { search with
      report := search.report.add
        (.progress search.visited.size .zero search.rulesFired search.queue.length) }
  else search

/-- Keep a state whose block is new in a shard of the queue, and discard any other. -/
def keep
    (setup : Setup layout)
    (shard : Nat)
    (state : State layout.bytes)
    (search : Search layout) : Except RunError (Search layout) := do
  let block ← setup.canonical state.block
  if search.visited.contains block then search.discard block
  else
    let (_, queue) ← search.queue.push ⟨block, state.ancestors⟩ shard
    return { search with
      visited := search.visited.insert block
      queue := queue }.noteProgress setup

/-- Record what an attempt left. A rejection is reported with the state `blamed`, which
has a trace if it was discovered before. A violating candidate is reported, and kept if
there is room for further faults. -/
def record
    (setup : Setup layout)
    (shard : Nat)
    (context : String)
    (blamed state : State layout.bytes)
    (blamedTraceable : Bool)
    (judgement : Judgement)
    (search : Search layout) : Except RunError (Search layout) := do
  match judgement with
  | .rejected fault =>
    (← search.addRaised setup fault context blamed blamedTraceable).discard state.block
  | .infeasible => search.discard state.block
  | .violated violation =>
    let reported ← search.addFault setup violation state true
    if reported.isExhausted setup then reported.discard state.block
    else reported.keep setup shard state
  | .accepted => search.keep setup shard state

end Search
end StateSpace
