import StateSpace.Result
import StateSpace.Search.Measure

/-!
# Runs

A run seeds a search with the start states and expands the waiting states until none is
left or the room for faults is used up. One worker takes the states in the order in
which the shards of the queue yield them, and pushes what it discovers to its own shard.
Its measure is `Search.workLeft`.

A run is a function, so it measures no time: what it reports as elapsed is zero.
-/

namespace StateSpace

variable {layout : Layout}

namespace Search

/-- Expand waiting states. The worker `shard` takes them from the shard `preferred`
on. -/
def explore
    (setup : Setup layout)
    (shard preferred : Nat)
    (search : Search layout) :
    Except RunError (Search layout) :=
  if search.isExhausted setup then return search
  else
    match taken : search.queue.pop? preferred with
    | none => return search
    | some (state, source, rest) =>
      match expanded : { search with queue := rest }.expand setup shard state with
      | .error error => throw error
      | .ok next =>
        have : next.workLeft < search.workLeft := by
          have shorter := WorkQueue.length_pop? taken
          rw [workLeft_expand expanded]
          simp only [workLeft]
          omega
        explore setup shard source next
termination_by search.workLeft

/-- The totals of a search. -/
def result (search : Search layout) : CheckResult where
  states := search.visited.size
  rulesFired := search.rulesFired
  errors := search.faults.size
  faults := search.faults.toList
  elapsed := .zero

end Search

namespace Setup

/-- Seed a search and let the first worker finish it, with storage of its own. -/
def search (setup : Setup layout) : Except RunError (Search layout) := do
  let start ← Search.start setup
  let seeded ← start.seed setup setup.model.startStates
  Search.explore setup 0 0 { seeded with recycler := .empty layout.bytes }

/-- Check a model: the result, and the report that ends with its summary. -/
def run
    (setup : Setup layout)
    (sink : Sink) : Except RunError (CheckResult × Report) := do
  match setup.config.defect? with
  | some defect => throw (.check (.config defect))
  | none =>
    let search ← setup.search
    let result := search.result
    let report := search.report.add
      (.summary ⟨result.states, result.rulesFired, result.errors, result.elapsed⟩)
    report.flush sink
    return (result, report)

end Setup
end StateSpace
