import StateSpace.Search.Basic

/-!
# Seeding and expansion

Seeding attempts every start state and spreads the states that are kept over the shards.
Expansion attempts every rule in one state and reports a deadlock if none was enabled.
Both go through their lists in order and stop once the room for faults is used up. The
block that an attempt works on is handed out by the recycler of the search.
-/

namespace StateSpace
namespace Search

variable {layout : Layout}

/-- Attempt start states in order. The states that are kept go round the shards. -/
def seed
    (setup : Setup layout)
    (search : Search layout) :
    List (StartState layout.bytes) → Except RunError (Search layout)
  | [] => return search
  | start :: rest =>
    if search.isExhausted setup then return search
    else do
      let candidate ←
        setup.model.attemptStartOn setup.policy search.recycler.allocZeroed.1 start
      let state := State.ofBlock candidate.block
      let shard := search.visited.size % search.queue.shardCount
      let allocated := { search with recycler := search.recycler.allocZeroed.2 }
      let recorded ← allocated.record setup shard ("startstate " ++ start.name)
        state state false candidate.judgement
      seed setup recorded rest

/-- Report a deadlock in a state, if deadlocks are looked for. -/
def addDeadlock
    (setup : Setup layout)
    (origin : State layout.bytes)
    (search : Search layout) :
    Except RunError (Search layout) :=
  if setup.config.deadlockDetection then
    search.addFault setup ⟨.deadlock, "deadlock", none⟩ origin true
  else return search

/-- Record the outcome of a rule in a state. -/
def recordRule
    (setup : Setup layout)
    (shard : Nat)
    (origin : State layout.bytes)
    (rule : Rule layout.bytes)
    (outcome : RuleOutcome layout.bytes)
    (search : Search layout) :
    Except RunError (Search layout) :=
  let context := "rule " ++ rule.name
  match outcome with
  | .disabled => return search
  | .guardFault fault => search.addRaised setup fault context origin true
  | .candidate candidate =>
    let allocated := { search with
      recycler := (search.recycler.allocCopy origin.block).2
      rulesFired := search.rulesFired + candidate.completed.toNat }
    allocated.record setup shard context origin (origin.successor candidate.block) true
      candidate.judgement

/-- Whether a rule with this outcome keeps the state from being a deadlock. -/
def isProgress {size : Nat} : RuleOutcome size → Bool
  | .candidate _ => true
  | _ => false

/-- Attempt rules in order in a state that is `stuck` if no rule before them was
enabled. -/
def fireRules
    (setup : Setup layout)
    (shard : Nat)
    (origin : State layout.bytes)
    (stuck : Bool)
    (search : Search layout) : List (Rule layout.bytes) → Except RunError (Search layout)
  | [] => if stuck then search.addDeadlock setup origin else return search
  | rule :: rest => do
    let outcome ← setup.model.attemptRuleOn setup.policy origin.block
      (search.recycler.allocCopy origin.block).1 rule
    let recorded ← search.recordRule setup shard origin rule outcome
    if recorded.isExhausted setup then return recorded
    else fireRules setup shard origin (stuck && !isProgress outcome) recorded rest

/-- Attempt every rule of the model in a state. -/
def expand
    (setup : Setup layout)
    (shard : Nat)
    (origin : State layout.bytes)
    (search : Search layout) : Except RunError (Search layout) :=
  search.fireRules setup shard origin true setup.model.rules

end Search
end StateSpace
