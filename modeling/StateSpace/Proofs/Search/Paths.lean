import StateSpace.Proofs.Search.Attempts

/-!
# Lengths of paths

A path begins with the stored form of what a start state leaves and goes on by
rules from one stored block to the next. Its length is the number of rules. A
stored block can have paths of many lengths, the least of which a breadth-first
search has to find.
-/

namespace StateSpace

variable {layout : Layout} {setup : Setup layout}

namespace Setup

/-- There is a path of so many rules from a start state to a stored block. -/
inductive Path (setup : Setup layout) : Nat → Block layout.bytes → Prop
  | start
      {start : StartState layout.bytes}
      {block stored : Block layout.bytes}
      (declared : start ∈ setup.model.startStates)
      (begins : setup.model.Begins setup.policy start block)
      (canonical : setup.canonical block = .ok stored) :
      Path setup 0 stored
  | rule
      {length : Nat}
      {origin block stored : Block layout.bytes}
      {rule : Rule layout.bytes}
      (path : Path setup length origin)
      (declared : rule ∈ setup.model.rules)
      (leads : setup.model.Leads setup.policy origin rule block)
      (canonical : setup.canonical block = .ok stored) :
      Path setup (length + 1) stored

/-- The ancestors of a state are as many as the rules of a shortest path to its
block. -/
def IsShortest
    (setup : Setup layout)
    (state : State layout.bytes) : Prop :=
  IsLeast (fun length => setup.Path length state.block) state.ancestors.length

/-- Everything that a block leads to in one rule is among the given blocks. -/
def Settled
    (setup : Setup layout)
    (visited : VisitedSet (Block layout.bytes))
    (origin : Block layout.bytes) : Prop :=
  ∀ rule ∈ setup.model.rules, ∀ block stored,
    setup.model.Leads setup.policy origin rule block →
    setup.canonical block = .ok stored → visited.contains stored = true

theorem Settled.mono
    {visited larger : VisitedSet (Block layout.bytes)}
    {origin : Block layout.bytes}
    (settled : setup.Settled visited origin)
    (grows : ∀ block, visited.contains block = true → larger.contains block = true) :
    setup.Settled larger origin :=
  fun rule declared block stored leads canonical =>
    grows stored (settled rule declared block stored leads canonical)

end Setup

/-! ## Traces -/

namespace Replay

variable {replay : Replay layout}

theorem ruleSteps_length
    {origin : Block layout.bytes}
    {path : List (Block layout.bytes)}
    {steps : List Step}
    (replayed : replay.ruleSteps origin path = .ok steps) :
    steps.length = path.length := by
  induction path generalizing origin steps with
  | nil =>
      cases replayed
      rfl
  | cons recorded rest inductionHypothesis =>
      obtain ⟨step, -, replayed⟩ := bind_eq_ok.mp replayed
      obtain ⟨others, further, returned⟩ := bind_eq_ok.mp replayed
      cases returned
      rw [List.length_cons, inductionHypothesis further, List.length_cons]

/-- A trace has one step for each state on the path. -/
theorem reconstruct_length
    {state : State layout.bytes}
    {steps : List Step}
    (replayed : replay.reconstruct state = .ok steps) :
    steps.length = state.depth := by
  have length : state.path.length = state.depth := by simp [State.path, State.depth]
  rw [← length]
  unfold reconstruct at replayed
  split at replayed
  · rename_i path
    cases replayed
    rw [path]
    rfl
  · rename_i first rest path
    obtain ⟨step, -, replayed⟩ := bind_eq_ok.mp replayed
    obtain ⟨others, further, returned⟩ := bind_eq_ok.mp replayed
    cases returned
    rw [path, List.length_cons, ruleSteps_length further, List.length_cons]

end Replay

end StateSpace
