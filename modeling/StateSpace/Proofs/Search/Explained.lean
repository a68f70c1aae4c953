import StateSpace.Proofs.Symmetry.Quotient

/-!
# Which states can be explained

A replay explains a recorded state exactly if the state has a path: a start state
yields its first block, and rules link every block to the next. The steps then
show the blocks of the path in order, each under the label of the first start
state or rule that leads there. Otherwise the replay says which of both is
missing.
-/

namespace StateSpace

namespace Replay

variable {layout : Layout}

theorem exists_path (target : State layout.bytes) :
    ∃ first rest, target.path = first :: rest ∧ target.depth = rest.length + 1 := by
  have length : target.path.length = target.depth := by simp [State.path, State.depth]
  cases path : target.path with
  | nil => simp [State.path] at path
  | cons first rest => exact ⟨first, rest, rfl, by rw [← length, path]; rfl⟩

/-- A state is explained exactly if some start state yields the first block of
its path and some rule leads from every block to the next. There is one step for
each block of the path. It shows the leaves of the block, and names the first
start state or rule in the order of declaration that yields it. If no start
state yields the first block then that is the error, and else it is that two
blocks are not linked. No canonicalizer or any one will do, as long as nothing
that is run breaks a precondition. -/
theorem reconstruct_exact
    (replay : Replay layout)
    (target : State layout.bytes) :
    ∃ first rest, target.path = first :: rest ∧ target.depth = rest.length + 1 ∧
      (∀ steps, replay.reconstruct target = .ok steps →
        replay.Starts first ∧ List.IsChain replay.Links (first :: rest) ∧
        steps.length = target.depth ∧
        ∃ start others, steps = start :: others ∧ replay.ExplainsStart first start ∧
          replay.ExplainsLinks first rest others) ∧
      (∀ error, replay.reconstruct target = .error (.check error) →
        error = noStart ∧ ¬replay.Starts first ∨
        error = noLink ∧ replay.Starts first ∧
          ¬List.IsChain replay.Links (first :: rest)) ∧
      (replay.model.NeverBreaches → replay.Canonicalizes → layout.Built →
        ((∃ steps, replay.reconstruct target = .ok steps) ↔
          replay.Starts first ∧ List.IsChain replay.Links (first :: rest)) ∧
        (replay.reconstruct target = .error (.check noStart) ↔ ¬replay.Starts first) ∧
        (replay.reconstruct target = .error (.check noLink) ↔
          replay.Starts first ∧ ¬List.IsChain replay.Links (first :: rest))) := by
  obtain ⟨first, rest, path, depth⟩ := exists_path target
  have comes := replay.reconstruct_comesTo path
  refine ⟨first, rest, path, depth, ?_, ?_, ?_⟩
  · intro steps ok
    rw [ok] at comes
    obtain ⟨⟨starts, chain⟩, start, others, rfl, explains, explained⟩ := comes
    exact ⟨starts, chain, by simp [explained.length, depth], start, others,
      rfl, explains, explained⟩
  · intro error stopped
    rw [stopped] at comes
    exact comes
  · intro callables canonicalizes built
    have distinct : noStart ≠ noLink := by decide
    match outcome : replay.reconstruct target with
    | .ok steps =>
      rw [outcome] at comes
      obtain ⟨⟨starts, chain⟩, -⟩ := comes
      simp [starts, chain]
    | .error (.check error) =>
      rw [outcome] at comes
      rcases comes with ⟨rfl, missing⟩ | ⟨rfl, starts, broken⟩
      · simp [missing, distinct]
      · simp [starts, broken, distinct.symm]
    | .error (.breach breach) =>
      rw [outcome] at comes
      exact absurd ⟨callables, canonicalizes, built⟩ comes

end Replay

namespace Switches

/-- Replay with the left switch standing for both. -/
def replay : Replay layout :=
  ⟨model, .trap, some fun block => .ok (choose block)⟩

theorem replay_canonicalizes : replay.Canonicalizes := by
  rintro _ ⟨rfl⟩ block
  exact ⟨choose block, rfl⟩

theorem starts_off : replay.Starts (.zero layout.bytes) :=
  ⟨⟨"off", fun _ => pure ()⟩, List.mem_cons_self .., .zero layout.bytes, rfl, .inl rfl⟩

/-- The right switch is recorded as it was turned on, which the rule for the left
switch does not do. -/
theorem leadsOn_right
    {rule : Rule layout.bytes}
    (declared : rule ∈ model.rules)
    (leadsOn : replay.LeadsOn (.zero layout.bytes) right rule) :
    rule.name = "right" := by
  simp only [model, List.mem_cons, List.not_mem_nil, or_false] at declared
  rcases declared with rfl | rfl
  · obtain ⟨_, -, ⟨⟩, equal | ⟨_, ⟨rfl⟩, canonical⟩⟩ := leadsOn
    · exact absurd equal (by decide)
    · exact absurd (Except.ok.inj canonical) (by decide)
  · rfl

/-- That the right switch is on is explained by the rule that turns it on. No rule
leaves both switches off. -/
theorem reconstruct_exact_switches :
    (∃ start step, replay.reconstruct ⟨right, [.zero layout.bytes]⟩ = .ok [start, step] ∧
      start.label = "Startstate off" ∧ step.label = "Rule right") ∧
    replay.reconstruct ⟨.zero layout.bytes, [.zero layout.bytes]⟩ =
      .error (.check Replay.noLink) := by
  constructor
  · obtain ⟨first, rest, path, -, explains, -, exact⟩ :=
      replay.reconstruct_exact ⟨right, [.zero layout.bytes]⟩
    cases path
    obtain ⟨ok_iff, -, -⟩ := exact neverBreaches replay_canonicalizes layout_built
    have links : replay.Links (.zero layout.bytes) right :=
      ⟨turnOn "right" right, by simp [replay, model], right, rfl, rfl, .inl rfl⟩
    obtain ⟨steps, ok⟩ := ok_iff.mpr ⟨starts_off, by simpa using links⟩
    obtain ⟨-, -, -, start, others, rfl, ⟨-, opening, ⟨_, _, split, yields, -⟩, opened⟩,
      length, each⟩ := explains steps ok
    obtain ⟨step, rfl⟩ := List.length_eq_one_iff.mp length
    obtain ⟨-, rule, ⟨_, _, ruleSplit, leadsOn, -⟩, named⟩ := each 0 _ _ step rfl rfl rfl
    refine ⟨start, step, ok, ?_, ?_⟩
    · have declared : opening ∈ model.startStates := by
        rw [show model.startStates = _ from split]
        simp
      simp only [model, List.mem_cons, List.not_mem_nil, or_false] at declared
      rcases declared with rfl | rfl
      · exact opened
      · obtain ⟨_, ⟨⟩, -⟩ := yields
    · have declared : rule ∈ model.rules := by
        rw [show model.rules = _ from ruleSplit]
        simp
      rw [named, leadsOn_right declared leadsOn]
      rfl
  · obtain ⟨first, rest, path, -, -, -, exact⟩ :=
      replay.reconstruct_exact ⟨.zero layout.bytes, [.zero layout.bytes]⟩
    cases path
    obtain ⟨-, -, noLink_iff⟩ := exact neverBreaches replay_canonicalizes layout_built
    refine noLink_iff.mpr ⟨starts_off, fun chain => ?_⟩
    obtain ⟨rule, declared, left, -, ran, equal | ⟨_, ⟨rfl⟩, canonical⟩⟩ :=
      (List.isChain_cons_cons.mp chain).1
    all_goals
      simp only [replay, model, List.mem_cons, List.not_mem_nil, or_false] at declared
      rcases declared with rfl | rfl
      all_goals cases ran
    · exact absurd equal (by decide)
    · exact absurd equal (by decide)
    · exact absurd (Except.ok.inj canonical) (by decide)
    · exact absurd (Except.ok.inj canonical) (by decide)

end Switches

end StateSpace
