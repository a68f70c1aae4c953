import StateSpace.Proofs.Search.Lone

/-!
# Seeding step by step

Seeding is the walk of the first task, which pushes to one shard after the other.
Unlike the walks that a crew repeats, its steps are kept in order here, with what
they leave in the history, so that what is true of each of them is true of a
seeding wherever it stands.
-/

namespace StateSpace

variable {layout : Layout} {setup : Setup layout}

/-- Any number of steps of a lone task, each of which pushes to some shard. -/
abbrev Lone.Seeding (setup : Setup layout) :
    Lone layout → List (Event layout.bytes) → Lone layout → Prop :=
  Execution fun lone events next => ∃ shard, Lone.Step setup shard lone events next

theorem Lone.Walks.seeding
    {shard : Nat}
    {first last : Lone layout}
    (walks : Walks setup shard first last) :
    ∃ history, Seeding setup first history last := by
  obtain ⟨history, run⟩ := walks
  refine ⟨history, ?_⟩
  induction run with
  | refl => exact .refl
  | step _ step inductionHypothesis => exact .step inductionHypothesis ⟨shard, step⟩

/-- A seeding can be repeated in a crew. -/
theorem Lone.Seeding.crew
    {first last : Lone layout}
    {history : List (Event layout.bytes)}
    (seeding : Seeding setup first history last)
    (others : Multiset (Task layout)) :
    Crew.Reaches setup ⟨first.board, first.queue.items, first.task ::ₘ others⟩
      ⟨last.board, last.queue.items, last.task ::ₘ others⟩ := by
  induction seeding with
  | refl => exact .refl _
  | step _ step inductionHypothesis =>
      obtain ⟨shard, step⟩ := step
      exact inductionHypothesis.trans (step.crew others).reaches

namespace Search

/-- A search whose task is about to attempt the first of some start states. -/
def before
    (search : Search layout)
    (starts : List (StartState layout.bytes)) : Lone layout :=
  search.lone ⟨.starts starts, search.recycler, .active .attempt⟩

/-- A search whose seeding is over. -/
def afterSeeding
    (search : Search layout)
    (left : List (StartState layout.bytes)) : Lone layout :=
  search.lone ⟨.starts left, search.recycler, .ended⟩

/-- Seeding is the walk of a task through the start states. -/
theorem seed_seeding
    {starts : List (StartState layout.bytes)}
    {search seeded : Search layout}
    (ok : search.seed setup starts = .ok seeded)
    (room : search.isExhausted setup = false) :
    ∃ history left, Lone.Seeding setup (search.before starts) history
      (seeded.afterSeeding left) := by
  induction starts generalizing search with
  | nil =>
      have moved :
        (Point.attempt).advance setup 0 (.starts []) search.recycler search.board =
        .ok (⟨.starts [], search.recycler, .ended⟩, search.board) := rfl
      cases ok
      exact ⟨_, [], .single ⟨0, .advance moved⟩⟩
  | cons start rest inductionHypothesis =>
      unfold seed at ok
      rw [if_neg (by simp [room])] at ok
      obtain ⟨candidate, attempted, ok⟩ := bind_eq_ok.mp ok
      obtain ⟨recorded, recording, ok⟩ := bind_eq_ok.mp ok
      obtain ⟨earlier, walked⟩ :=
        (recordStart_walks (liftBreach_eq_ok.mp attempted) recording room rest).seeding
      cases more : recorded.isExhausted setup with
      | true =>
          cases (seed_of_exhausted more).symm.trans ok
          rw [proceed, if_pos more] at walked
          exact ⟨earlier, rest, walked⟩
      | false =>
          rw [proceed_of_room more] at walked
          obtain ⟨later, left, further⟩ := inductionHypothesis ok more
          exact ⟨earlier ++ later, left, walked.trans further⟩

/-- Seeding is what the first task of a crew does. -/
theorem seed_reaches
    {starts : List (StartState layout.bytes)}
    {search seeded : Search layout}
    (ok : search.seed setup starts = .ok seeded)
    (room : search.isExhausted setup = false) :
    Crew.Reaches setup
      (search.crew {⟨.starts starts, search.recycler, .active .attempt⟩})
      (seeded.crew 0) := by
  obtain ⟨history, left, seeding⟩ := seed_seeding ok room
  exact (seeding.crew 0).trans (ended_reaches _ _ _)

end Search
end StateSpace
