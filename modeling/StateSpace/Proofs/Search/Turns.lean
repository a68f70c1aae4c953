import StateSpace.Proofs.Search.Seeds
import StateSpace.Proofs.Search.Tally
import StateSpace.Proofs.Search.Termination

/-!
# Runs with any answers

A run of one worker goes through the start states, takes a waiting state, goes
through the rules of this state, and takes the next one. Here the callables and
the canonicalizer may answer anything at any time: each turn of the worker has a
model of its own, with which the others share no more than the number of rules.
A turn that fails ends the run.

A run like this is still one of a crew with a single task, whose steps do not
ask what the model was before. So no run goes on for ever, and it takes no block
twice.
-/

namespace StateSpace

variable {layout : Layout}

/-- A setup that may answer differently. -/
structure Setup.Alike (setup other : Setup layout) : Prop where
  config : other.config = setup.config
  rules : other.model.rules.length = setup.model.rules.length

theorem Setup.Alike.refl (setup : Setup layout) : setup.Alike setup :=
  ⟨rfl, rfl⟩

/-- The effort that is left depends on no answer. -/
theorem Setup.Alike.effort
    {setup other : Setup layout}
    (alike : setup.Alike other)
    (crew : Crew layout) :
    crew.effort other = crew.effort setup := by
  have same : other.stateEffort = setup.stateEffort := by
    rw [stateEffort, stateEffort, alike.rules]
  have tasks : Task.effort other = Task.effort setup := by
    funext task
    rw [Task.effort, Task.effort, same]
  rw [Crew.effort, Crew.effort, Board.effort, Board.effort, tasks, same]

namespace Lone

/-- One turn of the only worker of a run, with what answers in this turn.
Nothing depends on the shards to which it pushes and from which it takes, or on
the storage that it goes on with. -/
inductive Turn (setup : Setup layout) :
    Lone layout → List (Event layout.bytes) → Lone layout → Prop
  | work
      {answering : Setup layout}
      (alike : setup.Alike answering)
      {shard : Nat}
      {lone next : Lone layout}
      {events : List (Event layout.bytes)}
      (step : Step answering shard lone events next) :
      Turn setup lone events next
  | take
      {answering : Setup layout}
      (alike : setup.Alike answering)
      (fresh : Recycler layout.bytes)
      {board : Board layout}
      {queue rest : WorkQueue (State layout.bytes)}
      {agenda : Agenda layout}
      {recycler : Recycler layout.bytes}
      {preferred source : Nat}
      {state : State layout.bytes}
      (room : board.isExhausted setup = false)
      (taken : queue.pop? preferred = some (state, source, rest)) :
      Turn setup ⟨board, queue, ⟨agenda, recycler, .ended⟩⟩
        (agenda.closing ++ [.taken state])
        ⟨board, rest, Task.ofState answering state fresh⟩

/-- Any number of turns one after the other, with the history of what was done. -/
abbrev Course (setup : Setup layout) :
    Lone layout → List (Event layout.bytes) → Lone layout → Prop :=
  Execution (Turn setup)

/-- The crew whose only task is this one. -/
def crew (lone : Lone layout) : Crew layout :=
  ⟨lone.board, lone.queue.items, {lone.task}⟩

variable
  {setup : Setup layout}
  {lone next : Lone layout}
  {events : List (Event layout.bytes)}

/-- Steps of a task in which one setup answers are turns. -/
theorem Seeding.course
    {first last : Lone layout}
    {history : List (Event layout.bytes)}
    (seeding : Seeding setup first history last) :
    Course setup first history last := by
  induction seeding with
  | refl => exact .refl
  | step _ step inductionHypothesis =>
      obtain ⟨shard, step⟩ := step
      exact .step inductionHypothesis (.work (.refl setup) step)

/-- A turn is a step of the crew, or it is the end of one task and the beginning
of the next. -/
theorem Turn.crew_steps
    (turn : Turn setup lone events next) :
    ∃ answering, setup.Alike answering ∧
      (Crew.Step answering lone.crew events next.crew ∨
        ∃ ending beginning idle, events = ending ++ beginning ∧
          Crew.Step answering lone.crew ending idle ∧
          Crew.Step answering idle beginning next.crew) := by
  cases turn with
  | @work answering alike shard _ _ _ step =>
    exact ⟨answering, alike, .inl (step.crew 0)⟩
  | @take answering alike fresh board queue rest agenda recycler preferred source
      state _ taken =>
      have ends : Crew.Step answering (crew ⟨board, queue, ⟨agenda, recycler, .ended⟩⟩)
          agenda.closing ⟨board, state ::ₘ rest.items, 0⟩ := by
        rw [crew, (WorkQueue.pop?_items taken).1]
        exact .finish
      exact ⟨answering, alike, .inr ⟨_, _, _, rfl, ends, .take⟩⟩

/-- Every turn costs the crew some of its effort. -/
theorem Turn.effort_lt
    (turn : Turn setup lone events next) :
    next.crew.effort setup < lone.crew.effort setup := by
  obtain ⟨answering, alike, step | ⟨_, _, idle, -, ends, begins⟩⟩ := turn.crew_steps
  · rw [← alike.effort, ← alike.effort]
    exact step.effort_lt
  · rw [← alike.effort, ← alike.effort]
    exact begins.effort_lt.trans ends.effort_lt

/-- No run goes on for ever. -/
theorem turn_wellFounded (setup : Setup layout) :
    WellFounded fun next lone : Lone layout => ∃ events, Turn setup lone events next :=
  Subrelation.wf (fun ⟨_, turn⟩ => turn.effort_lt)
    (InvImage.wf (fun lone : Lone layout => lone.crew.effort setup) Nat.lt_wfRel.wf)

theorem Turn.tallied
    {history : List (Event layout.bytes)}
    (turn : Turn setup lone events next)
    (tallied : lone.crew.Tallied history) :
    next.crew.Tallied (history ++ events) := by
  obtain ⟨_, -, step | ⟨_, _, _, rfl, ends, begins⟩⟩ := turn.crew_steps
  · exact step.tallied tallied
  · rw [← List.append_assoc]
    exact begins.tallied (ends.tallied tallied)

theorem Course.tallied
    {first last : Lone layout}
    {history : List (Event layout.bytes)}
    (course : Course setup first history last)
    (tallied : first.crew.Tallied []) :
    last.crew.Tallied history :=
  course.invariant (fun history lone => lone.crew.Tallied history) Turn.tallied tallied

end Lone

/-- The taken blocks of a tallied crew are different ones, of which there are
only so many. -/
theorem Crew.Tallied.taken_once
    {crew : Crew layout}
    {history : List (Event layout.bytes)}
    (tallied : crew.Tallied history) :
    (takenBlocks history).Nodup ∧
      (takenBlocks history).card ≤ 2 ^ (8 * layout.bytes) := by
  have taken : takenBlocks history ≤ crew.board.visited.blocks.val := by
    rw [tallied.discovered]
    exact Multiset.le_add_left _ _
  refine ⟨Multiset.nodup_of_le taken crew.board.visited.blocks.nodup, ?_⟩
  have fewer := Multiset.card_le_card taken
  rw [Finset.card_val, VisitedSet.card_blocks] at fewer
  exact fewer.trans (VisitedSet.size_le _)

end StateSpace
