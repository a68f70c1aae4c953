import StateSpace.Proofs.Workers.Ends

/-!
# No worker fails

If no callable breaks a precondition then a run can explain every state that it
reports with a trace: raw candidates that violate an invariant, and stored
states in which a rule faults or no rule is enabled. So no worker fails, no run
is aborted, and a run never comes to doubt its own states. The canonicalizer
has to answer, but it need not leave canonical blocks alone.
-/

namespace StateSpace

section

variable {layout : Layout} {setup : Setup layout}

/-- The state that a task is about to explain by a trace. -/
def Task.explains? (task : Task layout) : Option (State layout.bytes) :=
  match task.stage with
  | .active (.print _ state true _) => some state
  | _ => none

/-- Replay explains a state. -/
def Setup.Replays
    (setup : Setup layout)
    (state : State layout.bytes) : Prop :=
  ∃ steps, setup.replay.reconstruct state = .ok steps

/-- What a grounded task is about to explain can be explained. -/
theorem Task.Grounded.replays
    (sound : setup.model.NeverBreaches)
    (built : layout.Built)
    {task : Task layout}
    (grounded : task.Grounded setup)
    {state : State layout.bytes}
    (explains : task.explains? = some state) :
    setup.Replays state := by
  obtain ⟨agenda, recycler, stage⟩ := task
  unfold explains? at explains
  split at explains
  · rename_i record shown sequel printing
    cases explains
    have held := grounded.stage
    simp only at printing
    rw [printing] at held
    exact Replay.reconstruct_ok sound (Setup.replay_canonicalizes sound) built
      (held.1 rfl)
  · cases explains

/-! ## Pools without failures -/

theorem Worker.unfailed_ite
    {recycler : Recycler layout.bytes}
    {preferred : Nat}
    {condition : Prop}
    [Decidable condition]
    {left right : Place layout}
    (leftUnfailed : ¬(⟨recycler, preferred, left⟩ : Worker layout).HasFailed)
    (rightUnfailed : ¬(⟨recycler, preferred, right⟩ : Worker layout).HasFailed) :
    ¬(⟨recycler, preferred, if condition then left else right⟩ :
      Worker layout).HasFailed := by
  split <;> assumption

/-- A worker that has a grounded task does not fail. -/
theorem Move.unfailed
    (sound : setup.model.NeverBreaches)
    (built : layout.Built)
    {shared changed : Shared layout}
    {worker next : Worker layout}
    {number : Nat}
    {events : List (Event layout.bytes)}
    (move : Move setup number shared worker events changed next)
    (unfailed : ¬worker.HasFailed)
    (discovered : shared.board.Grounded setup)
    (tasks : ∀ task ∈ worker.tasks, task.Grounded setup) :
    ¬next.HasFailed := by
  cases move with
  | fail queued failed =>
      have before := tasks _ (Multiset.mem_singleton_self _)
      obtain ⟨task, advanced, moved, -⟩ :=
        Point.Grounded.advance sound built queued before.stage before.agenda discovered
      rw [moved] at failed
      cases failed
  | unwind queued failed =>
      have before := tasks _ (Multiset.mem_singleton_self _)
      obtain ⟨task, advanced, moved, -⟩ :=
        Point.Grounded.advance sound built queued before.stage before.agenda discovered
      rw [moved] at failed
      cases failed
  | finish => exact Worker.unfailed_ite id id
  | peek => exact Worker.unfailed_ite id id
  | compare => exact Worker.unfailed_ite id id
  | abort => exact absurd trivial unfailed
  | alarm => exact absurd trivial unfailed
  | leave => exact unfailed
  | stop => rintro (failed | unwound) <;> contradiction
  | halt => rintro (failed | unwound) <;> contradiction
  | drain => rintro (failed | unwound) <;> contradiction
  | _ => exact id

namespace Pool

variable {size : Nat}

/-- No worker has failed, and the crew holds what it should. -/
structure Grounded
    (setup : Setup layout)
    (pool : Pool layout size) : Prop where
  unfailed : ∀ number, ¬(pool.workers number).HasFailed
  crew : pool.crew.Grounded setup

theorem Grounded.tasks
    {pool : Pool layout size}
    (grounded : pool.Grounded setup)
    (number : Fin size)
    {task : Task layout}
    (member : task ∈ (pool.workers number).tasks) :
    task.Grounded setup :=
  grounded.crew.tasks task
    (Multiset.mem_sum.mpr ⟨number, Finset.mem_univ number, member⟩)

theorem Step.grounded
    (sound : setup.model.NeverBreaches)
    (built : layout.Built)
    {pool next : Pool layout size}
    {events : List (Event layout.bytes)}
    (step : Step setup pool events next)
    (grounded : pool.Grounded setup) :
    next.Grounded setup := by
  have unfailed : ∀ number, ¬(next.workers number).HasFailed := by
    intro other
    cases step with
    | @move number _ _ _ moved =>
        by_cases same : other = number
        · subst same
          simp only [Function.update_self]
          exact moved.unfailed sound built (grounded.unfailed other) grounded.crew.board
            fun _ => grounded.tasks other
        · simp only [Function.update_of_ne same]
          exact grounded.unfailed other
  refine ⟨unfailed, ?_⟩
  rcases step.crew_step unfailed with ⟨-, same⟩ | crewStep
  · rw [same]
    exact grounded.crew
  · exact crewStep.grounded sound built grounded.crew

theorem Run.grounded
    (sound : setup.model.NeverBreaches)
    (built : layout.Built)
    {first last : Pool layout size}
    {history : List (Event layout.bytes)}
    (run : Run setup first history last)
    (grounded : first.Grounded setup) :
    last.Grounded setup :=
  run.invariant (fun _ pool => pool.Grounded setup) (Step.grounded sound built) grounded

/-- The pool of a run begins grounded, also where there is no room for faults. -/
theorem Seeded.start_grounded
    (sound : setup.model.NeverBreaches)
    (built : layout.Built)
    {search : Search layout}
    (seeding : Seeded setup search) :
    (start setup search).Grounded setup where
  unfailed := fun _ => Worker.unfailed_ite id id
  crew := by
    rw [start_crew]
    by_cases positive : 0 < setup.config.maxErrors
    · obtain ⟨history, run⟩ := seeding.reaches positive
      exact run.grounded sound built (Crew.start_grounded setup _)
    · have none : setup.config.maxErrors = 0 := by omega
      obtain ⟨-, crew, -⟩ := Search.start_crew (seeding.start_eq_ok none)
      rw [crew]
      exact ⟨(Crew.start_grounded setup (.empty _)).board, by simp, by simp⟩

end Pool

/-! ## Runs without internal errors -/

namespace Setup

/-- Seeding succeeds, whatever room for faults there is. -/
theorem seed_ok
    (sound : setup.model.NeverBreaches)
    (built : layout.Built)
    (search : Search layout) :
    ∃ seeded, search.seed setup setup.model.startStates = .ok seeded := by
  have everyStart : (Agenda.starts setup.model.startStates).Grounded setup :=
    fun start declared => declared
  exact Search.seed_ok sound built search everyStart

/-- A search fails only for lack of storage. -/
theorem search_ok_of_start
    (sound : setup.model.NeverBreaches)
    (built : layout.Built)
    {start : Search layout}
    (started : Search.start setup = .ok start) :
    ∃ search, setup.search = .ok search := by
  obtain ⟨seeded, seeds⟩ := seed_ok sound built start
  have grounded := (Pool.Seeded.start_grounded sound built ⟨start, started, seeds⟩).crew
  rw [Pool.start_crew] at grounded
  let ready : Search layout := { seeded with recycler := .empty layout.bytes }
  have present : 0 < ready.queue.shardCount := ready.queue.nonempty
  obtain ⟨search, explored, -⟩ := Search.explore_reaches sound built present 0 grounded
  refine ⟨search, ?_⟩
  simp only [Setup.search, started, liftBreach_ok, bind, Except.bind, seeds]
  exact explored

/-- Whatever the mode of traces, the room for faults, the number of workers and
the order of their steps, every state that a fault is reported with a trace of
can be explained: while seeding goes on, and while the workers of a pool expand
states. No worker fails, and no run ends with an internal error. -/
theorem never_internal
    (sound : setup.model.NeverBreaches)
    (built : layout.Built) :
    (∀ sink reason, setup.run sink ≠ .error (.check (.internal reason))) ∧
      (∀ start, Search.start setup = .ok start →
        ∃ seeded, start.seed setup setup.model.startStates = .ok seeded) ∧
      (∀ recycler history crew, Crew.Run setup (.start setup recycler) history crew →
        ∀ task ∈ crew.tasks, ∀ state, task.explains? = some state →
          setup.Replays state) ∧
      ∀ seeded, Pool.Seeded setup seeded →
        ∀ history last, Pool.Run setup (Pool.start setup seeded) history last →
          last.shared.aborted = false ∧
            ∀ number, ¬(last.workers number).HasFailed ∧
              ∀ task ∈ (last.workers number).tasks, ∀ state,
                task.explains? = some state → setup.Replays state := by
  refine ⟨fun sink reason failed => ?_, fun start _ => seed_ok sound built start, ?_, ?_⟩
  · unfold run at failed
    split at failed
    · cases failed
    · cases started : Search.start setup with
      | error breach =>
          simp only [Setup.search, started] at failed
          cases failed
      | ok start =>
          obtain ⟨search, searched⟩ := search_ok_of_start sound built started
          simp only [searched, bind, Except.bind, Report.flush] at failed
          split at failed
          · rename_i flushed
            split at flushed
            · cases flushed
              cases failed
            · split at flushed
              · cases flushed
                cases failed
              · cases flushed
          · cases failed
  · intro recycler history crew run task member state explains
    have grounded := run.grounded sound built (Crew.start_grounded setup recycler)
    exact (grounded.tasks task member).replays sound built explains
  · intro seeded seeding history last run
    have grounded := run.grounded sound built (seeding.start_grounded sound built)
    refine ⟨Bool.eq_false_iff.mpr fun aborted => ?_,
      fun number => ⟨grounded.unfailed number, ?_⟩⟩
    · obtain ⟨number, failed⟩ := run.aborter rfl aborted
      exact grounded.unfailed number failed
    · intro task member state explains
      exact (grounded.tasks number member).replays sound built explains

end Setup

end

/-! ## A lamp that must stay dark -/

namespace Lamp

theorem dark_ne_nil : [(⟨"dark", fun _ => pure ()⟩ : StartState layout.bytes)] ≠ [] := by
  simp

/-- A lamp that starts dark, can be lit and must not be. -/
def forbidden : Setup layout :=
  { model :=
      { model with
        startStates := [⟨"dark", fun _ => pure ()⟩]
        invariants := [⟨"dark", fun _ block => .ok (block = .zero layout.bytes)⟩]
        startStates_ne_nil := dark_ne_nil }
    config := {} }

theorem forbidden_neverBreaches : forbidden.model.NeverBreaches where
  starts := by
    intro start member policy block breach
    cases List.mem_singleton.mp member
    nofun
  guards := model_neverBreaches.guards
  bodies := model_neverBreaches.bodies
  invariants := by
    intro invariant member policy block breach
    cases List.mem_singleton.mp member
    nofun
  assumptions := nofun
  canonicalizer := nofun

/-- The state of the lit lamp. -/
def lit : State layout.bytes :=
  ⟨⟨1⟩, [.zero layout.bytes]⟩

/-- What seeding leaves of a lamp that starts dark. -/
def darkSeeded : Search layout where
  visited := .insert .empty (.zero layout.bytes)
  queue := ⟨#[⟨[], [.ofBlock (.zero layout.bytes)]⟩], by decide⟩
  recycler := ⟨none, 1, 0⟩
  rulesFired := 0
  faults := #[]
  report := {}

theorem forbidden_seeded : Pool.Seeded forbidden darkSeeded :=
  .of_zero (by decide) (by decide) rfl rfl rfl rfl rfl

/-- The only worker lights the lamp and comes to the point where it explains the
lit one, which can be done. -/
theorem never_internal_forbidden :
    ∃ history, ∃ last : Pool layout forbidden.workers,
      Pool.Run forbidden (Pool.start forbidden darkSeeded) history last ∧
        (∃ number, ∃ task ∈ (last.workers number).tasks, task.explains? = some lit) ∧
        forbidden.Replays lit := by
  let only : Fin forbidden.workers := ⟨0, by decide⟩
  have began : Pool.Run forbidden (Pool.start forbidden darkSeeded) [] _ := .refl
  have checked := began.step (.move only (.check rfl))
  have scanned := checked.step (.move only (.scan rfl))
  have taken := scanned.step (.move only (.take rfl))
  have attempted := taken.step (.move only (.advance 0 rfl))
  have counted := attempted.step (.move only (.advance 0 rfl))
  have raised := counted.step (.move only (.advance 0 rfl))
  obtain ⟨-, -, -, pools⟩ := Setup.never_internal forbidden_neverBreaches layout_built
  obtain ⟨-, replays⟩ := pools _ forbidden_seeded _ _ raised
  exact ⟨_, _, raised, ⟨only, _, Multiset.mem_singleton_self _, rfl⟩,
    (replays only).2 _ (Multiset.mem_singleton_self _) lit rfl⟩

end Lamp
end StateSpace
