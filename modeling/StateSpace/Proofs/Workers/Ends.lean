import StateSpace.Proofs.Search.Seeds
import StateSpace.Proofs.Workers.Drained

/-!
# How runs end

A run ends when seeding leaves no room for faults, or else when every worker
of its pool has returned without a failure. The search of a setup is such a
run: the first worker does all the work, and the others find nothing to do
when it opens the gate for them. Whatever the workers do, their crew has taken
every waiting state when the run ends, unless the room for faults is used up.
-/

namespace StateSpace

variable {layout : Layout} {setup : Setup layout}

/-! ## Moves of one worker -/

/-- Moves of one worker while the others stay where they are. -/
abbrev Spell
    (setup : Setup layout)
    (number : Nat) :
    Shared layout × Worker layout → List (Event layout.bytes) →
      Shared layout × Worker layout → Prop :=
  Execution fun first events last =>
    Move setup number first.1 first.2 events last.1 last.2

/-- Some moves of a worker lead from one situation to another. -/
def Goes
    (setup : Setup layout)
    (number : Nat)
    (first last : Shared layout × Worker layout) : Prop :=
  ∃ history, Spell setup number first history last

theorem Goes.refl
    {number : Nat}
    (situation : Shared layout × Worker layout) :
    Goes setup number situation situation :=
  ⟨[], .refl⟩

theorem Goes.trans
    {number : Nat}
    {first middle last : Shared layout × Worker layout}
    (before : Goes setup number first middle)
    (after : Goes setup number middle last) :
    Goes setup number first last := by
  obtain ⟨earlier, spell⟩ := before
  obtain ⟨later, further⟩ := after
  exact ⟨earlier ++ later, spell.trans further⟩

theorem Move.goes
    {number : Nat}
    {shared changed : Shared layout}
    {worker next : Worker layout}
    {events : List (Event layout.bytes)}
    (move : Move setup number shared worker events changed next) :
    Goes setup number (shared, worker) (changed, next) :=
  ⟨events, .step .refl move⟩

/-- A worker of a pool can make its moves in one go. -/
theorem Spell.run
    {size : Nat}
    (pool : Pool layout size)
    (number : Fin size)
    {last : Shared layout × Worker layout}
    {history : List (Event layout.bytes)}
    (spell : Spell setup number (pool.shared, pool.workers number) history last) :
    Pool.Run setup pool history
      ⟨last.1, Function.update pool.workers number last.2⟩ := by
  generalize start : (pool.shared, pool.workers number) = first at spell
  induction spell with
  | refl =>
      rw [← start, Function.update_eq_self]
      exact .refl
  | @step middle last _ events _ move inductionHypothesis =>
      let reached : Pool layout size :=
        ⟨middle.1, Function.update pool.workers number middle.2⟩
      have moved : Move setup number reached.shared (reached.workers number) events
          last.1 last.2 := by
        simp only [reached, Function.update_self]
        exact move
      have step := Pool.Step.move number moved
      simp only [reached, Function.update_idem] at step
      exact inductionHypothesis.step step

/-- A worker can repeat the walk of a task. -/
theorem Lone.Walks.goes
    {number : Nat}
    {first last : Lone layout}
    (walks : Walks setup number first last)
    (gateOpen aborted : Bool)
    (recycler : Recycler layout.bytes)
    (preferred : Nat) :
    Goes setup number
      (⟨first.board, first.queue, gateOpen, aborted⟩,
        ⟨recycler, preferred, .expanding first.task⟩)
      (⟨last.board, last.queue, gateOpen, aborted⟩,
        ⟨recycler, preferred, .expanding last.task⟩) := by
  obtain ⟨history, execution⟩ := walks
  induction execution with
  | refl => exact .refl _
  | step _ step inductionHypothesis =>
      refine inductionHypothesis.trans ?_
      cases step with
      | @advance _ _ _ _ _ _ _ queued moved => exact (Move.advance queued moved).goes
      | push ok => exact (Move.push ok).goes

/-! ## Scans of a single worker -/

section

variable
  {number preferred first : Nat}
  {recycler : Recycler layout.bytes}
  {shared : Shared layout}

theorem Goes.misses
    {visits : Nat}
    (inside : visits < shared.queue.shardCount)
    (missed : ∀ step < visits,
      shared.queue.visit (shared.queue.scanned first step) = none) :
    Goes setup number (shared, ⟨recycler, preferred, .scanning first 0⟩)
      (shared, ⟨recycler, preferred, .scanning first visits⟩) := by
  induction visits with
  | zero => exact .refl _
  | succ visits inductionHypothesis =>
      have earlier :=
        inductionHypothesis (by omega) fun step before => missed step (by omega)
      exact earlier.trans (Move.miss (missed visits (by omega)) inside).goes

/-- A worker that finds neither room for faults nor a waiting state leaves. -/
theorem Goes.departs
    (number preferred : Nat)
    (recycler : Recycler layout.bytes)
    (shared : Shared layout)
    (unaborted : shared.aborted = false)
    (idle : shared.board.isExhausted setup = true ∨ shared.queue.items = 0) :
    ∃ exit, (exit = .drained ∨ exit = .stopped) ∧
      Goes setup number (shared, ⟨recycler, preferred, .arriving⟩)
        (shared, ⟨recycler, preferred, .leaving exit⟩) := by
  cases room : shared.board.isExhausted setup with
  | true => exact ⟨.stopped, .inr rfl, (Move.stop room).goes⟩
  | false =>
      have missed := WorkQueue.visit_of_empty (idle.resolve_left (by simp [room]))
      have positive : 0 < shared.queue.shardCount := shared.queue.nonempty
      have scanned : Goes setup number (shared, ⟨recycler, preferred, .arriving⟩)
          (shared, ⟨recycler, preferred, .scanning preferred 0⟩) :=
        (Move.check room).goes.trans (Move.scan unaborted).goes
      have emptied :
        Goes setup number (shared, ⟨recycler, preferred, .scanning preferred 0⟩)
          (shared, ⟨recycler, preferred,
            .scanning preferred (shared.queue.shardCount - 1)⟩) :=
        Goes.misses (by omega) fun step _ => missed _
      exact ⟨.drained, .inl rfl,
        scanned.trans (emptied.trans (Move.drain (missed _) (by omega)).goes)⟩

/-- A worker that has room for faults takes the state that a pop yields. -/
theorem Goes.takes
    (shared : Shared layout)
    (unaborted : shared.aborted = false)
    (room : shared.board.isExhausted setup = false)
    {state : State layout.bytes}
    {source : Nat}
    {rest : WorkQueue (State layout.bytes)}
    (popped : shared.queue.pop? preferred = some (state, source, rest)) :
    Goes setup number (shared, ⟨recycler, preferred, .arriving⟩)
      ({ shared with queue := rest },
        ⟨recycler, source, .expanding (Task.ofState setup state recycler)⟩) := by
  obtain ⟨visits, inside, rfl, taken, missed⟩ := WorkQueue.exists_visit_of_pop? popped
  exact (Move.check room).goes.trans
    ((Move.scan unaborted).goes.trans
      ((Goes.misses inside missed).trans (Move.take taken).goes))

/-- After an expansion the first worker looks at the gate, which may open it,
and begins again. -/
theorem Goes.peeks
    (setup : Setup layout)
    (preferred : Nat)
    (recycler : Recycler layout.bytes)
    (shared : Shared layout) :
    ∃ opened, Goes setup 0 (shared, ⟨recycler, preferred, .peeking⟩)
      ({ shared with gateOpen := opened }, ⟨recycler, preferred, .arriving⟩) := by
  have peeked : Goes setup 0 (shared, ⟨recycler, preferred, .peeking⟩)
      (shared, ⟨recycler, preferred,
        if 1 < setup.workers ∧ shared.gateOpen = false then .measuring 0 0
        else .arriving⟩) := Move.peek.goes
  by_cases wanted : 1 < setup.workers ∧ shared.gateOpen = false
  · rw [if_pos wanted] at peeked
    have measured : ∀ shards ≤ shared.queue.shardCount, ∃ queued,
        Goes setup 0 (shared, ⟨recycler, preferred, .measuring 0 0⟩)
          (shared, ⟨recycler, preferred, .measuring shards queued⟩) := by
      intro shards inside
      induction shards with
      | zero => exact ⟨0, .refl _⟩
      | succ shards inductionHypothesis =>
          obtain ⟨queued, measured⟩ := inductionHypothesis (by omega)
          exact ⟨_, measured.trans (Move.measure inside).goes⟩
    obtain ⟨queued, measured⟩ := measured _ le_rfl
    have compared : Goes setup 0
        (shared, ⟨recycler, preferred, .measuring shared.queue.shardCount queued⟩)
        (shared, ⟨recycler, preferred,
          if setup.config.warmupThreshold < queued then .releasing else .arriving⟩) :=
      (Move.compare le_rfl).goes
    by_cases many : setup.config.warmupThreshold < queued
    · rw [if_pos many] at compared
      exact ⟨true, peeked.trans (measured.trans (compared.trans Move.release.goes))⟩
    · rw [if_neg many] at compared
      exact ⟨shared.gateOpen, peeked.trans (measured.trans compared)⟩
  · rw [if_neg wanted] at peeked
    exact ⟨shared.gateOpen, peeked⟩

end

/-- What the first worker shares while it explores a search. -/
def Search.shared
    (search : Search layout)
    (gateOpen : Bool) : Shared layout :=
  ⟨search.board, search.queue, gateOpen, false⟩

/-- The first worker takes a state that it finds, expands it, and begins again. -/
theorem Search.expand_goes
    {search expanded : Search layout}
    {state : State layout.bytes}
    {preferred source : Nat}
    {rest : WorkQueue (State layout.bytes)}
    (room : search.isExhausted setup = false)
    (taken : search.queue.pop? preferred = some (state, source, rest))
    (ok : Search.expand setup 0 state { search with queue := rest } = .ok expanded)
    (gateOpen : Bool) :
    ∃ opened, Goes setup 0
      (search.shared gateOpen, ⟨search.recycler, preferred, .arriving⟩)
      (expanded.shared opened, ⟨expanded.recycler, source, .arriving⟩) := by
  obtain ⟨agenda, walks⟩ := fireRules_walks ok room
  have took : Goes setup 0
      (search.shared gateOpen, ⟨search.recycler, preferred, .arriving⟩)
      (Search.shared { search with queue := rest } gateOpen,
        ⟨search.recycler, source,
         .expanding (Task.ofState setup state search.recycler)⟩) :=
    Goes.takes (search.shared gateOpen) rfl room taken
  have finished : Goes setup 0
      (expanded.shared gateOpen,
        ⟨search.recycler, source, .expanding ⟨agenda, expanded.recycler, .ended⟩⟩)
      (expanded.shared gateOpen, ⟨expanded.recycler, source, .peeking⟩) :=
        Move.finish.goes
  obtain ⟨opened, peeked⟩ :=
    Goes.peeks setup source expanded.recycler (expanded.shared gateOpen)
  exact ⟨opened, took.trans
    ((walks.goes gateOpen false search.recycler source).trans (finished.trans peeked))⟩

/-- The first worker explores a search until there is no room for faults or
nothing waits. -/
theorem Search.explore_goes
    {search explored : Search layout}
    {preferred : Nat}
    (ok : search.explore setup 0 preferred = .ok explored)
    (gateOpen : Bool) :
    (explored.isExhausted setup = true ∨ explored.queue.items = 0) ∧
      ∃ opened source, Goes setup 0
        (search.shared gateOpen, ⟨search.recycler, preferred, .arriving⟩)
        (explored.shared opened, ⟨explored.recycler, source, .arriving⟩) := by
  induction preferred, search using explore.induct setup 0 generalizing gateOpen with
  | case1 preferred search exhausted =>
      cases (explore_of_exhausted exhausted).symm.trans ok
      exact ⟨.inl exhausted, gateOpen, preferred, .refl _⟩
  | case2 preferred search room missing =>
      cases (explore_of_empty (Bool.eq_false_iff.mpr room) missing).symm.trans ok
      exact ⟨.inr (WorkQueue.pop?_eq_none.mp missing), gateOpen, preferred, .refl _⟩
  | case3 preferred search room state source rest taken error failed =>
      rw [explore_of_taken (Bool.eq_false_iff.mpr room) taken, failed] at ok
      cases ok
  | case4 preferred search room state source rest taken next expanded _
      inductionHypothesis =>
      have roomy := Bool.eq_false_iff.mpr room
      rw [explore_of_taken roomy taken, expanded] at ok
      obtain ⟨opened, goes⟩ := expand_goes roomy taken expanded gateOpen
      obtain ⟨ended, last, shard, further⟩ := inductionHypothesis ok opened
      exact ⟨ended, last, shard, goes.trans further⟩

/-! ## Pools whose workers return -/

/-- A worker is done and has not failed. -/
def Worker.HasReturned (worker : Worker layout) : Prop :=
  worker.place = .gone .drained ∨ worker.place = .gone .stopped

theorem Worker.HasReturned.of_exit
    {recycler : Recycler layout.bytes}
    {preferred : Nat}
    {exit : Exit}
    (returned : exit = .drained ∨ exit = .stopped) :
    (⟨recycler, preferred, .gone exit⟩ : Worker layout).HasReturned :=
  returned.imp (congrArg Place.gone) (congrArg Place.gone)

namespace Pool

variable {size : Nat}

/-- If every worker that is not done can leave without changing anything then
all of them can leave. -/
theorem returns_of_each
    (pool : Pool layout size)
    (each : ∀ number : Fin size, ∃ worker, worker.HasReturned ∧
      Goes setup number (pool.shared, pool.workers number) (pool.shared, worker)) :
    ∃ history workers, Run setup pool history ⟨pool.shared, workers⟩ ∧
      ∀ number, (workers number).HasReturned := by
  have some : ∀ numbers : Finset (Fin size), ∃ history workers,
      Run setup pool history ⟨pool.shared, workers⟩ ∧
        (∀ number ∈ numbers, (workers number).HasReturned) ∧
        ∀ number ∉ numbers, workers number = pool.workers number := by
    intro numbers
    induction numbers using Finset.induction_on with
    | empty => exact ⟨[], pool.workers, .refl, by simp, by simp⟩
    | @insert number numbers absent inductionHypothesis =>
        obtain ⟨history, workers, run, returned, others⟩ := inductionHypothesis
        obtain ⟨worker, done, events, spell⟩ := each number
        rw [← others number absent] at spell
        refine ⟨history ++ events, Function.update workers number worker,
          run.trans (Spell.run ⟨pool.shared, workers⟩ number spell), ?_, ?_⟩
        · intro other member
          by_cases same : other = number
          · rw [same, Function.update_self]
            exact done
          · rw [Function.update_of_ne same]
            exact returned other ((Finset.mem_insert.mp member).resolve_left same)
        · intro other member
          rw [Finset.mem_insert, not_or] at member
          rw [Function.update_of_ne member.1]
          exact others other member.2
  obtain ⟨history, workers, run, returned, -⟩ := some Finset.univ
  exact ⟨history, workers, run, fun number => returned number (Finset.mem_univ number)⟩

end Pool

/-- What a board shows at the end of a run without a failure: seeding has left
no room for faults, or all workers have returned. -/
inductive Setup.Ends (setup : Setup layout) : Board layout → Prop
  | seeded
      {search : Search layout}
      (seeding : Pool.Seeded setup search)
      (exhausted : search.isExhausted setup = true) :
      Ends setup search.board
  | explored
      {search : Search layout}
      {history : List (Event layout.bytes)}
      {last : Pool layout setup.workers}
      (seeding : Pool.Seeded setup search)
      (room : search.isExhausted setup = false)
      (run : Pool.Run setup (Pool.start setup search) history last)
      (returned : ∀ number, (last.workers number).HasReturned) :
      Ends setup last.shared.board

/-- A worker that comes late leaves again if there is nothing to do. -/
theorem Goes.newcomer
    {number : Nat}
    (apart : number ≠ 0)
    {shared : Shared layout}
    (opened : shared.gateOpen = true)
    (unaborted : shared.aborted = false)
    (idle : shared.board.isExhausted setup = true ∨ shared.queue.items = 0) :
    ∃ worker, worker.HasReturned ∧
      Goes setup number (shared, Pool.newcomer layout number) (shared, worker) := by
  obtain ⟨exit, returned, departs⟩ :=
    Goes.departs number number (.empty layout.bytes) shared unaborted idle
  have leaves : Goes setup number
      (shared, ⟨.empty layout.bytes, number, .leaving exit⟩)
      ({ shared with gateOpen := if number = 0 then true else shared.gateOpen },
        ⟨.empty layout.bytes, number, .gone exit⟩) := Move.leave.goes
  rw [if_neg apart] at leaves
  refine ⟨⟨.empty layout.bytes, number, .gone exit⟩, .of_exit returned, ?_⟩
  rw [Pool.newcomer, if_neg apart]
  exact (Move.enter opened).goes.trans (departs.trans leaves)

/-- The first worker can explore a seeded search, after which all workers leave. -/
theorem Search.explore_returns
    {seeded explored : Search layout}
    (ok : Search.explore setup 0 0 { seeded with recycler := .empty layout.bytes } =
      .ok explored) :
    ∃ history, ∃ last : Pool layout setup.workers,
      Pool.Run setup (Pool.start setup seeded) history last ∧
        last.shared = explored.shared true ∧
          ∀ number, (last.workers number).HasReturned := by
  obtain ⟨idle, opened, source, goes⟩ := explore_goes ok false
  obtain ⟨exit, returned, departs⟩ :=
    Goes.departs 0 source explored.recycler (explored.shared opened) rfl idle
  have left : Goes setup 0
      (explored.shared opened, ⟨explored.recycler, source, .leaving exit⟩)
      (explored.shared true, ⟨explored.recycler, source, .gone exit⟩) := Move.leave.goes
  let first : Fin setup.workers := ⟨0, by unfold Setup.workers; omega⟩
  obtain ⟨history, spell⟩ := goes.trans (departs.trans left)
  have run := Spell.run (Pool.start setup seeded) first spell
  let gone : Worker layout := ⟨explored.recycler, source, .gone exit⟩
  let alone : Pool layout setup.workers :=
    ⟨explored.shared true, Function.update (Pool.start setup seeded).workers first gone⟩
  have each : ∀ number : Fin setup.workers, ∃ worker, worker.HasReturned ∧
      Goes setup number (alone.shared, alone.workers number) (alone.shared, worker) := by
    intro number
    by_cases same : number = first
    · subst same
      simp only [alone, Function.update_self]
      exact ⟨gone, .of_exit returned, .refl _⟩
    · simp only [alone, Function.update_of_ne same]
      exact Goes.newcomer (fun zero => same (Fin.ext zero)) rfl rfl idle
  obtain ⟨others, workers, further, all⟩ := Pool.returns_of_each alone each
  exact ⟨history ++ others, _, run.trans further, rfl, all⟩

/-- A search that succeeds is one way in which a run can end. -/
theorem Setup.search_ends
    {search : Search layout}
    (ok : setup.search = .ok search) :
    setup.Ends search.board := by
  obtain ⟨start, started, ok⟩ := bind_eq_ok.mp ok
  obtain ⟨seeded, seeds, explores⟩ := bind_eq_ok.mp ok
  have seeding : Pool.Seeded setup seeded := ⟨start, liftBreach_eq_ok.mp started, seeds⟩
  cases room : seeded.isExhausted setup with
  | true =>
      have stopped :
        Search.explore setup 0 0 { seeded with recycler := .empty layout.bytes } =
          .ok { seeded with recycler := .empty layout.bytes } := by
        rw [Search.explore]
        exact if_pos room
      cases stopped.symm.trans explores
      have ends : setup.Ends seeded.board := .seeded seeding room
      exact ends
  | false =>
      obtain ⟨history, last, run, same, returned⟩ := Search.explore_returns explores
      have ends : setup.Ends last.shared.board := .explored seeding room run returned
      rw [same] at ends
      exact ends

/-! ## Ended runs as runs of a crew -/

namespace Pool

/-- What seeding leaves is what the first task of a crew leaves. -/
theorem Seeded.reaches
    {search : Search layout}
    (seeding : Seeded setup search)
    (positive : 0 < setup.config.maxErrors) :
    Crew.Reaches setup (.start setup (.empty layout.bytes)) (search.crew 0) := by
  obtain ⟨start, started, seeds⟩ := seeding
  obtain ⟨fresh, crew, exhausted⟩ := Search.start_crew started
  have room : start.isExhausted setup = false := by
    rw [exhausted, decide_eq_false_iff_not]
    omega
  have reaches := Search.seed_reaches seeds room
  rw [crew, fresh] at reaches
  exact reaches

/-- Without room for faults not even a start state is attempted. -/
theorem Seeded.start_eq_ok
    {search : Search layout}
    (seeding : Seeded setup search)
    (none : setup.config.maxErrors = 0) :
    Search.start setup = .ok search := by
  obtain ⟨start, started, seeds⟩ := seeding
  obtain ⟨-, -, exhausted⟩ := Search.start_crew started
  rw [decide_eq_true none] at exhausted
  cases (Search.seed_of_exhausted exhausted).symm.trans seeds
  exact started

theorem start_crew (search : Search layout) :
    (start setup search).crew = search.crew 0 := by
  have each : ∀ number ∈ Finset.univ, ((start setup search).workers number).tasks = 0 :=
    fun number _ => Worker.tasks_ite rfl rfl
  rw [crew, Finset.sum_eq_zero each]
  rfl

variable {size : Nat}

/-- A run is aborted by a worker that has failed. -/
theorem Step.aborter
    {pool next : Pool layout size}
    {events : List (Event layout.bytes)}
    (step : Step setup pool events next)
    (told : pool.shared.aborted = true → ∃ number, (pool.workers number).HasFailed) :
    next.shared.aborted = true → ∃ number, (next.workers number).HasFailed := by
  intro aborted
  by_cases before : pool.shared.aborted = true
  · obtain ⟨number, failed⟩ := told before
    exact ⟨number, step.failed number failed⟩
  · cases step with
    | @move number _ _ _ moved =>
        refine ⟨number, ?_⟩
        simp only [Function.update_self]
        generalize pool.workers number = worker at moved
        cases moved with
        | abort => trivial
        | _ => exact absurd aborted before

theorem Run.aborter
    {first last : Pool layout size}
    {history : List (Event layout.bytes)}
    (run : Run setup first history last)
    (unaborted : first.shared.aborted = false) :
    last.shared.aborted = true → ∃ number, (last.workers number).HasFailed :=
  run.invariant
    (fun _ pool => pool.shared.aborted = true →
      ∃ number, (pool.workers number).HasFailed)
    Step.aborter fun aborted => by rw [unaborted] at aborted; cases aborted

theorem unfailed_of_returned
    {worker : Worker layout}
    (returned : worker.HasReturned) :
    ¬worker.HasFailed := by
  rcases returned with gone | gone <;> simp [Worker.HasFailed, gone]

/-- When all workers have returned, no task is left, and nothing waits unless
the room for faults is used up. -/
theorem Sound.all_returned
    {pool : Pool layout size}
    (sound : pool.Sound setup)
    (unaborted : pool.shared.aborted = false)
    (returned : ∀ number, (pool.workers number).HasReturned) :
    pool.crew.tasks = 0 ∧
      (pool.shared.board.isExhausted setup = true ∨ pool.shared.queue.items = 0) := by
  constructor
  · have each : ∀ number ∈ Finset.univ, (pool.workers number).tasks = 0 := by
      intro number _
      rcases returned number with gone | gone <;> rw [Worker.tasks, gone]
    exact Finset.sum_eq_zero each
  · cases room : pool.shared.board.isExhausted setup with
    | true => exact .inl rfl
    | false =>
        refine .inr (WorkQueue.items_eq_zero.mpr fun shard present => ?_)
        let number : Fin size := ⟨shard, sound.shards ▸ present⟩
        have justified := sound.places number
        rcases returned number with gone | gone
        · rw [gone] at justified
          exact justified.1
        · rw [gone] at justified
          rcases justified.1 with exhausted | aborted
          · rw [room] at exhausted
            cases exhausted
          · rw [unaborted] at aborted
            cases aborted

/-- What a pool does before any of its workers fails is what the crew of its
run does from the start on. -/
theorem Run.reaches
    {search : Search layout}
    {history : List (Event layout.bytes)}
    {last : Pool layout setup.workers}
    (run : Run setup (start setup search) history last)
    (seeding : Seeded setup search)
    (positive : 0 < setup.config.maxErrors)
    (unfailed : ∀ number, ¬(last.workers number).HasFailed) :
    Crew.Reaches setup (.start setup (.empty layout.bytes)) last.crew := by
  refine (seeding.reaches positive).trans ⟨history, ?_⟩
  rw [← start_crew]
  exact run.crew_run unfailed

end Pool

/-- The crew of a run that has ended has no task left, and nothing waits unless
the room for faults is used up. -/
theorem Setup.Ends.crew_run
    {board : Board layout}
    (ends : setup.Ends board)
    (positive : 0 < setup.config.maxErrors) :
    ∃ history waiting,
      Crew.Run setup (.start setup (.empty layout.bytes)) history ⟨board, waiting, 0⟩ ∧
        (board.isExhausted setup = true ∨ waiting = 0) := by
  cases ends with
  | @seeded search seeding exhausted =>
      obtain ⟨history, run⟩ := seeding.reaches positive
      exact ⟨history, search.queue.items, run, .inl exhausted⟩
  | @explored search _ last seeding _ run returned =>
      have unfailed : ∀ number, ¬(last.workers number).HasFailed :=
        fun number => Pool.unfailed_of_returned (returned number)
      have unaborted : last.shared.aborted = false := by
        refine Bool.eq_false_iff.mpr fun aborted => ?_
        obtain ⟨number, failed⟩ := run.aborter rfl aborted
        exact unfailed number failed
      obtain ⟨none, idle⟩ :=
        (run.sound seeding.start_sound).all_returned unaborted returned
      obtain ⟨history, reached⟩ := run.reaches seeding positive unfailed
      refine ⟨history, last.shared.queue.items, ?_, idle⟩
      rw [← none]
      exact reached

/-- The crew of a run that has ended with room for faults left has nothing to
do. -/
theorem Setup.Ends.idle_run
    {board : Board layout}
    (ends : setup.Ends board)
    (room : board.isExhausted setup = false) :
    ∃ history, Crew.Run setup (.start setup (.empty layout.bytes)) history
      ⟨board, 0, 0⟩ := by
  have positive : 0 < setup.config.maxErrors := by
    simp only [Board.isExhausted, decide_eq_false_iff_not] at room
    omega
  obtain ⟨history, waiting, run, idle⟩ := ends.crew_run positive
  have none : waiting = 0 := idle.resolve_left (by simp [room])
  rw [none] at run
  exact ⟨history, run⟩

end StateSpace
