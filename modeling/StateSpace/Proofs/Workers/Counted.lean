import StateSpace.Proofs.Search.Insertions
import StateSpace.Proofs.Search.Progress
import StateSpace.Proofs.Search.Seeds
import StateSpace.Proofs.Workers.Ends

/-!
# Every state is counted once

The start states and all workers insert into one visited set. Whoever inserts a
state first is told that it is new and how many states there are by then, and
everybody else gets it back. So the states are numbered in the order in which they
are discovered, and a run that ends has shown a progress line for every multiple of
the interval up to the number of its states.
-/

namespace StateSpace

section

variable {layout : Layout} {setup : Setup layout}

/-- What a run has offered to its visited set, in order, when it has come to a board:
on its way through the start states, or after any moves of its workers. -/
inductive Setup.Offers (setup : Setup layout) :
    List (Block layout.bytes) → Board layout → Prop
  | seeding
      {start : Search layout}
      {history : List (Event layout.bytes)}
      {lone : Lone layout}
      (started : Search.start setup = .ok start)
      (seeds : Lone.Seeding setup (start.before setup.model.startStates) history lone) :
      Offers setup (offeredBlocks history) lone.board
  | working
      {start seeded : Search layout}
      {earlier history : List (Event layout.bytes)}
      {lone : Lone layout}
      {last : Pool layout setup.workers}
      (started : Search.start setup = .ok start)
      (seeds : Lone.Seeding setup (start.before setup.model.startStates) earlier lone)
      (seeded_eq : start.seed setup setup.model.startStates = .ok seeded)
      (board_eq : seeded.board = lone.board)
      (run : Pool.Run setup (Pool.start setup seeded) history last) :
      Offers setup (offeredBlocks (earlier ++ history)) last.shared.board

/-! ## Insertions of runs -/

theorem Lone.Step.visited
    {shard : Nat}
    {lone next : Lone layout}
    {events : List (Event layout.bytes)}
    (step : Step setup shard lone events next) :
    next.board.visited = (lone.board.visited.offerAll (offeredBlocks events)).2 := by
  cases step with
  | advance moved => exact Point.advance_visited moved
  | push _ => rfl

theorem Lone.Seeding.visited
    {first last : Lone layout}
    {history : List (Event layout.bytes)}
    (seeding : Seeding setup first history last) :
    last.board.visited = (first.board.visited.offerAll (offeredBlocks history)).2 := by
  refine Execution.inserts (·.board.visited) (fun step => ?_) seeding
  obtain ⟨shard, step⟩ := step
  exact step.visited

theorem Move.visited
    {number : Nat}
    {shared changed : Shared layout}
    {worker next : Worker layout}
    {events : List (Event layout.bytes)}
    (move : Move setup number shared worker events changed next) :
    changed.board.visited =
      (shared.board.visited.offerAll (offeredBlocks events)).2 := by
  cases move with
  | advance _ moved => exact Point.advance_visited moved
  | @finish _ _ agenda _ => cases agenda <;> rfl
  | _ => rfl

theorem Pool.Run.visited
    {size : Nat}
    {first last : Pool layout size}
    {history : List (Event layout.bytes)}
    (run : Run setup first history last) :
    last.shared.board.visited =
      (first.shared.board.visited.offerAll (offeredBlocks history)).2 := by
  refine Execution.inserts (·.shared.board.visited) (fun step => ?_) run
  cases step with
  | move number moved => exact moved.visited

namespace Setup

/-- The discovered blocks are what comes of inserting the offered ones in order. -/
theorem Offers.visited
    {offers : List (Block layout.bytes)}
    {board : Board layout}
    (inserted : setup.Offers offers board) :
    board.visited = (VisitedSet.empty.offerAll offers).2 := by
  have fresh : ∀ {start : Search layout}, Search.start setup = .ok start →
      (start.before setup.model.startStates).board.visited = .empty := by
    intro start started
    obtain ⟨queue, -, -, rfl⟩ := Search.start_eq_ok started
    rfl
  cases inserted with
  | seeding started seeds => rw [seeds.visited, fresh started]
  | working started seeds _ board_eq run =>
      have seeded : (Pool.start setup _).shared.board.visited = _ :=
        congrArg Board.visited board_eq
      rw [run.visited, seeded, seeds.visited, fresh started, offeredBlocks_append,
        VisitedSet.offerAll_append]

/-- Seeding that comes to its end is a walk of the first task. -/
theorem exists_seeding
    {start seeded : Search layout}
    (seeds : start.seed setup setup.model.startStates = .ok seeded) :
    ∃ history lone,
      Lone.Seeding setup (start.before setup.model.startStates) history lone ∧
      seeded.board = lone.board := by
  cases room : start.isExhausted setup with
  | false =>
      obtain ⟨history, left, walked⟩ := Search.seed_seeding seeds room
      exact ⟨history, _, walked, rfl⟩
  | true =>
      cases (Search.seed_of_exhausted room).symm.trans seeds
      exact ⟨[], _, .refl, rfl⟩

theorem exists_offers
    {seeded : Search layout}
    {history : List (Event layout.bytes)}
    {last : Pool layout setup.workers}
    (seeding : Pool.Seeded setup seeded)
    (run : Pool.Run setup (Pool.start setup seeded) history last) :
    ∃ offers, setup.Offers offers last.shared.board := by
  obtain ⟨start, started, seeds⟩ := seeding
  obtain ⟨earlier, lone, walked, same⟩ := exists_seeding seeds
  exact ⟨_, .working started walked seeds same run⟩

/-! ## Progress of runs -/

/-- A run that has ended has announced every multiple of the interval once. -/
theorem Ends.progress
    {board : Board layout}
    (ends : setup.Ends board)
    (interval : 0 < setup.config.progressInterval) :
    board.report.progressSizes.Perm
      (multiplesUpTo setup.config.progressInterval board.visited.size) := by
  by_cases positive : 0 < setup.config.maxErrors
  · obtain ⟨history, waiting, run, -⟩ := ends.crew_run positive
    exact run.progress rfl interval
  · have none : setup.config.maxErrors = 0 := by omega
    cases ends with
    | explored _ room _ _ => simp [Search.isExhausted, none] at room
    | seeded seeding _ =>
        obtain ⟨queue, -, -, rfl⟩ := Search.start_eq_ok (seeding.start_eq_ok none)
        simp [Search.board, multiplesUpTo, Report.progressSizes]

/-- The progress lines of a run are those of its search, and its sink has taken all
that it prints. -/
theorem progress_of_run
    {sink : Sink}
    {result : CheckResult}
    {report : Report}
    (ran : setup.run sink = .ok (result, report)) :
    ∃ search, setup.search = .ok search ∧ result = search.result ∧
      report.progressSizes = search.report.progressSizes ∧
        report.flush sink = .ok () := by
  unfold run at ran
  split at ran
  · cases ran
  · obtain ⟨search, searched, ran⟩ := bind_eq_ok.mp ran
    obtain ⟨_, flushed, ran⟩ := bind_eq_ok.mp ran
    cases ran
    exact ⟨search, searched, rfl, Report.progressSizes_summary ..,
      liftCheck_eq_ok.mp flushed⟩

/-- Every insertion of a run is answered by what was discovered before it, and its
task heeds the answer. Of all insertions of a block one is answered that it is new,
and the numbers in these answers count up from one to the number of discovered
states. So a run that ends has printed, into a sink with room for everything, a
progress line for every multiple of the interval up to the number of its states, and
no other. -/
theorem states_counted (interval : 1 ≤ setup.config.progressInterval) :
    (∀ queued agenda recycler (board advanced : Board layout) state task,
      (Point.offer state).advance setup queued agenda recycler board =
        .ok (task, advanced) → ∃ block, setup.canonical state.block = .ok block ∧
          advanced.visited = (board.visited.offer block).2 ∧
          task.Heeds (board.visited.offer block).1) ∧
    (∀ offers board, setup.Offers offers board →
      ∃ insertions, VisitedSet.empty.offerAll offers = (insertions, board.visited) ∧
        VisitedSet.Answered offers insertions board.visited) ∧
    (∀ seeded history last, Pool.Seeded setup seeded →
      Pool.Run setup (Pool.start setup seeded) history last →
        ∃ offers, setup.Offers offers last.shared.board) ∧
    (∀ board, setup.Ends board → ∃ sizes, board.report.ShowsProgress sizes ∧
      sizes.length = board.visited.size / setup.config.progressInterval ∧
      sizes.Perm (multiplesUpTo setup.config.progressInterval board.visited.size)) ∧
    ∀ sink result report, setup.run sink = .ok (result, report) →
      (∀ room, sink.room = some room → report.text.utf8ByteSize ≤ room) ∧
      ∃ sizes, report.ShowsProgress sizes ∧
        sizes.length = result.states / setup.config.progressInterval ∧
        sizes.Perm (multiplesUpTo setup.config.progressInterval result.states) := by
  refine ⟨fun _ _ _ _ _ _ _ moved => Point.offer_heeds moved, ?_,
    fun _ _ _ seeding run => exists_offers seeding run, ?_, ?_⟩
  · intro offers board inserted
    refine ⟨(VisitedSet.empty.offerAll offers).1, ?_, ?_⟩
    · rw [inserted.visited]
    · rw [inserted.visited]
      exact VisitedSet.answered offers
  · intro board ends
    have shown := ends.progress interval
    exact ⟨_, board.report.showsProgress,
      shown.length_eq.trans length_multiplesUpTo, shown⟩
  · intro sink result report ran
    obtain ⟨search, searched, rfl, same, flushed⟩ := progress_of_run ran
    have shown : report.progressSizes.Perm (multiplesUpTo setup.config.progressInterval
        search.visited.size) := by
      rw [same]
      exact (search_ends searched).progress interval
    exact ⟨((report.flush_eq_ok_iff sink).mp flushed).2, _, report.showsProgress,
      shown.length_eq.trans length_multiplesUpTo, shown⟩

end Setup

end

namespace Lamp

/-- A lamp whose every state is announced, for two workers. -/
def noted : Setup layout :=
  ⟨model, { maxErrors := 2, threads := 2, progressInterval := 1 }⟩

/-- The lamp is dark or lit. -/
theorem noted_reachableBlocks : noted.reachableBlocks = {.zero layout.bytes, ⟨1⟩} := by
  ext block
  rw [Setup.mem_reachableBlocks, Finset.mem_insert, Finset.mem_singleton]
  constructor
  · intro reachable
    cases reachable with
    | @start start block _ declared begins canonical =>
        cases canonical
        rcases List.mem_pair.mp declared with rfl | rfl
        · cases begins.runs
          exact .inl rfl
        · cases begins.runs
    | @rule origin block _ rule _ declared leads canonical =>
        cases canonical
        cases List.mem_singleton.mp declared
        cases leads.runs
        exact .inr rfl
  · have dark : noted.Reachable (.zero layout.bytes) :=
      .start (List.mem_cons_self ..) ⟨rfl, nofun, nofun⟩ rfl
    rintro (rfl | rfl)
    · exact dark
    · exact .rule dark (List.mem_singleton.mpr rfl) ⟨rfl, rfl, nofun, nofun⟩ rfl

/-- The two states of the lamp are announced, one after the other. -/
theorem states_counted_noted :
    ∃ result report sizes, noted.run {} = .ok (result, report) ∧
      report.ShowsProgress sizes ∧ sizes.length = 2 ∧ sizes.Perm [1, 2] := by
  have faults : noted.faultTotal = 1 := by
    have starts : noted.startRecords =
      [⟨.model, "no bulb", some "startstate broken"⟩] := rfl
    have blocks : ∀ block, noted.blockRecords block = [] := fun _ => rfl
    simp [Setup.faultTotal, starts, blocks]
  obtain ⟨search, report, -, ran, -, -, -, -, everything⟩ :=
    Setup.run_explores model_neverBreaches layout_built ⟨by decide, by decide⟩
      (show noted.config.defect? = none from rfl)
  obtain ⟨-, -, states, -⟩ := everything (by rw [faults]; decide)
  have two : search.result.states = 2 := by
    rw [states, noted_reachableBlocks, Finset.card_pair (by decide)]
  have interval : 1 ≤ noted.config.progressInterval := by decide
  obtain ⟨-, -, -, -, shown⟩ := Setup.states_counted interval
  obtain ⟨-, sizes, lines, number, numbers⟩ := shown {} search.result report ran
  rw [two] at number numbers
  exact ⟨search.result, report, sizes, ran, lines, number, numbers⟩

end Lamp
end StateSpace
