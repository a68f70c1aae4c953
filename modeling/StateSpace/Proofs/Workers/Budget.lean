import StateSpace.Proofs.Workers.Unfailing

/-!
# The room for faults

Raising a fault, looking for room, and recording the fault are steps of their
own, and other workers go on in between. Still a run that ends has recorded as
many faults as a complete exploration has, or as many as there is room for, and
at no moment more. How many workers there are and in which order they move
makes no difference to that.
-/

namespace StateSpace

section

variable {layout : Layout} {setup : Setup layout}

/-- The totals that a board shows. -/
def Board.result (board : Board layout) : CheckResult where
  states := board.visited.size
  rulesFired := board.rulesFired
  errors := board.faults.size
  faults := board.faults.toList
  elapsed := .zero

theorem Search.result_board (search : Search layout) :
    search.board.result = search.result := rfl

/-- A result reports the faults of a complete exploration, or as many of them as
there is room for. -/
structure Setup.Reports
    (setup : Setup layout)
    (result : CheckResult) : Prop where
  errors : result.errors = min setup.faultTotal setup.config.maxErrors
  faults : result.faults.length = min setup.faultTotal setup.config.maxErrors
  passed : result.passed = true ↔ setup.faultTotal = 0

/-- A result with as many faults as fit reports them. -/
theorem Setup.Reports.of_size
    (positive : 0 < setup.config.maxErrors)
    {board : Board layout}
    (size : board.faults.size = min setup.faultTotal setup.config.maxErrors) :
    setup.Reports board.result where
  errors := size
  faults := size
  passed := by
    have counts : board.result.passed = true ↔ board.faults.size = 0 :=
      decide_eq_true_iff
    rw [counts]
    omega

namespace Setup

/-- The result of a run is that of its search. -/
theorem search_of_run
    {sink : Sink}
    {result : CheckResult}
    {report : Report}
    (ran : setup.run sink = .ok (result, report)) :
    ∃ search, setup.search = .ok search ∧ result = search.result := by
  unfold run at ran
  split at ran
  · cases ran
  · obtain ⟨search, searched, ran⟩ := bind_eq_ok.mp ran
    obtain ⟨-, -, ran⟩ := bind_eq_ok.mp ran
    cases ran
    exact ⟨search, searched, rfl⟩

/-- However a run ends, it has recorded as many faults as fit. -/
theorem Ends.reports
    (sound : setup.model.NeverBreaches)
    (built : layout.Built)
    (positive : 0 < setup.config.maxErrors)
    {board : Board layout}
    (ends : setup.Ends board) :
    setup.Reports board.result := by
  obtain ⟨history, waiting, run, idle⟩ := ends.crew_run positive
  exact .of_size positive (run.faults_size sound built rfl idle)

/-- At no moment of a run are there more faults than there is room for. -/
theorem faults_size_le
    (sound : setup.model.NeverBreaches)
    (built : layout.Built)
    (positive : 0 < setup.config.maxErrors)
    {seeded : Search layout}
    (seeding : Pool.Seeded setup seeded)
    {history : List (Event layout.bytes)}
    {last : Pool layout setup.workers}
    (run : Pool.Run setup (Pool.start setup seeded) history last) :
    last.shared.board.faults.size ≤ setup.config.maxErrors := by
  have grounded := run.grounded sound built (seeding.start_grounded sound built)
  obtain ⟨_, crewRun⟩ := run.reaches seeding positive grounded.unfailed
  have budgeted : last.shared.board.faults.size +
      (last.crew.tasks.map Task.recording).sum =
        min last.shared.board.raised setup.config.maxErrors :=
    crewRun.budgeted (Crew.start_budgeted setup _)
  omega

/-- A run with room for at least one fault that comes to its end reports as many
faults as a complete exploration has, or as many as there is room for, and at
no moment has it recorded more. So neither the number of workers nor the order
of their steps tells whether it passes. -/
theorem errors_eq_min
    (sound : setup.model.NeverBreaches)
    (built : layout.Built)
    (positive : 0 < setup.config.maxErrors)
    (threads : Nat) :
    (∀ board, (setup.withThreads threads).Ends board → setup.Reports board.result) ∧
      (∀ sink result report, (setup.withThreads threads).run sink =
        .ok (result, report) → setup.Reports result) ∧
      ∀ seeded, Pool.Seeded (setup.withThreads threads) seeded →
        ∀ history last,
          Pool.Run (setup.withThreads threads)
              (Pool.start (setup.withThreads threads) seeded) history last →
            last.shared.board.faults.size ≤ setup.config.maxErrors := by
  have soundThreads : (setup.withThreads threads).model.NeverBreaches := sound
  have reports : ∀ board, (setup.withThreads threads).Ends board →
      setup.Reports board.result := by
    intro board ends
    obtain ⟨errors, faults, passed⟩ := Ends.reports soundThreads built positive ends
    rw [faultTotal_withThreads] at errors faults passed
    exact ⟨errors, faults, passed⟩
  refine ⟨reports, fun sink result report ran => ?_,
    fun seeded seeding history last run => ?_⟩
  · obtain ⟨search, searched, rfl⟩ := search_of_run ran
    rw [← Search.result_board]
    exact reports search.board (search_ends searched)
  · exact faults_size_le soundThreads built positive seeding run

end Setup

end

/-- Two workers find the one defect of the lamp, however they do it, and there is
a way in which they do. -/
theorem Lamp.errors_eq_min_lamp :
    (∃ board, (setup.withThreads 2).Ends board) ∧
      ∀ board, (setup.withThreads 2).Ends board →
        board.result.errors = 1 ∧ board.result.passed = false := by
  have storable : (setup.withThreads 2).Storable := ⟨by decide, by decide⟩
  have sound : (setup.withThreads 2).model.NeverBreaches := model_neverBreaches
  have positive : 0 < setup.config.maxErrors := by decide
  obtain ⟨search, searched, -⟩ :=
    Setup.search_reaches sound layout_built storable positive
  refine ⟨⟨search.board, Setup.search_ends searched⟩, fun board ends => ?_⟩
  obtain ⟨reports, -, -⟩ :=
    Setup.errors_eq_min model_neverBreaches layout_built positive 2
  obtain ⟨errors, -, passed⟩ := reports board ends
  rw [setup_faultTotal] at errors passed
  exact ⟨errors, Bool.eq_false_iff.mpr fun passes => one_ne_zero (passed.mp passes)⟩

end StateSpace
