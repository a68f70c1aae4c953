import StateSpace.Proofs.Report.Lines
import StateSpace.Proofs.Search.Crew
import StateSpace.Proofs.Search.Moves

/-!
# Progress lines

Whoever discovers a state keeps the number of states that were discovered by
then, and announces it once the state is queued. The numbers in the progress
lines and those still to be announced are together the multiples of the interval
up to the number of discovered states, however the workers take turns.
-/

namespace StateSpace

variable {layout : Layout} {setup : Setup layout}

/-- The positive multiples of a number up to a limit. -/
def multiplesUpTo (interval limit : Nat) : List Nat :=
  (List.range (limit / interval)).map fun index => (index + 1) * interval

theorem length_multiplesUpTo
    {interval limit : Nat} :
    (multiplesUpTo interval limit).length = limit / interval := by
  rw [multiplesUpTo, List.length_map, List.length_range]

/-- The number that a task has still to announce. -/
def Stage.unannounced : Stage layout → Multiset Nat
  | .active (.announce size) => {size}
  | .push _ size => {size}
  | _ => 0

namespace Setup

/-- Those numbers at which a progress line is due. -/
def due
    (setup : Setup layout)
    (sizes : Multiset Nat) : Multiset Nat :=
  sizes.filter fun size => size % setup.config.progressInterval = 0

theorem due_add (sizes others : Multiset Nat) :
    setup.due (sizes + others) = setup.due sizes + setup.due others :=
  Multiset.filter_add ..

theorem due_zero : setup.due 0 = 0 := rfl

end Setup

/-- Every number up to that of the discovered states is announced once or is still
to be announced, if a line is due. -/
def Crew.Announced
    (setup : Setup layout)
    (crew : Crew layout) : Prop :=
  (crew.board.report.progressSizes : Multiset Nat) +
      setup.due (crew.tasks.map fun task => task.stage.unannounced).sum =
    setup.due (List.range' 1 crew.board.visited.size)

/-! ## Reports and multiples -/

theorem Report.progressSizes_progress
    (report : Report)
    (states rulesFired queued : Nat)
    (elapsed : Duration) :
    (report.add (.progress states elapsed rulesFired queued)).progressSizes =
      report.progressSizes ++ [states] := by
  simp [progressSizes, Entry.progressSize?, add]

theorem Report.progressSizes_fault
    (report : Report)
    (record : FaultRecord)
    (trace : Option (List String))
    (state : List String) :
    (report.add (.fault record trace state)).progressSizes = report.progressSizes := by
  simp [progressSizes, Entry.progressSize?, add]

theorem Report.progressSizes_summary
    (report : Report)
    (totals : Totals) :
    (report.add (.summary totals)).progressSizes = report.progressSizes := by
  simp [progressSizes, Entry.progressSize?, add]

theorem Setup.due_range
    (positive : 0 < setup.config.progressInterval)
    (limit : Nat) :
    setup.due (List.range' 1 limit) =
      multiplesUpTo setup.config.progressInterval limit := by
  induction limit with
  | zero => simp [due, multiplesUpTo]
  | succ limit inductionHypothesis =>
      unfold multiplesUpTo at inductionHypothesis ⊢
      rw [List.range'_1_concat, ← Multiset.coe_add, due_add, inductionHypothesis,
        Nat.succ_div, Nat.add_comm 1 limit]
      by_cases reached : setup.config.progressInterval ∣ limit + 1
      · obtain ⟨factor, same⟩ := reached
        have next : limit / setup.config.progressInterval + 1 = factor := by
          have quotient := Nat.succ_div_of_dvd (Dvd.intro factor same.symm)
          rw [same, Nat.mul_div_cancel_left factor positive] at quotient
          exact quotient.symm
        rw [if_pos (Dvd.intro factor same.symm), List.range_succ, List.map_append,
          ← Multiset.coe_add]
        refine congrArg _ ?_
        rw [due, Multiset.coe_singleton, Multiset.filter_singleton,
          if_pos (by simp [same])]
        simp [next, same, Nat.mul_comm]
      · have passed : (limit + 1) % setup.config.progressInterval ≠ 0 := fun zero =>
          reached (Nat.dvd_of_mod_eq_zero zero)
        rw [if_neg reached, due, Multiset.coe_singleton, Multiset.filter_singleton,
          if_neg passed]
        exact add_zero _

/-! ## Moves -/

theorem Stage.unannounced_afterFault
    (record? : Option FaultRecord)
    (blamed : State layout.bytes)
    (traceable : Bool) :
    (Stage.afterFault record? blamed traceable).unannounced = 0 := by
  cases record? <;> rfl

theorem Sequel.unannounced_stage
    (sequel : Sequel layout) :
    sequel.stage.unannounced = 0 := by
  cases sequel <;> rfl

theorem Firing.Settles.unannounced
    {firing : Firing layout}
    {agenda : Agenda layout}
    {recycler : Recycler layout.bytes}
    {task : Task layout}
    (settles : firing.Settles agenda recycler task) :
    task.stage.unannounced = 0 := by
  cases settles with
  | rejected _ _ => exact Stage.unannounced_afterFault ..
  | _ => rfl

theorem Agenda.Attempts.unannounced
    {agenda : Agenda layout}
    {recycler : Recycler layout.bytes}
    {task : Task layout}
    (attempts : agenda.Attempts setup recycler task) :
    task.stage.unannounced = 0 := by
  cases attempts with
  | start _ settles => exact settles.unannounced
  | guardFault _ => exact Stage.unannounced_afterFault ..
  | faulted _ _ settles => exact settles.unannounced
  | _ => rfl

/-- A point announces what it has to, and has to announce what it discovers. -/
theorem Point.Advances.announces
    {queued : Nat}
    {agenda : Agenda layout}
    {recycler : Recycler layout.bytes}
    {board advanced : Board layout}
    {point : Point layout}
    {task : Task layout}
    (advances : point.Advances setup queued agenda recycler board task advanced) :
    ∃ discovered : Multiset Nat,
      (List.range' 1 advanced.visited.size : Multiset Nat) =
          List.range' 1 board.visited.size + discovered ∧
      (advanced.report.progressSizes : Multiset Nat) + setup.due task.stage.unannounced =
        board.report.progressSizes +
          setup.due ((Stage.active point).unannounced + discovered) := by
  cases advances with
  | attempt attempts => exact ⟨0, (add_zero _).symm, by rw [attempts.unannounced]; rfl⟩
  | count settles => exact ⟨0, (add_zero _).symm, by rw [settles.unannounced]; rfl⟩
  | forgo _ => exact ⟨0, (add_zero _).symm, by rw [Sequel.unannounced_stage]; rfl⟩
  | log => exact ⟨0, (add_zero _).symm, by rw [Sequel.unannounced_stage]; rfl⟩
  | print _ _ => exact ⟨0, (add_zero _).symm, by rw [Report.progressSizes_fault]; rfl⟩
  | @discover state block _ fresh =>
      have larger : (board.visited.insert block).size = board.visited.size + 1 := by
        simp [VisitedSet.size_insert, fresh]
      refine ⟨{(board.visited.insert block).size}, ?_, rfl⟩
      rw [larger, List.range'_1_concat, Nat.add_comm 1]
      rfl
  | @progress size due =>
      refine ⟨0, (add_zero _).symm, ?_⟩
      have told : setup.due {size} = {size} := by
        rw [Setup.due, Multiset.filter_singleton, if_pos due]
      rw [Report.progressSizes_progress, ← Multiset.coe_add, add_zero]
      exact (add_zero _).trans (congrArg _ told.symm)
  | @quiet size early =>
      refine ⟨0, (add_zero _).symm, ?_⟩
      have silent : setup.due {size} = 0 := by
        rw [Setup.due, Multiset.filter_singleton, if_neg early]
        rfl
      rw [add_zero]
      exact congrArg _ silent.symm
  | _ => exact ⟨0, (add_zero _).symm, rfl⟩

namespace Crew

theorem Step.announced
    {crew next : Crew layout}
    {events : List (Event layout.bytes)}
    (step : Step setup crew events next)
    (announced : crew.Announced setup) :
    next.Announced setup := by
  unfold Announced at announced ⊢
  cases step with
  | take => simpa [Task.ofState, Stage.unannounced] using announced
  | @advance board advanced waiting tasks agenda recycler point task queued moved =>
      obtain ⟨discovered, counted, told⟩ := (Point.advances moved).announces
      simp only [Multiset.map_cons, Multiset.sum_cons, Setup.due_add] at announced told ⊢
      rw [counted, Setup.due_add, ← announced, ← add_assoc, told]
      abel
  | push => simpa [Stage.unannounced] using announced
  | finish => simpa [Stage.unannounced] using announced

theorem Run.announced
    {recycler : Recycler layout.bytes}
    {last : Crew layout}
    {history : List (Event layout.bytes)}
    (run : Run setup (start setup recycler) history last) :
    last.Announced setup := by
  refine run.invariant (fun _ crew => crew.Announced setup) Step.announced ?_
  unfold Announced start emptyBoard
  simp only [VisitedSet.size_empty]
  rfl

/-- When no task is left, the progress lines show every multiple of the interval
up to the number of discovered states once. -/
theorem Run.progress
    {recycler : Recycler layout.bytes}
    {last : Crew layout}
    {history : List (Event layout.bytes)}
    (run : Run setup (start setup recycler) history last)
    (done : last.tasks = 0)
    (positive : 0 < setup.config.progressInterval) :
    last.board.report.progressSizes.Perm
      (multiplesUpTo setup.config.progressInterval last.board.visited.size) := by
  have announced := run.announced
  unfold Announced at announced
  rw [done, Multiset.map_zero, Multiset.sum_zero, Setup.due_zero, add_zero,
    Setup.due_range positive] at announced
  exact Multiset.coe_eq_coe.mp announced

end Crew
end StateSpace
