import StateSpace.Proofs.Search.Moves
import StateSpace.Proofs.Search.Soundness

/-!
# Crews come to an end

Every step of a crew lowers its effort, a number in which an undiscovered
block counts for more than a waiting state and a waiting state for more than
the task of a state. So no crew goes on forever, and one whose tasks cannot
fail comes to its end whatever its steps are.
-/

namespace StateSpace

variable {layout : Layout} {setup : Setup layout}

/-- The number of attempts on an agenda. -/
def Agenda.length : Agenda layout → Nat
  | .starts rest => rest.length
  | .rules _ _ rest => rest.length

/-- The effort of a task that attempts what comes first on an agenda. An
attempt has at most nine steps after it, and a deadlock five. -/
def attemptEffort (length : Nat) : Nat :=
  10 * length + 8

/-- The effort from a reported fault on. -/
def Sequel.effort
    (length : Nat) : Sequel layout → Nat
  | .weigh _ => attemptEffort length + 4
  | .leave => 1

/-- The effort of a task at a point. -/
def Point.effort
    (length : Nat) : Point layout → Nat
  | .attempt => attemptEffort length
  | .announce _ => attemptEffort length + 1
  | .offer _ => attemptEffort length + 3
  | .weigh _ => attemptEffort length + 4
  | .log _ sequel => sequel.effort length + 1
  | .print _ _ _ sequel => sequel.effort length + 2
  | .raise _ _ _ sequel => sequel.effort length + 3
  | .count _ => attemptEffort length + 8

/-- The effort of a waiting state. -/
def Setup.stateEffort (setup : Setup layout) : Nat :=
  attemptEffort setup.model.rules.length + 1

/-- The effort of a task. A state in its hands counts as one that waits. -/
def Task.effort
    (setup : Setup layout)
    (task : Task layout) : Nat :=
  match task.stage with
  | .active point => point.effort task.agenda.length
  | .push _ _ => setup.stateEffort + attemptEffort task.agenda.length + 2
  | .ended => 1

/-- The effort that the undiscovered blocks will take. -/
def Board.effort
    (setup : Setup layout)
    (board : Board layout) : Nat :=
  (Block.number layout.bytes - board.visited.size) * (setup.stateEffort + 1)

/-- The effort that is left to a crew. -/
def Crew.effort
    (setup : Setup layout)
    (crew : Crew layout) : Nat :=
  crew.board.effort setup + (crew.tasks.map (Task.effort setup)).sum +
    crew.waiting.card * setup.stateEffort

/-! ## Steps lower the effort -/

theorem Sequel.effort_stage
    (agenda : Agenda layout)
    (recycler : Recycler layout.bytes)
    (sequel : Sequel layout) :
    (⟨agenda, recycler, sequel.stage⟩ : Task layout).effort setup =
      sequel.effort agenda.length := by
  cases sequel <;> rfl

theorem Stage.effort_afterFault
    (agenda : Agenda layout)
    (recycler : Recycler layout.bytes)
    (record? : Option FaultRecord)
    (blamed : State layout.bytes)
    (traceable : Bool) :
    (⟨agenda, recycler, .afterFault record? blamed traceable⟩ : Task layout).effort
      setup ≤ attemptEffort agenda.length + 7 := by
  cases record? with
  | none => simp [Stage.afterFault, Task.effort, Point.effort]
  | some record => simp [Stage.afterFault, Task.effort, Point.effort, Sequel.effort]

theorem Firing.Settles.effort
    {firing : Firing layout}
    {agenda : Agenda layout}
    {recycler : Recycler layout.bytes}
    {task : Task layout}
    (settles : firing.Settles agenda recycler task) :
    task.effort setup ≤ attemptEffort agenda.length + 7 := by
  cases settles with
  | rejected _ _ => exact Stage.effort_afterFault ..
  | infeasible _ _ => simp [Task.effort, Point.effort]
  | violated _ => simp [Task.effort, Point.effort, Sequel.effort]
  | accepted _ => simp [Task.effort, Point.effort]

theorem Agenda.Attempts.effort
    {agenda : Agenda layout}
    {recycler : Recycler layout.bytes}
    {task : Task layout}
    (attempts : agenda.Attempts setup recycler task) :
    task.effort setup < attemptEffort agenda.length := by
  cases attempts with
  | started => simp [Task.effort, attemptEffort]
  | start _ settles =>
      apply settles.effort.trans_lt
      simp only [attemptEffort, Agenda.length, List.length_cons]
      omega
  | deadlocked _ => simp [Task.effort, Point.effort, Sequel.effort, attemptEffort]
  | expanded _ => simp [Task.effort, attemptEffort]
  | disabled _ =>
      simp only [Task.effort, Point.effort, Agenda.length, List.length_cons,
        attemptEffort]
      omega
  | guardFault _ =>
      apply (Stage.effort_afterFault ..).trans_lt
      simp only [Agenda.length, List.length_cons, attemptEffort]
      omega
  | completed _ _ =>
      simp only [Task.effort, Point.effort, Agenda.length, List.length_cons,
        attemptEffort]
      omega
  | faulted _ _ settles =>
      apply settles.effort.trans_lt
      simp only [Agenda.length, List.length_cons, attemptEffort]
      omega

/-- A point lowers the effort of its task by more than it raises that of the
board. -/
theorem Point.Advances.effort
    {queued : Nat}
    {agenda : Agenda layout}
    {recycler : Recycler layout.bytes}
    {board advanced : Board layout}
    {point : Point layout}
    {task : Task layout}
    (advances : point.Advances setup queued agenda recycler board task advanced) :
    advanced.effort setup + task.effort setup <
      board.effort setup + point.effort agenda.length := by
  cases advances with
  | attempt attempts => exact Nat.add_lt_add_left attempts.effort _
  | count settles =>
      exact Nat.add_lt_add_left (Nat.lt_succ_of_le settles.effort) (board.effort setup)
  | forgo _ =>
      apply Nat.add_lt_add_left _ (board.effort setup)
      rw [Sequel.effort_stage, Point.effort]
      omega
  | claim _ =>
      apply Nat.add_lt_add_left _ (board.effort setup)
      simp [Task.effort, Point.effort]
  | print _ _ => exact Nat.add_lt_add_left (Nat.lt_succ_self _) (board.effort setup)
  | log =>
      apply Nat.add_lt_add_left _ (board.effort setup)
      rw [Sequel.effort_stage, Point.effort]
      omega
  | leave _ =>
      apply Nat.add_lt_add_left
      simp [Task.effort, Point.effort]
  | discard _ _ =>
      apply Nat.add_lt_add_left
      simp [Task.effort, Point.effort]
  | resume _ =>
      apply Nat.add_lt_add_left
      simp [Task.effort, Point.effort]
  | keep _ =>
      apply Nat.add_lt_add_left
      simp [Task.effort, Point.effort]
  | known _ _ _ =>
      apply Nat.add_lt_add_left
      simp [Task.effort, Point.effort]
  | @discover state block _ fresh =>
      have larger : (board.visited.insert block).size = board.visited.size + 1 := by
        simp [VisitedSet.size_insert, fresh]
      have bound := VisitedSet.size_le (board.visited.insert block)
      have fewer : Block.number layout.bytes - board.visited.size =
          Block.number layout.bytes - (board.visited.insert block).size + 1 := by omega
      simp only [Board.effort, Task.effort, Point.effort, fewer, Nat.add_mul,
        Nat.one_mul]
      omega
  | progress _ => exact Nat.add_lt_add_left (Nat.lt_succ_self _) (board.effort setup)
  | quiet _ => exact Nat.add_lt_add_left (Nat.lt_succ_self _) _

namespace Crew

theorem Step.effort_lt
    {crew next : Crew layout}
    {events : List (Event layout.bytes)}
    (step : Step setup crew events next) :
    next.effort setup < crew.effort setup := by
  cases step with
  | take =>
      simp only [effort, Multiset.map_cons, Multiset.sum_cons, Multiset.card_cons,
        Task.effort,
        Task.ofState, Point.effort, Agenda.length, Setup.stateEffort, Nat.add_mul,
        Nat.one_mul]
      omega
  | advance moved =>
      have lowered := (Point.advances moved).effort
      simp only [effort, Multiset.map_cons, Multiset.sum_cons]
      simp only [Task.effort] at lowered ⊢
      omega
  | push =>
      simp only [effort, Multiset.map_cons, Multiset.sum_cons, Multiset.card_cons,
        Task.effort, Point.effort, Nat.add_mul, Nat.one_mul]
      omega
  | finish =>
      simp only [effort, Multiset.map_cons, Multiset.sum_cons, Task.effort]
      omega

/-- No crew goes on forever. -/
theorem step_wellFounded (setup : Setup layout) :
    WellFounded fun next crew : Crew layout => ∃ events, Step setup crew events next :=
  Subrelation.wf (fun ⟨_, step⟩ => step.effort_lt)
    (InvImage.wf (effort setup) Nat.lt_wfRel.wf)

/-- A grounded crew with something left to do has a step. -/
theorem Grounded.step_of_not_idle
    (sound : setup.model.NeverBreaches)
    (built : layout.Built)
    {crew : Crew layout}
    (grounded : crew.Grounded setup)
    (busy : ¬crew.Idle) :
    ∃ events next, Step setup crew events next := by
  obtain ⟨board, waiting, tasks⟩ := crew
  by_cases none : tasks = 0
  · subst none
    have some : waiting ≠ 0 := fun empty => busy ⟨empty, rfl⟩
    obtain ⟨state, member⟩ := Multiset.exists_mem_of_ne_zero some
    obtain ⟨others, rfl⟩ := Multiset.exists_cons_of_mem member
    exact ⟨_, ⟨board, others, Task.ofState setup state (.empty _) ::ₘ 0⟩, .take⟩
  · obtain ⟨task, member⟩ := Multiset.exists_mem_of_ne_zero none
    obtain ⟨others, rfl⟩ := Multiset.exists_cons_of_mem member
    exact grounded.step sound built

/-- A grounded crew can be brought to its end from wherever it is. -/
theorem Grounded.completes
    (sound : setup.model.NeverBreaches)
    (built : layout.Built)
    {crew : Crew layout}
    (grounded : crew.Grounded setup) :
    ∃ last, Reaches setup crew last ∧ last.Idle := by
  induction crew using (step_wellFounded setup).induction with
  | _ crew inductionHypothesis =>
      by_cases idle : crew.Idle
      · exact ⟨crew, .refl crew, idle⟩
      · obtain ⟨events, next, step⟩ := grounded.step_of_not_idle sound built idle
        obtain ⟨last, reaches, ended⟩ :=
          inductionHypothesis next ⟨events, step⟩ (step.grounded sound built grounded)
        exact ⟨last, step.reaches.trans reaches, ended⟩

end Crew
end StateSpace
