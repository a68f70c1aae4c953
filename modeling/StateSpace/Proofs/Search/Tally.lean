import StateSpace.Proofs.Search.Ledger

/-!
# Once for every discovered block

A discovered block is pushed once, taken once and finished once. A crew and
its history keep count: the discovered blocks are those about to be pushed,
those that wait and those that were taken, and the taken ones are those under
way and those that are finished. Nothing is assumed about the callables.
-/

namespace StateSpace

variable {layout : Layout} {setup : Setup layout}

/-- The blocks that were taken in a history. -/
def takenBlocks
    {size : Nat}
    (history : List (Event size)) : Multiset (Block size) :=
  history.filterMap fun
    | .taken state => some state.block
    | _ => none

/-- The blocks whose expansion was finished in a history. -/
def finishedBlocks
    {size : Nat}
    (history : List (Event size)) : Multiset (Block size) :=
  history.filterMap fun
    | .finished state => some state.block
    | _ => none

theorem takenBlocks_append
    {size : Nat}
    (earlier later : List (Event size)) :
    takenBlocks (earlier ++ later) = takenBlocks earlier + takenBlocks later := by
  simp [takenBlocks, List.filterMap_append, ← Multiset.coe_add]

theorem finishedBlocks_append
    {size : Nat}
    (earlier later : List (Event size)) :
    finishedBlocks (earlier ++ later) =
      finishedBlocks earlier + finishedBlocks later := by
  simp [finishedBlocks, List.filterMap_append, ← Multiset.coe_add]

/-- The block that a task expands. -/
def Agenda.origins : Agenda layout → Multiset (Block layout.bytes)
  | .starts _ => 0
  | .rules origin _ _ => {origin.block}

/-- The block that a task is about to push. -/
def Stage.handed : Stage layout → Multiset (Block layout.bytes)
  | .push state _ => {state.block}
  | _ => 0

@[simp] theorem Stage.handed_active (point : Point layout) :
    (Stage.active point).handed = 0 := rfl

@[simp] theorem Stage.handed_push
    (state : State layout.bytes)
    (size : Nat) :
    (Stage.push state size).handed = {state.block} := rfl

@[simp] theorem Stage.handed_ended : (Stage.ended : Stage layout).handed = 0 := rfl

/-- A crew and its history account for every discovered block. -/
structure Crew.Tallied
    (history : List (Event layout.bytes))
    (crew : Crew layout) : Prop where
  discovered : crew.board.visited.blocks.val =
    (crew.tasks.map fun task => task.stage.handed).sum +
      crew.waiting.map State.block + takenBlocks history
  taken : takenBlocks history =
    (crew.tasks.map fun task => task.agenda.origins).sum + finishedBlocks history

/-! ## Steps keep the tally -/

theorem Stage.handed_afterFault
    (record? : Option FaultRecord)
    (blamed : State layout.bytes)
    (traceable : Bool) :
    (Stage.afterFault record? blamed traceable).handed = 0 := by
  cases record? <;> rfl

theorem Sequel.handed_stage (sequel : Sequel layout) :
    sequel.stage.handed = 0 := by
  cases sequel <;> rfl

/-- A task that settles a firing hands nothing over and keeps its agenda. -/
theorem Firing.Settles.hands
    {firing : Firing layout}
    {agenda : Agenda layout}
    {recycler : Recycler layout.bytes}
    {task : Task layout}
    (settles : firing.Settles agenda recycler task) :
    task.stage.handed = 0 ∧ task.agenda = agenda := by
  cases settles with
  | rejected _ _ => exact ⟨Stage.handed_afterFault .., rfl⟩
  | infeasible _ _ => exact ⟨rfl, rfl⟩
  | violated _ => exact ⟨rfl, rfl⟩
  | accepted _ => exact ⟨rfl, rfl⟩

theorem Agenda.Attempts.hands
    {agenda : Agenda layout}
    {recycler : Recycler layout.bytes}
    {task : Task layout}
    (attempts : agenda.Attempts setup recycler task) :
    task.stage.handed = 0 ∧ task.agenda.origins = agenda.origins := by
  cases attempts with
  | started => exact ⟨rfl, rfl⟩
  | start _ settles =>
      obtain ⟨handed, kept⟩ := settles.hands
      exact ⟨handed, by rw [kept]; rfl⟩
  | deadlocked _ => exact ⟨rfl, rfl⟩
  | expanded _ => exact ⟨rfl, rfl⟩
  | disabled _ => exact ⟨rfl, rfl⟩
  | guardFault _ => exact ⟨Stage.handed_afterFault .., rfl⟩
  | completed _ _ => exact ⟨rfl, rfl⟩
  | faulted _ _ settles =>
      obtain ⟨handed, kept⟩ := settles.hands
      exact ⟨handed, by rw [kept]; rfl⟩

/-- A point keeps the block that its task expands, and discovers exactly what
the task is about to push then. -/
theorem Point.Advances.hands
    {queued : Nat}
    {agenda : Agenda layout}
    {recycler : Recycler layout.bytes}
    {board advanced : Board layout}
    {point : Point layout}
    {task : Task layout}
    (advances : point.Advances setup queued agenda recycler board task advanced) :
    task.agenda.origins = agenda.origins ∧
      advanced.visited.blocks.val = task.stage.handed + board.visited.blocks.val := by
  cases advances with
  | attempt attempts =>
      obtain ⟨handed, origins⟩ := attempts.hands
      exact ⟨origins, by rw [handed, zero_add]⟩
  | count settles =>
      obtain ⟨handed, kept⟩ := settles.hands
      exact ⟨by rw [kept], by rw [handed, zero_add]⟩
  | forgo _ => exact ⟨rfl, by rw [Sequel.handed_stage, zero_add]⟩
  | claim _ => exact ⟨rfl, (zero_add _).symm⟩
  | print _ _ => exact ⟨rfl, (zero_add _).symm⟩
  | log => exact ⟨rfl, by rw [Sequel.handed_stage, zero_add]⟩
  | leave _ => exact ⟨rfl, (zero_add _).symm⟩
  | discard _ _ => exact ⟨rfl, (zero_add _).symm⟩
  | resume _ => exact ⟨rfl, (zero_add _).symm⟩
  | keep _ => exact ⟨rfl, (zero_add _).symm⟩
  | known _ _ _ => exact ⟨rfl, (zero_add _).symm⟩
  | @discover state block _ fresh =>
      refine ⟨rfl, ?_⟩
      have absent : block ∉ board.visited.blocks := by simpa using fresh
      rw [VisitedSet.blocks_insert, Finset.insert_val_of_notMem absent]
      rfl
  | progress _ => exact ⟨rfl, (zero_add _).symm⟩
  | quiet _ => exact ⟨rfl, (zero_add _).symm⟩

namespace Crew

theorem Step.tallied
    {crew next : Crew layout}
    {history events : List (Event layout.bytes)}
    (step : Step setup crew events next)
    (tallied : crew.Tallied history) :
    next.Tallied (history ++ events) := by
  obtain ⟨discovered, taken⟩ := tallied
  cases step with
  | @take board waiting tasks state recycler =>
      have now : takenBlocks [Event.taken state] = {state.block} := rfl
      have none : finishedBlocks [Event.taken state] = 0 := rfl
      constructor
      · rw [takenBlocks_append, now]
        simp only [Multiset.map_cons, Multiset.sum_cons] at discovered ⊢
        rw [discovered, ← Multiset.singleton_add]
        simp only [Task.ofState, Stage.handed_active]
        abel
      · rw [takenBlocks_append, finishedBlocks_append, now, none, taken]
        simp only [Multiset.map_cons, Multiset.sum_cons, Task.ofState, Agenda.origins]
        abel
  | @advance board advanced waiting tasks agenda recycler point task queued moved =>
      have silent : takenBlocks (point.events setup) = 0 ∧
          finishedBlocks (point.events setup) = 0 := by
        unfold Point.events
        split
        · split <;> exact ⟨rfl, rfl⟩
        · exact ⟨rfl, rfl⟩
      obtain ⟨origins, gained⟩ := (Point.advances moved).hands
      constructor
      · rw [takenBlocks_append, silent.1, add_zero]
        simp only [Multiset.map_cons, Multiset.sum_cons, Stage.handed_active]
          at discovered ⊢
        rw [gained, discovered]
        abel
      · rw [takenBlocks_append, finishedBlocks_append, silent.1, silent.2, taken]
        simp only [Multiset.map_cons, Multiset.sum_cons, origins, add_zero]
  | push =>
      refine ⟨?_, ?_⟩
      · rw [List.append_nil]
        simp only [Multiset.map_cons, Multiset.sum_cons, Stage.handed_push,
          Stage.handed_active] at discovered ⊢
        rw [discovered, ← Multiset.singleton_add]
        abel
      · rw [List.append_nil, taken]
        simp only [Multiset.map_cons, Multiset.sum_cons]
  | @finish board waiting tasks agenda recycler =>
      have closing : takenBlocks agenda.closing = 0 ∧
          finishedBlocks agenda.closing = agenda.origins := by
        cases agenda <;> exact ⟨rfl, rfl⟩
      constructor
      · rw [takenBlocks_append, closing.1, add_zero]
        simpa only [Multiset.map_cons, Multiset.sum_cons, Stage.handed_ended, zero_add]
          using discovered
      · rw [takenBlocks_append, finishedBlocks_append, closing.1, closing.2, taken]
        simp only [Multiset.map_cons, Multiset.sum_cons]
        abel

theorem Run.tallied
    {first last : Crew layout}
    {history : List (Event layout.bytes)}
    (run : Run setup first history last)
    (tallied : first.Tallied []) :
    last.Tallied history :=
  run.invariant Tallied Step.tallied tallied

/-- When nothing is left to do, every discovered block was taken and finished
once, and no other block. -/
theorem Tallied.once
    {history : List (Event layout.bytes)}
    {crew : Crew layout}
    (tallied : crew.Tallied history)
    (idle : crew.Idle)
    (block : Block layout.bytes) :
    (takenBlocks history).count block =
        (if crew.board.visited.contains block then 1 else 0) ∧
      (finishedBlocks history).count block =
        if crew.board.visited.contains block then 1 else 0 := by
  have taken : crew.board.visited.blocks.val = takenBlocks history := by
    simpa [idle.waiting, idle.tasks] using tallied.discovered
  have finished : takenBlocks history = finishedBlocks history := by
    simpa [idle.tasks] using tallied.taken
  rw [← finished, ← taken]
  simp [Multiset.count_eq_of_nodup crew.board.visited.blocks.nodup]

end Crew
end StateSpace
