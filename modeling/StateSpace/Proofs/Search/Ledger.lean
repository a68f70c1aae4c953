import StateSpace.Proofs.Search.Moves
import StateSpace.Proofs.Search.Yield

/-!
# The ledger of a crew

What a crew has yielded so far and what its tasks and waiting states still owe
add up to what the start states and the discovered blocks yield. Every step
keeps this sum; only used up room for faults writes something off.
-/

namespace StateSpace

variable {layout : Layout}

/-! ## What tasks owe -/

/-- What an agenda yields. -/
def Agenda.owed
    (setup : Setup layout) : Agenda layout → Yield layout
  | .starts rest => (rest.map setup.startYield).sum
  | .rules origin stuck rest => setup.rulesYield origin.block stuck rest

/-- What going on with a firing yields. -/
def Firing.owed
    (setup : Setup layout)
    (firing : Firing layout) : Yield layout :=
  setup.judgementYield firing.context firing.state.block firing.judgement

/-- What keeping a violating state yields, if there is one to keep. -/
def keptOwed
    (setup : Setup layout) : Option (State layout.bytes) → Yield layout
  | some state => setup.keptYield state.block
  | none => 0

/-- What follows a reported fault yields. -/
def Sequel.owed
    (setup : Setup layout)
    (agenda : Agenda layout) : Sequel layout → Yield layout
  | .weigh kept => keptOwed setup kept + agenda.owed setup
  | .leave => 0

/-- What a task yields from a point on. -/
def Point.owed
    (setup : Setup layout)
    (agenda : Agenda layout) : Point layout → Yield layout
  | .attempt => agenda.owed setup
  | .count firing => Yield.firing + firing.owed setup + agenda.owed setup
  | .raise record _ _ sequel =>
    Yield.ofRecord (some record) + sequel.owed setup agenda
  | .print record _ _ sequel =>
    Yield.ofRecord (some record) + sequel.owed setup agenda
  | .log record sequel =>
    Yield.ofRecord (some record) + sequel.owed setup agenda
  | .weigh kept => keptOwed setup kept + agenda.owed setup
  | .offer state => setup.keptYield state.block + agenda.owed setup
  | .announce _ => agenda.owed setup

/-- What a task still yields. A state in its hands counts in full. -/
def Task.owed
    (setup : Setup layout)
    (task : Task layout) : Yield layout :=
  match task.stage with
  | .active point => point.owed setup task.agenda
  | .push state _ => setup.blockYield state.block + task.agenda.owed setup
  | .ended => 0

/-- The offered blocks of a history. -/
def offers
    {size : Nat}
    (history : List (Event size)) : List (Block size) :=
  history.filterMap fun
    | .offered block => some block
    | _ => none

@[simp] theorem offers_append
    {size : Nat}
    (earlier later : List (Event size)) :
    offers (earlier ++ later) = offers earlier ++ offers later :=
  List.filterMap_append

/-- What a board and a history show to have been yielded. -/
def Board.given
    (board : Board layout)
    (history : List (Event layout.bytes)) : Yield layout :=
  (board.faults.toList, board.rulesFired, offers history)

theorem Board.given_append
    (board : Board layout)
    (history : List (Event layout.bytes))
    {events : List (Event layout.bytes)}
    (silent : offers events = []) :
    board.given (history ++ events) = board.given history := by
  simp only [Board.given, offers_append, silent, List.append_nil]

theorem Board.given_offered
    (board : Board layout)
    (history : List (Event layout.bytes))
    (block : Block layout.bytes) :
    board.given (history ++ [.offered block]) =
      board.given history + Yield.offer block := by
  simp only [Board.given, offers_append, Yield.offer, Prod.mk_add_mk, add_zero,
    ← Multiset.coe_add]
  rfl

theorem Board.given_counted
    (board : Board layout)
    (history : List (Event layout.bytes)) :
    Board.given { board with rulesFired := board.rulesFired + 1 } history =
      board.given history + Yield.firing := by
  simp [Board.given, Yield.firing]

theorem Board.given_logged
    (board : Board layout)
    (history : List (Event layout.bytes))
    (record : FaultRecord) :
    Board.given { board with faults := board.faults.push record } history =
      board.given history + Yield.ofRecord (some record) := by
  simp [Board.given, Yield.ofRecord, ← Multiset.coe_add]

/-- The blocks of a visited set as a finite set. -/
def VisitedSet.blocks
    {size : Nat}
    (visited : VisitedSet (Block size)) : Finset (Block size) :=
  visited.items.toList.toFinset

@[simp] theorem VisitedSet.mem_blocks
    {size : Nat}
    {visited : VisitedSet (Block size)}
    {block : Block size} :
    block ∈ visited.blocks ↔ visited.contains block = true := by
  rw [VisitedSet.blocks, List.mem_toFinset, Std.HashSet.mem_toList,
    VisitedSet.contains, Std.HashSet.contains_iff_mem]

@[simp] theorem VisitedSet.blocks_empty
    {size : Nat} :
    (VisitedSet.empty : VisitedSet (Block size)).blocks = ∅ := by
  ext block
  simp

theorem VisitedSet.card_blocks
    {size : Nat}
    (visited : VisitedSet (Block size)) :
    visited.blocks.card = visited.size := by
  have distinct : visited.items.toList.Nodup := by
    refine Std.HashSet.distinct_toList.imp ?_
    intro left right apart equal
    subst equal
    simp at apart
  rw [VisitedSet.blocks, List.toFinset_card_of_nodup distinct,
    Std.HashSet.length_toList]
  rfl

theorem VisitedSet.blocks_insert
    {size : Nat}
    (visited : VisitedSet (Block size))
    (block : Block size) :
    (visited.insert block).blocks = Insert.insert block visited.blocks := by
  ext other
  rw [VisitedSet.mem_blocks, VisitedSet.contains_insert, Finset.mem_insert,
    VisitedSet.mem_blocks, Bool.or_eq_true, beq_iff_eq, eq_comm]

/-- What the start states and the discovered blocks yield. -/
def Board.due
    (setup : Setup layout)
    (board : Board layout) : Yield layout :=
  setup.seedYield + ∑ block ∈ board.visited.blocks, setup.blockYield block

/-- What was given, what is owed by tasks and waiting states, and what was
written off make up what is due. Nothing is written off while there is room
for faults. -/
def Crew.Balanced
    (setup : Setup layout)
    (history : List (Event layout.bytes))
    (crew : Crew layout) : Prop :=
  ∃ lost : Yield layout,
    crew.board.given history +
        (crew.tasks.map (Task.owed setup)).sum +
        (crew.waiting.map fun state => setup.blockYield state.block).sum + lost =
      crew.board.due setup ∧
    (crew.board.isExhausted setup = false → lost = 0)

/-! ## Steps keep the balance -/

variable {setup : Setup layout}

theorem Stage.owed_afterFault
    (agenda : Agenda layout)
    (recycler : Recycler layout.bytes)
    (record? : Option FaultRecord)
    (blamed : State layout.bytes)
    (traceable : Bool) :
    (⟨agenda, recycler, .afterFault record? blamed traceable⟩ : Task layout).owed setup =
      Yield.ofRecord record? + agenda.owed setup := by
  cases record? with
  | none => simp [Stage.afterFault, Task.owed, Point.owed, keptOwed]
  | some record =>
      simp [Stage.afterFault, Task.owed, Point.owed, Sequel.owed, keptOwed]

theorem Firing.Settles.owed
    {firing : Firing layout}
    {agenda : Agenda layout}
    {recycler : Recycler layout.bytes}
    {task : Task layout}
    (settles : firing.Settles agenda recycler task) :
    task.owed setup = firing.owed setup + agenda.owed setup := by
  unfold Firing.owed
  cases settles with
  | rejected judged _ =>
      rw [judged]
      exact Stage.owed_afterFault ..
  | infeasible judged _ =>
      rw [judged]
      simp [Task.owed, Point.owed, Setup.judgementYield]
  | violated judged =>
      rw [judged]
      simp [Task.owed, Point.owed, Sequel.owed, keptOwed,
        Setup.judgementYield, add_assoc]
  | accepted judged =>
      rw [judged]
      simp [Task.owed, Point.owed, Setup.judgementYield]

theorem Agenda.Attempts.owed
    {agenda : Agenda layout}
    {recycler : Recycler layout.bytes}
    {task : Task layout}
    (attempts : agenda.Attempts setup recycler task) :
    task.owed setup = agenda.owed setup := by
  cases attempts with
  | started => simp [Task.owed, Agenda.owed]
  | start attempted settles =>
      rw [settles.owed]
      simp [Agenda.owed, Firing.owed, Firing.ofStart, Setup.startYield, attempted,
        State.ofBlock]
  | deadlocked found =>
      simp [Task.owed, Point.owed, Sequel.owed, Agenda.owed, Setup.rulesYield,
        Setup.deadlockYield, found]
  | expanded clear =>
      simp [Task.owed, Agenda.owed, Setup.rulesYield, Setup.deadlockYield, clear]
  | disabled attempted =>
      simp [Task.owed, Point.owed, Agenda.owed, Setup.rulesYield_cons, Setup.ruleYield,
        Setup.makesProgress, attempted, Search.isProgress]
  | guardFault attempted =>
      rw [Stage.owed_afterFault]
      simp [Agenda.owed, Setup.rulesYield_cons, Setup.ruleYield, Setup.makesProgress,
        attempted, Search.isProgress]
  | completed attempted whole =>
      simp [Task.owed, Point.owed, Agenda.owed, Firing.owed, Firing.ofRule,
        Setup.rulesYield_cons, Setup.ruleYield, Setup.makesProgress, attempted,
        Search.isProgress, State.successor, whole]
  | faulted attempted partly settles =>
      rw [settles.owed]
      simp [Agenda.owed, Firing.owed, Firing.ofRule, Setup.rulesYield_cons,
        Setup.ruleYield, Setup.makesProgress, attempted, Search.isProgress,
        State.successor, partly]

theorem Sequel.owed_stage
    (agenda : Agenda layout)
    (recycler : Recycler layout.bytes)
    (sequel : Sequel layout) :
    (⟨agenda, recycler, sequel.stage⟩ : Task layout).owed setup =
      sequel.owed setup agenda := by
  cases sequel <;> rfl

/-- A point gives what it no longer owes, or writes it off because there is no
room for faults left. -/
theorem Point.Advances.owed
    {queued : Nat}
    {agenda : Agenda layout}
    {recycler : Recycler layout.bytes}
    {board advanced : Board layout}
    {point : Point layout}
    {task : Task layout}
    (advances : point.Advances setup queued agenda recycler board task advanced)
    (history : List (Event layout.bytes)) :
    ∃ lost : Yield layout,
      advanced.given (history ++ point.events setup) + task.owed setup + lost +
          board.due setup =
        board.given history + point.owed setup agenda + advanced.due setup ∧
      (advanced.isExhausted setup = false → lost = 0) := by
  cases advances with
  | attempt attempts =>
      refine ⟨0, ?_, fun _ => rfl⟩
      rw [attempts.owed]
      simp [Point.events, Point.owed]
  | count settles =>
      refine ⟨0, ?_, fun _ => rfl⟩
      have due : Board.due setup { board with rulesFired := board.rulesFired + 1 } =
        board.due setup := rfl
      rw [settles.owed, due]
      simp only [Point.events, List.append_nil, Board.given_counted, Point.owed]
      abel
  | @forgo record state traceable sequel exhausted =>
      have due : Board.due setup { board with raised := board.raised + 1 } =
        board.due setup := rfl
      have given : Board.given { board with raised := board.raised + 1 } history =
        board.given history := rfl
      refine ⟨Yield.ofRecord (some record), ?_, ?_⟩
      · rw [due, Sequel.owed_stage]
        simp only [Point.events, List.append_nil, Point.owed]
        rw [given]
        abel
      · simp only [Board.isExhausted, decide_eq_true_eq, decide_eq_false_iff_not]
          at exhausted ⊢
        omega
  | claim _ =>
      refine ⟨0, ?_, fun _ => rfl⟩
      simp [Point.events, Task.owed, Point.owed, Board.given, Board.due]
  | print _ _ =>
      refine ⟨0, ?_, fun _ => rfl⟩
      simp [Point.events, Point.owed, Task.owed, Board.given, Board.due]
  | @log record sequel =>
      refine ⟨0, ?_, fun _ => rfl⟩
      have due : Board.due setup { board with faults := board.faults.push record } =
        board.due setup := rfl
      rw [due, Sequel.owed_stage]
      simp only [Point.events, List.append_nil, Board.given_logged, Point.owed]
      abel
  -- A task that is cut short writes off all that it still owes.
  | leave exhausted =>
      refine ⟨agenda.owed setup, ?_, fun room => ?_⟩
      · simp [Point.events, Point.owed, Task.owed, keptOwed]
      · cases exhausted.symm.trans room
  | @discard state _ exhausted _ =>
      refine ⟨keptOwed setup (some state) + agenda.owed setup, ?_, fun room => ?_⟩
      · simp [Point.events, Point.owed, Task.owed]
      · cases exhausted.symm.trans room
  | resume _ =>
      refine ⟨0, ?_, fun _ => rfl⟩
      simp [Point.events, Task.owed, Point.owed, keptOwed]
  | keep _ =>
      refine ⟨0, ?_, fun _ => rfl⟩
      simp [Point.events, Task.owed, Point.owed, keptOwed]
  | known canonical seen _ =>
      refine ⟨0, ?_, fun _ => rfl⟩
      simp only [Point.events, canonical, Point.owed, Setup.keptYield]
      rw [Board.given_offered]
      simp [Task.owed, Point.owed, add_assoc]
  | @discover state block canonical fresh =>
      refine ⟨0, ?_, fun _ => rfl⟩
      simp only [Point.events, canonical, Point.owed, Setup.keptYield]
      have given : Board.given
            { board with visited := board.visited.insert block }
            (history ++ [.offered block]) =
          board.given history + Yield.offer block := Board.given_offered ..
      have due : Board.due setup
            { board with visited := board.visited.insert block } =
          board.due setup + setup.blockYield block := by
        simp only [Board.due, VisitedSet.blocks_insert]
        rw [Finset.sum_insert (by simp [fresh])]
        abel
      rw [given, due]
      simp only [Task.owed]
      abel
  | progress _ =>
      refine ⟨0, ?_, fun _ => rfl⟩
      simp [Point.events, Task.owed, Point.owed, Board.given, Board.due]
  | quiet _ =>
      refine ⟨0, ?_, fun _ => rfl⟩
      simp [Point.events, Task.owed, Point.owed]

/-! ## Room for faults -/

/-- The number of faults for which a task has claimed room and that it has not
recorded yet. -/
def Task.recording (task : Task layout) : Nat :=
  match task.stage with
  | .active (.print ..) => 1
  | .active (.log ..) => 1
  | _ => 0

/-- The recorded faults and those about to be recorded fill the room for
faults up to the number of raised ones. -/
def Crew.Budgeted
    (setup : Setup layout)
    (crew : Crew layout) : Prop :=
  crew.board.faults.size + (crew.tasks.map Task.recording).sum =
    min crew.board.raised setup.config.maxErrors

theorem Stage.recording_afterFault
    (agenda : Agenda layout)
    (recycler : Recycler layout.bytes)
    (record? : Option FaultRecord)
    (blamed : State layout.bytes)
    (traceable : Bool) :
    (⟨agenda, recycler, .afterFault record? blamed traceable⟩ : Task layout).recording =
      0 := by
  cases record? <;> rfl

theorem Firing.Settles.recording
    {firing : Firing layout}
    {agenda : Agenda layout}
    {recycler : Recycler layout.bytes}
    {task : Task layout}
    (settles : firing.Settles agenda recycler task) :
    task.recording = 0 := by
  cases settles with
  | rejected _ _ => exact Stage.recording_afterFault ..
  | infeasible _ _ => rfl
  | violated _ => rfl
  | accepted _ => rfl

theorem Agenda.Attempts.recording
    {agenda : Agenda layout}
    {recycler : Recycler layout.bytes}
    {task : Task layout}
    (attempts : agenda.Attempts setup recycler task) :
    task.recording = 0 := by
  cases attempts with
  | started => rfl
  | start _ settles => exact settles.recording
  | deadlocked _ => rfl
  | expanded _ => rfl
  | disabled _ => rfl
  | guardFault _ => exact Stage.recording_afterFault ..
  | completed _ _ => rfl
  | faulted _ _ settles => exact settles.recording

theorem Sequel.recording_stage
    (agenda : Agenda layout)
    (recycler : Recycler layout.bytes)
    (sequel : Sequel layout) :
    (⟨agenda, recycler, sequel.stage⟩ : Task layout).recording = 0 := by
  cases sequel <;> rfl

/-- A point claims room for at most one fault, and records what it has claimed
room for. -/
theorem Point.Advances.budget
    {queued : Nat}
    {agenda : Agenda layout}
    {recycler : Recycler layout.bytes}
    {board advanced : Board layout}
    {point : Point layout}
    {task : Task layout}
    (advances : point.Advances setup queued agenda recycler board task advanced) :
    board.raised ≤ advanced.raised ∧
      advanced.faults.size + task.recording + min board.raised setup.config.maxErrors =
        board.faults.size +
          (⟨agenda, recycler, .active point⟩ : Task layout).recording +
            min advanced.raised setup.config.maxErrors := by
  cases advances with
  | attempt attempts =>
      rw [attempts.recording]
      simp [Task.recording]
  | count settles =>
      rw [settles.recording]
      simp [Task.recording]
  | forgo exhausted =>
      rw [Sequel.recording_stage]
      simp only [Board.isExhausted, decide_eq_true_eq] at exhausted
      simp only [Task.recording]
      omega
  | claim room =>
      simp only [Board.isExhausted, decide_eq_false_iff_not] at room
      simp only [Task.recording]
      omega
  | print _ _ => simp [Task.recording]
  | log =>
      rw [Sequel.recording_stage]
      simp [Task.recording]
  | leave _ => simp [Task.recording]
  | discard _ _ => simp [Task.recording]
  | resume _ => simp [Task.recording]
  | keep _ => simp [Task.recording]
  | known _ _ _ => simp [Task.recording]
  | discover _ _ => simp [Task.recording]
  | progress _ => simp [Task.recording]
  | quiet _ => simp [Task.recording]

/-- The room for faults is never given back. -/
theorem Point.Advances.exhausted
    {queued : Nat}
    {agenda : Agenda layout}
    {recycler : Recycler layout.bytes}
    {board advanced : Board layout}
    {point : Point layout}
    {task : Task layout}
    (advances : point.Advances setup queued agenda recycler board task advanced)
    (spent : board.isExhausted setup = true) :
    advanced.isExhausted setup = true := by
  have raised := advances.budget.1
  simp only [Board.isExhausted, decide_eq_true_eq] at spent ⊢
  omega

theorem Point.Advances.room
    {queued : Nat}
    {agenda : Agenda layout}
    {recycler : Recycler layout.bytes}
    {board advanced : Board layout}
    {point : Point layout}
    {task : Task layout}
    (advances : point.Advances setup queued agenda recycler board task advanced)
    (room : advanced.isExhausted setup = false) :
    board.isExhausted setup = false :=
  Bool.eq_false_iff.mpr fun spent =>
    Bool.false_ne_true (room.symm.trans (advances.exhausted spent))

namespace Crew

theorem Step.budgeted
    {crew next : Crew layout}
    {events : List (Event layout.bytes)}
    (step : Step setup crew events next)
    (budgeted : crew.Budgeted setup) :
    next.Budgeted setup := by
  unfold Budgeted at budgeted ⊢
  cases step with
  | advance moved =>
      have kept := (Point.advances moved).budget.2
      simp only [Multiset.map_cons, Multiset.sum_cons] at budgeted ⊢
      omega
  | take => simpa [Task.ofState, Task.recording] using budgeted
  | push => simpa [Task.recording] using budgeted
  | finish => simpa [Task.recording] using budgeted

theorem Step.balanced
    {crew next : Crew layout}
    {history events : List (Event layout.bytes)}
    (step : Step setup crew events next)
    (balanced : crew.Balanced setup history) :
    next.Balanced setup (history ++ events) := by
  obtain ⟨lost, balance, none_lost⟩ := balanced
  cases step with
  | @advance board advanced waiting tasks agenda recycler point task queued moved =>
      obtain ⟨more, kept, none_more⟩ := (Point.advances moved).owed history
      refine ⟨lost + more, ?_, ?_⟩
      · simp only [Multiset.map_cons, Multiset.sum_cons] at balance ⊢
        have owed : (⟨agenda, recycler, .active point⟩ : Task layout).owed setup =
          point.owed setup agenda := rfl
        rw [owed] at balance
        refine add_right_cancel (b := board.due setup) ?_
        generalize (tasks.map (Task.owed setup)).sum = others at balance ⊢
        generalize (waiting.map fun state => setup.blockYield state.block).sum = queued
          at balance ⊢
        calc
          advanced.given (history ++ point.events setup) + (task.owed setup + others) +
                queued + (lost + more) + board.due setup
            = advanced.given (history ++ point.events setup) + task.owed setup + more +
                board.due setup + (others + queued + lost) := by abel
          _ = board.given history + point.owed setup agenda + advanced.due setup +
                (others + queued + lost) := by rw [kept]
          _ = board.given history + (point.owed setup agenda + others) + queued + lost +
                advanced.due setup := by abel
          _ = advanced.due setup + board.due setup := by rw [balance, add_comm]
      · intro room
        rw [none_lost ((Point.advances moved).room room), none_more room, add_zero]
  | @take board waiting tasks state recycler =>
      refine ⟨lost, ?_, none_lost⟩
      have owed : (Task.ofState setup state recycler).owed setup =
        setup.blockYield state.block := rfl
      simp only [Multiset.map_cons, Multiset.sum_cons, owed] at balance ⊢
      rw [Board.given_append _ _ rfl, ← balance]
      abel
  | @push board waiting tasks agenda recycler state size =>
      refine ⟨lost, ?_, none_lost⟩
      simp only [Multiset.map_cons, Multiset.sum_cons, Task.owed, Point.owed,
        List.append_nil] at balance ⊢
      rw [← balance]
      abel
  | @finish board waiting tasks agenda recycler =>
      refine ⟨lost, ?_, none_lost⟩
      have silent : offers agenda.closing = [] := by cases agenda <;> rfl
      simp only [Multiset.map_cons, Multiset.sum_cons, Task.owed] at balance ⊢
      rw [Board.given_append _ _ silent, ← balance]
      abel

theorem Run.budgeted
    {first last : Crew layout}
    {history : List (Event layout.bytes)}
    (run : Run setup first history last)
    (budgeted : first.Budgeted setup) :
    last.Budgeted setup :=
  run.invariant (fun _ crew => crew.Budgeted setup) Step.budgeted budgeted

theorem Run.balanced
    {first last : Crew layout}
    {history : List (Event layout.bytes)}
    (run : Run setup first history last)
    (balanced : first.Balanced setup []) :
    last.Balanced setup history :=
  run.invariant (Balanced setup) Step.balanced balanced

theorem start_budgeted
    (setup : Setup layout)
    (recycler : Recycler layout.bytes) :
    (start setup recycler).Budgeted setup := by
  simp [Budgeted, start, emptyBoard, Task.seeding, Task.recording]

theorem start_balanced
    (setup : Setup layout)
    (recycler : Recycler layout.bytes) :
    (start setup recycler).Balanced setup [] := by
  refine ⟨0, ?_, fun _ => rfl⟩
  have undiscovered : (emptyBoard layout).visited.blocks = ∅ := VisitedSet.blocks_empty
  have given : (emptyBoard layout).given [] = 0 := rfl
  have owed : (Task.seeding setup recycler).owed setup = setup.seedYield := rfl
  simp only [start, Board.due, undiscovered, given]
  simp [owed]

/-- When nothing is left to do and there is room for faults, what was given is
what is due. -/
theorem Run.account
    {recycler : Recycler layout.bytes}
    {last : Crew layout}
    {history : List (Event layout.bytes)}
    (run : Run setup (start setup recycler) history last)
    (idle : last.Idle)
    (room : last.board.isExhausted setup = false) :
    last.board.given history = last.board.due setup := by
  obtain ⟨lost, balance, none_lost⟩ := run.balanced (start_balanced setup recycler)
  rw [idle.waiting, idle.tasks, none_lost room] at balance
  simpa using balance

end Crew
end StateSpace
