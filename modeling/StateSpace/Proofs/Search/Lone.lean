import StateSpace.Proofs.Queue.Items
import StateSpace.Proofs.Search.Crew

/-!
# Searches as walks of a lone task

A search is a crew whose only task does one thing after the other. An operation
of a search that succeeds is the walk of this task, which has the board and the
queue to itself. Nothing is assumed about the callables: they
may break preconditions where the operation does not come to them. A walk can
be repeated in a crew, and by a worker of a pool.
-/

namespace StateSpace

variable {layout : Layout}

/-- A task with the board and the queue that it works on. -/
structure Lone (layout : Layout) where
  board : Board layout
  queue : WorkQueue (State layout.bytes)
  task : Task layout

namespace Lone

/-- A step of a task that pushes to a given shard. -/
inductive Step
    (setup : Setup layout)
    (shard : Nat) :
    Lone layout → List (Event layout.bytes) → Lone layout → Prop
  | advance
      {board advanced : Board layout}
      {queue : WorkQueue (State layout.bytes)}
      {agenda : Agenda layout}
      {recycler : Recycler layout.bytes}
      {point : Point layout}
      {task : Task layout}
      {queued : Nat}
      (moved : point.advance setup queued agenda recycler board =
        .ok (task, advanced)) :
      Step setup shard ⟨board, queue, ⟨agenda, recycler, .active point⟩⟩
        (point.events setup) ⟨advanced, queue, task⟩
  | push
      {board : Board layout}
      {queue pushed : WorkQueue (State layout.bytes)}
      {agenda : Agenda layout}
      {recycler : Recycler layout.bytes}
      {state : State layout.bytes}
      {size waiting : Nat}
      (ok : queue.push state shard = .ok (waiting, pushed)) :
      Step setup shard ⟨board, queue, ⟨agenda, recycler, .push state size⟩⟩ []
        ⟨board, pushed, ⟨agenda, recycler, .active (.announce size)⟩⟩

/-- Some steps lead from one situation of a task to another. -/
def Walks
    (setup : Setup layout)
    (shard : Nat)
    (first last : Lone layout) : Prop :=
  ∃ history, Execution (Step setup shard) first history last

variable {setup : Setup layout} {shard : Nat}

theorem Walks.refl (lone : Lone layout) : Walks setup shard lone lone :=
  ⟨[], .refl⟩

theorem Walks.trans
    {first middle last : Lone layout}
    (before : Walks setup shard first middle)
    (after : Walks setup shard middle last) :
    Walks setup shard first last := by
  obtain ⟨earlier, run⟩ := before
  obtain ⟨later, further⟩ := after
  exact ⟨earlier ++ later, run.trans further⟩

theorem Step.walks
    {first last : Lone layout}
    {events : List (Event layout.bytes)}
    (step : Step setup shard first events last) :
    Walks setup shard first last :=
  ⟨events, .single step⟩

/-- A step of a lone task is a step of it in a crew. -/
theorem Step.crew
    {first last : Lone layout}
    {events : List (Event layout.bytes)}
    (step : Step setup shard first events last)
    (others : Multiset (Task layout)) :
    Crew.Step setup ⟨first.board, first.queue.items, first.task ::ₘ others⟩ events
      ⟨last.board, last.queue.items, last.task ::ₘ others⟩ := by
  cases step with
  | advance moved => exact .advance moved
  | push ok =>
      rw [(WorkQueue.items_of_push ok).1]
      exact .push

/-- A walk can be repeated in a crew. -/
theorem Walks.crew
    {first last : Lone layout}
    (walks : Walks setup shard first last)
    (others : Multiset (Task layout)) :
    Crew.Reaches setup ⟨first.board, first.queue.items, first.task ::ₘ others⟩
      ⟨last.board, last.queue.items, last.task ::ₘ others⟩ := by
  obtain ⟨history, run⟩ := walks
  induction run with
  | refl => exact .refl _
  | step _ step inductionHypothesis =>
    exact inductionHypothesis.trans (step.crew others).reaches

end Lone

/-! ## Discoveries -/

/-- A state whose canonical block is new is discovered. -/
theorem Point.advance_offer
    {state : State layout.bytes}
    {block : Block layout.bytes}
    {board : Board layout}
    (canonical : setup.canonical state.block = .ok block)
    (unseen : board.visited.contains block = false)
    (queued : Nat)
    (agenda : Agenda layout)
    (recycler : Recycler layout.bytes) :
    (Point.offer state).advance setup queued agenda recycler board =
      .ok (⟨agenda, recycler,
          .push ⟨block, state.ancestors⟩ (board.visited.insert block).size⟩,
        { board with visited := board.visited.insert block }) := by
  simp only [Point.advance, canonical]
  exact if_neg (by simp [unseen])

/-- No progress is due between two multiples of the interval. -/
theorem Point.advance_announce
    {size : Nat}
    (early : size % setup.config.progressInterval ≠ 0)
    (queued : Nat)
    (agenda : Agenda layout)
    (recycler : Recycler layout.bytes)
    (board : Board layout) :
    (Point.announce size).advance setup queued agenda recycler board =
      .ok (⟨agenda, recycler, .active .attempt⟩, board) := by
  simp only [Point.advance, if_neg early]
  rfl

namespace Search

/-- A search whose task has the board and the queue to itself. -/
def lone
    (search : Search layout)
    (task : Task layout) : Lone layout :=
  ⟨search.board, search.queue, task⟩

/-- A search as a crew with the given tasks. -/
def crew
    (search : Search layout)
    (tasks : Multiset (Task layout)) : Crew layout :=
  ⟨search.board, search.queue.items, tasks⟩

/-- Where a task goes on after an attempt. -/
def proceed
    (setup : Setup layout)
    (search : Search layout) : Stage layout :=
  if search.isExhausted setup then .ended else .active .attempt

variable {setup : Setup layout} {shard : Nat}

theorem isExhausted_board (search : Search layout) :
    search.board.isExhausted setup = search.isExhausted setup := rfl

theorem proceed_of_room
    {search : Search layout}
    (room : search.isExhausted setup = false) :
    search.proceed setup = .active .attempt := by
  rw [proceed, room]
  rfl

theorem seed_of_exhausted
    {search : Search layout}
    {starts : List (StartState layout.bytes)}
    (exhausted : search.isExhausted setup = true) :
    search.seed setup starts = .ok search := by
  cases starts with
  | nil => rfl
  | cons => exact if_pos exhausted

/-! ## Faults -/

/-- What is discovered, what waits and the storage are as before. -/
structure Frame (search reported : Search layout) : Prop where
  visited : reported.visited = search.visited
  queue : reported.queue = search.queue
  recycler : reported.recycler = search.recycler

theorem Frame.refl (search : Search layout) : search.Frame search :=
  ⟨rfl, rfl, rfl⟩

theorem addFault_frame
    {record : FaultRecord}
    {state : State layout.bytes}
    {traceable : Bool}
    {search reported : Search layout}
    (ok : search.addFault setup record state traceable = .ok reported) :
    search.Frame reported := by
  unfold addFault at ok
  split at ok
  · cases ok
    exact .refl search
  · obtain ⟨trace, -, ok⟩ := bind_eq_ok.mp ok
    obtain ⟨dump, -, ok⟩ := bind_eq_ok.mp ok
    cases ok
    exact ⟨rfl, rfl, rfl⟩

theorem addRaised_frame
    {fault : Fault}
    {context : String}
    {state : State layout.bytes}
    {traceable : Bool}
    {search reported : Search layout}
    (ok : search.addRaised setup fault context state traceable = .ok reported) :
    search.Frame reported := by
  unfold addRaised at ok
  split at ok
  · exact addFault_frame ok
  · cases ok
    exact .refl search

/-- A fault that is reported while there is room for it. -/
theorem addFault_walks
    {record : FaultRecord}
    {state : State layout.bytes}
    {traceable : Bool}
    {search reported : Search layout}
    (ok : search.addFault setup record state traceable = .ok reported)
    (room : search.isExhausted setup = false)
    (shard : Nat)
    (agenda : Agenda layout)
    (recycler : Recycler layout.bytes)
    (sequel : Sequel layout) :
    Lone.Walks setup shard
      (search.lone ⟨agenda, recycler, .active (.raise record state traceable sequel)⟩)
      (reported.lone ⟨agenda, recycler, sequel.stage⟩) := by
  simp only [addFault, room] at ok
  obtain ⟨trace, rendered, ok⟩ := bind_eq_ok.mp ok
  obtain ⟨dump, dumped, ok⟩ := bind_eq_ok.mp ok
  cases ok
  let raised : Board layout := { search.board with raised := search.faults.size + 1 }
  let printed : Board layout :=
    { raised with report := search.report.add (.fault record trace dump) }
  have raises :
    (Point.raise record state traceable sequel).advance setup 0 agenda recycler
        search.board =
      .ok (⟨agenda, recycler, .active (.print record state traceable sequel)⟩,
        raised) := by
    simp only [Point.advance, isExhausted_board, room]
    rfl
  have prints :
    (Point.print record state traceable sequel).advance setup 0 agenda recycler
        raised =
      .ok (⟨agenda, recycler, .active (.log record sequel)⟩, printed) := by
    simp only [Point.advance, rendered, bind, Except.bind, dumped]
    rfl
  have logs : (Point.log record sequel).advance setup 0 agenda recycler printed =
      .ok (⟨agenda, recycler, sequel.stage⟩,
        board { search with
          faults := search.faults.push record
          report := search.report.add (.fault record trace dump) }) := by
    simp only [Point.advance, board, Array.size_push]
    rfl
  exact (Lone.Step.advance raises).walks.trans
    ((Lone.Step.advance prints).walks.trans (Lone.Step.advance logs).walks)

/-- Once a fault is dealt with, a task goes on if there is room for more. -/
theorem proceed_walks
    (search : Search layout)
    (shard : Nat)
    (agenda : Agenda layout)
    (recycler : Recycler layout.bytes) :
    Lone.Walks setup shard (search.lone ⟨agenda, recycler, .active (.weigh none)⟩)
      (search.lone ⟨agenda, recycler, search.proceed setup⟩) := by
  have weighed : (Point.weigh none).advance setup 0 agenda recycler search.board =
      .ok (⟨agenda, recycler, search.proceed setup⟩, search.board) := by
    by_cases spent : search.isExhausted setup = true
    · rw [proceed, if_pos spent]
      exact if_pos spent
    · rw [proceed, if_neg spent]
      exact if_neg spent
  exact (Lone.Step.advance weighed).walks

/-- The fault of a callable that is reported while there is room for it, unless
it is a failed assumption. -/
theorem addRaised_walks
    {fault : Fault}
    {context : String}
    {state : State layout.bytes}
    {traceable : Bool}
    {search reported : Search layout}
    (ok : search.addRaised setup fault context state traceable = .ok reported)
    (room : search.isExhausted setup = false)
    (shard : Nat)
    (agenda : Agenda layout)
    (recycler : Recycler layout.bytes) :
    Lone.Walks setup shard
      (search.lone ⟨agenda, recycler,
        .afterFault (FaultRecord.ofFault? fault context) state traceable⟩)
      (reported.lone ⟨agenda, recycler, reported.proceed setup⟩) := by
  unfold addRaised at ok
  cases recorded : FaultRecord.ofFault? fault context with
  | none =>
      rw [recorded] at ok
      cases ok
      exact search.proceed_walks shard agenda recycler
  | some record =>
      rw [recorded] at ok
      exact (addFault_walks ok room shard agenda recycler (.weigh none)).trans
        (reported.proceed_walks shard agenda recycler)

/-! ## Candidates -/

theorem discard_eq_ok
    {block : Block layout.bytes}
    {search discarded : Search layout}
    (ok : search.discard block = .ok discarded) :
    ∃ freed, search.recycler.free block = .ok freed ∧
      discarded = { search with recycler := freed } := by
  obtain ⟨freed, given, ok⟩ := bind_eq_ok.mp ok
  cases ok
  exact ⟨freed, liftBreach_eq_ok.mp given, rfl⟩

/-- A state whose canonical block is new is kept, without a progress line between two
multiples of the interval. -/
theorem keep_of_new
    {shard waiting : Nat}
    {state : State layout.bytes}
    {block : Block layout.bytes}
    {search : Search layout}
    {pushed : WorkQueue (State layout.bytes)}
    (canonical : setup.canonical state.block = .ok block)
    (unseen : search.visited.contains block = false)
    (pushes : search.queue.push ⟨block, state.ancestors⟩ shard = .ok (waiting, pushed))
    (early : (search.visited.size + 1) % setup.config.progressInterval ≠ 0) :
    search.keep setup shard state =
      .ok { search with visited := search.visited.insert block, queue := pushed } := by
  have size : (search.visited.insert block).size = search.visited.size + 1 := by
    simp [VisitedSet.size_insert, unseen]
  refine bind_eq_ok.mpr ⟨block, liftBreach_eq_ok.mpr canonical, ?_⟩
  refine (if_neg (by simp [unseen])).trans ?_
  refine bind_eq_ok.mpr ⟨_, liftBreach_eq_ok.mpr pushes, congrArg Except.ok ?_⟩
  unfold noteProgress
  exact if_neg (size ▸ early)

/-- A search that has kept a state has room for faults as before, and its task
has offered the state. -/
theorem keep_walks
    {state : State layout.bytes}
    {search kept : Search layout}
    (ok : search.keep setup shard state = .ok kept) :
    kept.isExhausted setup = search.isExhausted setup ∧
      ∀ agenda, Lone.Walks setup shard
        (search.lone ⟨agenda, search.recycler, .active (.offer state)⟩)
        (kept.lone ⟨agenda, kept.recycler, .active .attempt⟩) := by
  obtain ⟨block, canonical, ok⟩ := bind_eq_ok.mp ok
  have found := liftBreach_eq_ok.mp canonical
  split at ok
  · rename_i seen
    obtain ⟨freed, given, rfl⟩ := discard_eq_ok ok
    refine ⟨rfl, fun agenda => ?_⟩
    have offered :
      (Point.offer state).advance setup 0 agenda search.recycler search.board =
        .ok (⟨agenda, freed, .active .attempt⟩, search.board) := by
      simp only [Point.advance, found]
      refine (if_pos seen).trans ?_
      simp only [given]
      rfl
    exact (Lone.Step.advance offered).walks
  · rename_i unseen
    obtain ⟨⟨waiting, pushed⟩, pushes, ok⟩ := bind_eq_ok.mp ok
    cases ok
    let larger : Search layout :=
      { search with visited := search.visited.insert block, queue := pushed }
    have noted : (larger.noteProgress setup).queue = pushed ∧
        (larger.noteProgress setup).recycler = search.recycler ∧
        (larger.noteProgress setup).faults = search.faults := by
      unfold noteProgress
      split <;> exact ⟨rfl, rfl, rfl⟩
    refine ⟨by rw [isExhausted, noted.2.2]; rfl, fun agenda => ?_⟩
    have offered :
      (Point.offer state).advance setup 0 agenda search.recycler search.board =
        .ok (⟨agenda, search.recycler,
          .push ⟨block, state.ancestors⟩ larger.visited.size⟩,
          { search.board with visited := larger.visited }) :=
      Point.advance_offer found (by simpa [board] using unseen) 0 agenda search.recycler
    have announced :
      (Point.announce larger.visited.size).advance setup pushed.length agenda
          search.recycler { search.board with visited := larger.visited } =
        .ok (⟨agenda, search.recycler, .active .attempt⟩,
          (larger.noteProgress setup).board) := by
      simp only [Point.advance, noteProgress]
      split <;> rfl
    rw [lone, lone, noted.1, noted.2.1]
    exact (Lone.Step.advance offered).walks.trans
      ((Lone.Step.push (liftBreach_eq_ok.mp pushes)).walks.trans
        (Lone.Step.advance announced).walks)

/-- What an attempt left is recorded as the task settles it. -/
theorem record_walks
    (search : Search layout)
    (firing : Firing layout)
    {recorded : Search layout}
    (ok : search.record setup shard firing.context firing.blamed firing.state
      firing.traceable firing.judgement = .ok recorded)
    (room : search.isExhausted setup = false)
    (agenda : Agenda layout) :
    ∃ task, firing.settle agenda search.recycler = .ok task ∧
      Lone.Walks setup shard (search.lone task)
        (recorded.lone ⟨agenda, recorded.recycler, recorded.proceed setup⟩) := by
  unfold record at ok
  unfold Firing.settle
  cases judged : firing.judgement with
  | rejected fault =>
      rw [judged] at ok
      obtain ⟨reported, raised, ok⟩ := bind_eq_ok.mp ok
      obtain ⟨freed, given, rfl⟩ := discard_eq_ok ok
      rw [(addRaised_frame raised).recycler] at given
      exact ⟨_, by simp only [given]; rfl,
        addRaised_walks raised room shard agenda freed⟩
  | infeasible =>
      rw [judged] at ok
      obtain ⟨freed, given, rfl⟩ := discard_eq_ok ok
      refine ⟨_, by simp only [given]; rfl, ?_⟩
      rw [show ({ search with recycler := freed } : Search layout).proceed setup = _ from
        proceed_of_room room]
      exact .refl _
  | violated violation =>
      rw [judged] at ok
      obtain ⟨reported, added, ok⟩ := bind_eq_ok.mp ok
      have same := (addFault_frame added).recycler
      have walks := addFault_walks added room shard agenda search.recycler
      refine ⟨_, rfl, (walks (.weigh (some firing.state))).trans ?_⟩
      cases more : reported.isExhausted setup with
      | true =>
          rw [if_pos more] at ok
          obtain ⟨freed, given, rfl⟩ := discard_eq_ok ok
          rw [same] at given
          have weighed : (Point.weigh (some firing.state)).advance setup 0 agenda
                search.recycler reported.board =
              .ok (⟨agenda, freed, .ended⟩, reported.board) := by
            simp only [Point.advance, isExhausted_board, more, given]
            rfl
          rw [show ({ reported with recycler := freed } : Search layout).proceed
            setup = .ended from if_pos more]
          exact (Lone.Step.advance weighed).walks
      | false =>
          rw [if_neg (by simp [more])] at ok
          obtain ⟨roomy, keeps⟩ := keep_walks ok
          have weighed : (Point.weigh (some firing.state)).advance setup 0 agenda
                search.recycler reported.board =
              .ok (⟨agenda, reported.recycler, .active (.offer firing.state)⟩,
                reported.board) := by
            simp only [Point.advance, isExhausted_board, more, same]
            rfl
          rw [proceed_of_room (roomy.trans more)]
          exact (Lone.Step.advance weighed).walks.trans (keeps agenda)
  | accepted =>
      rw [judged] at ok
      obtain ⟨roomy, keeps⟩ := keep_walks ok
      refine ⟨_, rfl, ?_⟩
      rw [proceed_of_room (roomy.trans room)]
      exact keeps agenda

/-! ## Seeding and expansion -/

/-- The outcome of a rule is recorded as the task of its state goes through it. -/
theorem recordRule_walks
    {origin : State layout.bytes}
    {rule : Rule layout.bytes}
    {outcome : RuleOutcome layout.bytes}
    {search recorded : Search layout}
    (attempted : setup.model.attemptRuleOn setup.policy origin.block
      (search.recycler.allocCopy origin.block).1 rule = .ok outcome)
    (ok : search.recordRule setup shard origin rule outcome = .ok recorded)
    (room : search.isExhausted setup = false)
    (stuck : Bool)
    (rest : List (Rule layout.bytes)) :
    Lone.Walks setup shard
      (search.lone
        ⟨.rules origin stuck (rule :: rest), search.recycler, .active .attempt⟩)
      (recorded.lone ⟨.rules origin (stuck && !isProgress outcome) rest,
        recorded.recycler, recorded.proceed setup⟩) := by
  have moves : ∀ {task : Task layout},
      (Agenda.rules origin stuck (rule :: rest)).attempt setup search.recycler =
        .ok task →
      Lone.Walks setup shard
        (search.lone
          ⟨.rules origin stuck (rule :: rest), search.recycler, .active .attempt⟩)
        (search.lone task) := by
    intro task ok
    have moved : (Point.attempt).advance setup 0 (.rules origin stuck (rule :: rest))
        search.recycler search.board = .ok (task, search.board) := by
      simp only [Point.advance, ok]
      rfl
    exact (Lone.Step.advance moved).walks
  simp only [Agenda.attempt, attempted] at moves
  cases outcome with
  | disabled =>
      cases ok
      simp only [proceed_of_room room, isProgress, Bool.not_false, Bool.and_true]
      exact moves rfl
  | guardFault fault =>
      simp only [isProgress, Bool.not_false, Bool.and_true,
        (addRaised_frame ok).recycler]
      exact (moves rfl).trans (addRaised_walks ok room _ _ _)
  | candidate candidate =>
      let allocated : Search layout := { search with
        recycler := (search.recycler.allocCopy origin.block).2
        rulesFired := search.rulesFired + candidate.completed.toNat }
      obtain ⟨task, settled, walks⟩ :=
        allocated.record_walks (.ofRule origin rule candidate) ok room
          (.rules origin false rest)
      simp only [isProgress, Bool.not_true, Bool.and_false]
      refine Lone.Walks.trans ?_ walks
      by_cases completed : candidate.completed = true
      · have counted : (Point.count (.ofRule origin rule candidate)).advance setup 0
              (.rules origin false rest) allocated.recycler search.board =
            .ok (task, allocated.board) := by
          simp only [Point.advance, settled]
          simp only [allocated, board, completed, Bool.toNat_true]
          rfl
        exact (moves (if_pos completed)).trans (Lone.Step.advance counted).walks
      · have same : allocated.lone task = search.lone task := by
          simp [allocated, lone, board, completed]
        rw [same]
        exact moves ((if_neg completed).trans settled)

/-- An expansion is the walk of the task of its state. -/
theorem fireRules_walks
    {origin : State layout.bytes}
    {stuck : Bool}
    {rules : List (Rule layout.bytes)}
    {search fired : Search layout}
    (ok : search.fireRules setup shard origin stuck rules = .ok fired)
    (room : search.isExhausted setup = false) :
    ∃ agenda, Lone.Walks setup shard
      (search.lone ⟨.rules origin stuck rules, search.recycler, .active .attempt⟩)
      (fired.lone ⟨agenda, fired.recycler, .ended⟩) := by
  induction rules generalizing search stuck with
  | nil =>
      refine ⟨.rules origin false [], ?_⟩
      have moved :
        (Point.attempt).advance setup 0 (.rules origin stuck []) search.recycler
            search.board =
          .ok (⟨.rules origin false [], search.recycler,
            if stuck && setup.config.deadlockDetection then
              .active (.raise Setup.deadlockRecord origin true .leave)
            else .ended⟩, search.board) := rfl
      refine (Lone.Step.advance moved).walks.trans ?_
      unfold fireRules addDeadlock at ok
      cases stuck with
      | false =>
          cases ok
          exact .refl _
      | true =>
          cases detected : setup.config.deadlockDetection with
          | false =>
              rw [detected] at ok
              cases ok
              exact .refl _
          | true =>
              rw [detected] at ok
              rw [(addFault_frame ok).recycler]
              exact addFault_walks ok room _ _ _ .leave
  | cons rule rest inductionHypothesis =>
      obtain ⟨outcome, attempted, ok⟩ := bind_eq_ok.mp ok
      obtain ⟨recorded, recording, ok⟩ := bind_eq_ok.mp ok
      have walks :=
        recordRule_walks (liftBreach_eq_ok.mp attempted) recording room stuck rest
      cases more : recorded.isExhausted setup with
      | true =>
          rw [if_pos more] at ok
          cases ok
          rw [proceed, if_pos more] at walks
          exact ⟨_, walks⟩
      | false =>
          rw [if_neg (by simp [more])] at ok
          rw [proceed_of_room more] at walks
          obtain ⟨agenda, further⟩ := inductionHypothesis ok more
          exact ⟨agenda, walks.trans further⟩

/-- The outcome of a start state is recorded as the first task goes through
it. -/
theorem recordStart_walks
    {start : StartState layout.bytes}
    {candidate : Candidate layout.bytes}
    {search recorded : Search layout}
    (attempted : setup.model.attemptStartOn setup.policy
      search.recycler.allocZeroed.1 start = .ok candidate)
    (ok : Search.record setup shard ("startstate " ++ start.name)
      (.ofBlock candidate.block)
      (.ofBlock candidate.block) false candidate.judgement
      { search with recycler := search.recycler.allocZeroed.2 } = .ok recorded)
    (room : search.isExhausted setup = false)
    (rest : List (StartState layout.bytes)) :
    Lone.Walks setup shard
      (search.lone ⟨.starts (start :: rest), search.recycler, .active .attempt⟩)
      (recorded.lone ⟨.starts rest, recorded.recycler, recorded.proceed setup⟩) := by
  obtain ⟨task, settled, walks⟩ :=
    record_walks _ (.ofStart start candidate) ok room (.starts rest)
  have moved : (Point.attempt).advance setup 0 (.starts (start :: rest)) search.recycler
      search.board = .ok (task, search.board) := by
    simp only [Point.advance, Agenda.attempt, attempted]
    exact congrArg (· >>= fun next => pure (next, search.board)) settled
  exact (Lone.Step.advance moved).walks.trans walks

/-! ## Crews -/

/-- What a search begins with. -/
theorem start_eq_ok
    {start : Search layout}
    (ok : Search.start setup = .ok start) :
    ∃ queue : WorkQueue (State layout.bytes),
      queue.items = 0 ∧ queue.shardCount = setup.workers ∧
        start = ⟨.empty, queue, .empty layout.bytes, 0, #[], {}⟩ := by
  obtain ⟨queue, made, ok⟩ := bind_eq_ok.mp ok
  obtain ⟨zeroed, -, ok⟩ := bind_eq_ok.mp ok
  cases ok
  obtain ⟨items, shards⟩ := WorkQueue.items_ofShardCount made
  refine ⟨queue, items, ?_, rfl⟩
  rw [shards]
  exact Nat.max_eq_left (Nat.le_max_right ..)

/-- A search that begins holds the crew of a run that begins. -/
theorem start_crew
    {start : Search layout}
    (ok : Search.start setup = .ok start) :
    start.recycler = .empty layout.bytes ∧
      (∀ tasks, start.crew tasks = ⟨Crew.emptyBoard layout, 0, tasks⟩) ∧
      start.isExhausted setup = decide (setup.config.maxErrors = 0) := by
  obtain ⟨queue, items, -, rfl⟩ := start_eq_ok ok
  refine ⟨rfl, fun tasks => ?_, ?_⟩
  · rw [crew, items]
    rfl
  · simp [isExhausted]

theorem ended_reaches
    (search : Search layout)
    (agenda : Agenda layout)
    (recycler : Recycler layout.bytes) :
    Crew.Reaches setup (search.crew {⟨agenda, recycler, .ended⟩}) (search.crew 0) :=
  Crew.Step.finish.reaches

/-- The expansion of a state that was taken from the queue is what a task of its
own does in a crew. -/
theorem expand_reaches
    {search expanded : Search layout}
    {state : State layout.bytes}
    {rest : WorkQueue (State layout.bytes)}
    (items : search.queue.items = state ::ₘ rest.items)
    (ok : Search.expand setup shard state { search with queue := rest } = .ok expanded)
    (room : search.isExhausted setup = false) :
    Crew.Reaches setup (search.crew 0) (expanded.crew 0) := by
  obtain ⟨agenda, walks⟩ := fireRules_walks ok room
  have took : Crew.Reaches setup (search.crew 0)
      (crew { search with queue := rest }
        {Task.ofState setup state search.recycler}) := by
    rw [crew, items]
    exact Crew.Step.take.reaches
  exact took.trans ((walks.crew 0).trans (ended_reaches _ _ _))

/-! ## How an exploration goes on -/

section

variable {preferred source : Nat} {search : Search layout}

theorem explore_of_exhausted
    (exhausted : search.isExhausted setup = true) :
    search.explore setup shard preferred = .ok search := by
  rw [explore, if_pos exhausted]
  rfl

theorem explore_of_empty
    (room : search.isExhausted setup = false)
    (empty : search.queue.pop? preferred = none) :
    search.explore setup shard preferred = .ok search := by
  rw [explore, if_neg (by simp [room])]
  split
  · rfl
  · rename_i taken
    cases empty.symm.trans taken

theorem explore_of_taken
    {state : State layout.bytes}
    {rest : WorkQueue (State layout.bytes)}
    (room : search.isExhausted setup = false)
    (taken : search.queue.pop? preferred = some (state, source, rest)) :
    search.explore setup shard preferred =
      { search with queue := rest }.expand setup shard state >>= fun next =>
        next.explore setup shard source := by
  rw [explore, if_neg (by simp [room])]
  split
  · rename_i missing
    cases taken.symm.trans missing
  · rename_i other origin remaining again
    cases taken.symm.trans again
    split
    · rename_i error failed
      rw [failed]
      rfl
    · rename_i next expanded
      conv_rhs => rw [expanded]
      rfl

end

end Search
end StateSpace
