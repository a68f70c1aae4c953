import StateSpace.Proofs.Search.Outcome
import StateSpace.Proofs.Search.Tally
import StateSpace.Proofs.Workers.Pool
import StateSpace.Proofs.Workers.Seeding

/-!
# Nothing is left behind

A scan is not one step, so it can miss what is pushed behind it. But nobody
else pushes to the shard of a worker that scans, so the shard of a worker that
found it empty stays empty. When all workers have left after such scans,
nothing waits, and every discovered state was taken and expanded once.

The gate is open when the first worker has left, so no worker waits in vain.
-/

namespace StateSpace

section

variable {layout : Layout} {setup : Setup layout}

/-! ## What workers know -/

/-- What is true of the shared things when a worker has left for a reason. -/
def Exit.Justified
    (setup : Setup layout)
    (shared : Shared layout)
    (number : Nat) : Exit → Prop
  | .drained => (shared.queue.shardAt number).items = 0
  | .stopped => shared.board.isExhausted setup = true ∨ shared.aborted = true
  | .failed => shared.aborted = true
  | .unwound => True

/-- What is true of the shared things while a worker is at a place. -/
def Place.Sound
    (setup : Setup layout)
    (shared : Shared layout)
    (number : Nat) : Place layout → Prop
  | .parked => number ≠ 0
  | .scanning first visits =>
    ∀ step < visits, shared.queue.scanned first step = number →
      (shared.queue.shardAt number).items = 0
  | .alarming => shared.aborted = true
  | .leaving exit => exit.Justified setup shared number
  | .gone exit =>
    exit.Justified setup shared number ∧ (number = 0 → shared.gateOpen = true)
  | _ => True

/-- How other workers may change the shared things: the shard of this one gains
nothing, and no flag is taken back. -/
structure Shared.Respects
    (setup : Setup layout)
    (number : Nat)
    (shared changed : Shared layout) : Prop where
  shards : changed.queue.shardCount = shared.queue.shardCount
  shard : (shared.queue.shardAt number).items = 0 →
    (changed.queue.shardAt number).items = 0
  exhausted : shared.board.isExhausted setup = true →
    changed.board.isExhausted setup = true
  aborted : shared.aborted = true → changed.aborted = true
  gate : shared.gateOpen = true → changed.gateOpen = true

theorem Shared.Respects.refl
    (number : Nat)
    (shared : Shared layout) :
    shared.Respects setup number shared :=
  ⟨rfl, id, id, id, id⟩

theorem WorkQueue.scanned_congr
    {α : Type}
    {queue changed : WorkQueue α}
    (shards : changed.shardCount = queue.shardCount)
    (first step : Nat) :
    changed.scanned first step = queue.scanned first step := by
  rw [scanned, scanned, shards]

theorem Exit.Justified.mono
    {shared changed : Shared layout}
    {number : Nat}
    {exit : Exit}
    (justified : exit.Justified setup shared number)
    (respects : shared.Respects setup number changed) :
    exit.Justified setup changed number := by
  cases exit with
  | drained => exact respects.shard justified
  | stopped => exact justified.imp respects.exhausted respects.aborted
  | failed => exact respects.aborted justified
  | unwound => trivial

theorem Place.Sound.mono
    {shared changed : Shared layout}
    {number : Nat}
    {place : Place layout}
    (sound : place.Sound setup shared number)
    (respects : shared.Respects setup number changed) :
    place.Sound setup changed number := by
  cases place with
  | scanning first visits =>
      intro step visited own
      rw [WorkQueue.scanned_congr respects.shards] at own
      exact respects.shard (sound step visited own)
  | alarming => exact respects.aborted sound
  | leaving exit => exact Exit.Justified.mono sound respects
  | gone exit =>
    exact ⟨sound.1.mono respects, fun first => respects.gate (sound.2 first)⟩
  | parked => exact sound
  | _ => trivial

namespace Move

variable {shared changed : Shared layout}
  {worker next : Worker layout}
  {number : Nat}
  {events : List (Event layout.bytes)}

/-- A move respects the other workers, because it pushes to no shard but its
own. -/
theorem respects
    (move : Move setup number shared worker events changed next)
    {other : Nat}
    (apart : other ≠ number) :
    shared.Respects setup other changed := by
  cases move with
  | take taken =>
      obtain ⟨-, shards, emptied⟩ := WorkQueue.visit_eq_some taken
      exact ⟨shards, emptied other, id, id, id⟩
  | advance queued moved => exact ⟨rfl, id, (Point.advances moved).exhausted, id, id⟩
  | push ok =>
      refine ⟨(WorkQueue.items_of_push ok).2, ?_, id, id, id⟩
      rw [WorkQueue.shardAt_push ok apart]
      exact id
  | release => exact ⟨rfl, id, id, id, fun _ => rfl⟩
  | abort => exact ⟨rfl, id, id, fun _ => rfl, id⟩
  | alarm => exact ⟨rfl, id, id, id, fun _ => rfl⟩
  | leave =>
      refine ⟨rfl, id, id, id, ?_⟩
      intro opened
      simp only [opened, ite_self]
  | _ => exact .refl other shared

theorem shards
    (move : Move setup number shared worker events changed next) :
    changed.queue.shardCount = shared.queue.shardCount :=
  (move.respects (Nat.succ_ne_self number)).shards

end Move

/-- A scan visits every shard. -/
theorem WorkQueue.exists_scanned
    {α : Type}
    (queue : WorkQueue α)
    (first : Nat)
    {shard : Nat}
    (present : shard < queue.shardCount) :
    ∃ step < queue.shardCount, queue.scanned first step = shard := by
  obtain ⟨step, inside, reached⟩ :=
    List.mem_map.mp (queue.mem_scanOrder first ⟨shard, present⟩)
  exact ⟨step, List.mem_range.mp inside, congrArg Fin.val reached⟩

/-- A further visit that comes back with nothing extends what a scan knows. -/
theorem Place.Sound.visit
    {shared : Shared layout}
    {number first visits : Nat}
    (sound : (Place.scanning first visits : Place layout).Sound setup shared number)
    (missed : shared.queue.visit (shared.queue.scanned first visits) = none) :
    (Place.scanning first (visits + 1) : Place layout).Sound setup shared number := by
  intro step visited own
  rcases Nat.lt_succ_iff_lt_or_eq.mp visited with earlier | rfl
  · exact sound step earlier own
  · rw [← own]
    exact WorkQueue.visit_eq_none missed

/-- A move leaves its worker at a place that it can vouch for. -/
theorem Move.sound
    {shared changed : Shared layout}
    {worker next : Worker layout}
    {number : Nat}
    {events : List (Event layout.bytes)}
    (move : Move setup number shared worker events changed next)
    (present : number < shared.queue.shardCount)
    (sound : worker.place.Sound setup shared number) :
    next.place.Sound setup changed number := by
  cases move with
  | stop exhausted => exact .inl exhausted
  | halt aborted => exact .inr aborted
  | scan => exact fun step visited => absurd visited (Nat.not_lt_zero step)
  | miss missed => exact sound.visit missed
  | @drain recycler preferred first visits missed all =>
      obtain ⟨step, inside, own⟩ := shared.queue.exists_scanned first present
      exact sound.visit missed step (inside.trans_le all) own
  | finish => dsimp only; split <;> trivial
  | peek => dsimp only; split <;> trivial
  | compare => dsimp only; split <;> trivial
  | abort => exact rfl
  | alarm => exact sound
  | @leave recycler preferred exit =>
      refine ⟨Exit.Justified.mono sound ⟨rfl, id, id, id, ?_⟩, fun first => if_pos first⟩
      intro opened
      simp only [opened, ite_self]
  | _ => trivial

namespace Pool

variable {size : Nat}

/-- Every worker is at a place that it can vouch for, and has a shard. -/
structure Sound
    (setup : Setup layout)
    (pool : Pool layout size) : Prop where
  shards : pool.shared.queue.shardCount = size
  places : ∀ number, (pool.workers number).place.Sound setup pool.shared number

theorem Step.sound
    {pool next : Pool layout size}
    {events : List (Event layout.bytes)}
    (step : Step setup pool events next)
    (sound : pool.Sound setup) :
    next.Sound setup := by
  cases step with
  | @move number _ changed worker moved =>
      refine ⟨moved.shards.trans sound.shards, ?_⟩
      intro other
      by_cases same : other = number
      · subst same
        simp only [Function.update_self]
        exact moved.sound (by rw [sound.shards]; exact other.isLt) (sound.places other)
      · simp only [Function.update_of_ne same]
        exact (sound.places other).mono (moved.respects (Fin.val_ne_of_ne same))

theorem Run.sound
    {first last : Pool layout size}
    {history : List (Event layout.bytes)}
    (run : Run setup first history last)
    (sound : first.Sound setup) :
    last.Sound setup :=
  run.invariant (fun _ pool => pool.Sound setup) Step.sound sound

/-- A worker that is not done can move, unless it waits at a closed gate. -/
theorem exists_move
    (setup : Setup layout)
    {shared : Shared layout}
    {number : Nat}
    (present : number < shared.queue.shardCount)
    (worker : Worker layout)
    (active : ∀ exit, worker.place ≠ .gone exit)
    (admitted : worker.place = .parked → shared.gateOpen = true) :
    ∃ events changed next, Move setup number shared worker events changed next := by
  obtain ⟨recycler, preferred, place⟩ := worker
  cases place with
  | parked => exact ⟨_, _, _, .enter (admitted rfl)⟩
  | arriving =>
      cases room : shared.board.isExhausted setup with
      | true => exact ⟨_, _, _, .stop room⟩
      | false => exact ⟨_, _, _, .check room⟩
  | checking =>
      cases aborted : shared.aborted with
      | true => exact ⟨_, _, _, .halt aborted⟩
      | false => exact ⟨_, _, _, .scan aborted⟩
  | scanning first visits =>
      cases visited : shared.queue.visit (shared.queue.scanned first visits) with
      | some taken => exact ⟨_, _, _, .take visited⟩
      | none =>
          by_cases more : visits + 1 < shared.queue.shardCount
          · exact ⟨_, _, _, .miss visited more⟩
          · exact ⟨_, _, _, .drain visited (Nat.not_lt.mp more)⟩
  | expanding task =>
      obtain ⟨agenda, owned, stage⟩ := task
      cases stage with
      | active point =>
          cases moved : point.advance setup 0 agenda owned shared.board with
          | ok advanced => exact ⟨_, _, _, .advance 0 moved⟩
          | error error =>
              cases error with
              | check error => exact ⟨_, _, _, .fail 0 moved⟩
              | breach breach => exact ⟨_, _, _, .unwind 0 moved⟩
      | push state size =>
          obtain ⟨waiting, pushed, ok⟩ := shared.queue.push_ok state present
          exact ⟨_, _, _, .push ok⟩
      | ended => exact ⟨_, _, _, .finish⟩
  | peeking => exact ⟨_, _, _, .peek⟩
  | measuring shard queued =>
      by_cases more : shard < shared.queue.shardCount
      · exact ⟨_, _, _, .measure more⟩
      · exact ⟨_, _, _, .compare (Nat.not_lt.mp more)⟩
  | releasing => exact ⟨_, _, _, .release⟩
  | aborting => exact ⟨_, _, _, .abort⟩
  | alarming => exact ⟨_, _, _, .alarm⟩
  | leaving exit => exact ⟨_, _, _, .leave⟩
  | gone exit => exact absurd rfl (active exit)

/-! ## Pools as crews -/

end Pool

/-- The task of a worker, if it has one. -/
def Worker.tasks (worker : Worker layout) : Multiset (Task layout) :=
  match worker.place with
  | .expanding task => {task}
  | _ => 0

theorem Worker.tasks_ite
    {recycler : Recycler layout.bytes}
    {preferred : Nat}
    {condition : Prop}
    [Decidable condition]
    {left right : Place layout}
    (leftTasks : (⟨recycler, preferred, left⟩ : Worker layout).tasks = 0)
    (rightTasks : (⟨recycler, preferred, right⟩ : Worker layout).tasks = 0) :
    (⟨recycler, preferred, if condition then left else right⟩ : Worker layout).tasks =
      0 := by
  split <;> assumption

/-- A worker that fails leaves a task behind that it did not finish. -/
def Worker.HasFailed (worker : Worker layout) : Prop :=
  match worker.place with
  | .aborting => True
  | .alarming => True
  | .leaving exit => exit = .failed ∨ exit = .unwound
  | .gone exit => exit = .failed ∨ exit = .unwound
  | _ => False

/-- What a worker that has not failed does is nothing to its crew, or it is a
step of it. -/
theorem Move.crew_step
    {shared changed : Shared layout}
    {worker next : Worker layout}
    {number : Nat}
    {events : List (Event layout.bytes)}
    (move : Move setup number shared worker events changed next)
    (unfailed : ¬next.HasFailed)
    (others : Multiset (Task layout)) :
    (events = [] ∧
        (⟨changed.board, changed.queue.items, next.tasks + others⟩ : Crew layout) =
          ⟨shared.board, shared.queue.items, worker.tasks + others⟩) ∨
      Crew.Step setup ⟨shared.board, shared.queue.items, worker.tasks + others⟩ events
        ⟨changed.board, changed.queue.items, next.tasks + others⟩ := by
  cases move with
  | take taken =>
      right
      rw [(WorkQueue.visit_eq_some taken).1]
      simp only [Worker.tasks, zero_add, Multiset.singleton_add]
      exact .take
  | advance queued moved =>
      right
      simp only [Worker.tasks, Multiset.singleton_add]
      exact .advance moved
  | push ok =>
      right
      rw [(WorkQueue.items_of_push ok).1]
      simp only [Worker.tasks, Multiset.singleton_add]
      exact .push
  | finish =>
      right
      rw [Worker.tasks_ite rfl rfl, zero_add]
      exact .finish
  | fail => exact absurd trivial unfailed
  | unwind => exact absurd (.inr rfl) unfailed
  | peek => exact .inl ⟨rfl, by rw [Worker.tasks_ite rfl rfl]; rfl⟩
  | compare => exact .inl ⟨rfl, by rw [Worker.tasks_ite rfl rfl]; rfl⟩
  | _ => exact .inl ⟨rfl, rfl⟩

/-- A worker that has failed stays that way. -/
theorem Move.failed
    {shared changed : Shared layout}
    {worker next : Worker layout}
    {number : Nat}
    {events : List (Event layout.bytes)}
    (move : Move setup number shared worker events changed next)
    (failed : worker.HasFailed) :
    next.HasFailed := by
  cases move with
  | abort => trivial
  | alarm => exact .inl rfl
  | leave => exact failed
  | _ => cases failed

namespace Pool

variable {size : Nat}

/-- The crew of a pool: a worker has its task while it expands a state. -/
def crew (pool : Pool layout size) : Crew layout :=
  ⟨pool.shared.board, pool.shared.queue.items, ∑ number, (pool.workers number).tasks⟩

theorem tasks_update
    (workers : Fin size → Worker layout)
    (number : Fin size) :
    ∃ others, ∑ other, (workers other).tasks = (workers number).tasks + others ∧
      ∀ worker, ∑ other, (Function.update workers number worker other).tasks =
        worker.tasks + others := by
  refine ⟨∑ other ∈ Finset.univ.erase number, (workers other).tasks, ?_, ?_⟩
  · exact (Finset.add_sum_erase _ _ (Finset.mem_univ number)).symm
  · intro worker
    rw [← Finset.add_sum_erase _ _ (Finset.mem_univ number), Function.update_self]
    refine congrArg (worker.tasks + ·) (Finset.sum_congr rfl ?_)
    intro other apart
    rw [Function.update_of_ne (Finset.ne_of_mem_erase apart)]

theorem Step.crew_step
    {pool next : Pool layout size}
    {events : List (Event layout.bytes)}
    (step : Step setup pool events next)
    (unfailed : ∀ number, ¬(next.workers number).HasFailed) :
    (events = [] ∧ next.crew = pool.crew) ∨
      Crew.Step setup pool.crew events next.crew := by
  cases step with
  | @move number _ changed worker moved =>
      obtain ⟨others, before, after⟩ := tasks_update pool.workers number
      have sane := unfailed number
      simp only [Function.update_self] at sane
      simp only [crew, before, after]
      exact moved.crew_step sane others

theorem Step.failed
    {pool next : Pool layout size}
    {events : List (Event layout.bytes)}
    (step : Step setup pool events next)
    (number : Fin size)
    (failed : (pool.workers number).HasFailed) :
    (next.workers number).HasFailed := by
  cases step with
  | @move mover _ changed worker moved =>
      by_cases same : number = mover
      · subst same
        simp only [Function.update_self]
        exact moved.failed failed
      · simpa only [Function.update_of_ne same] using failed

/-- What a pool does in which no worker has failed is a run of its crew. -/
theorem Run.crew_run
    {first last : Pool layout size}
    {history : List (Event layout.bytes)}
    (run : Run setup first history last)
    (unfailed : ∀ number, ¬(last.workers number).HasFailed) :
    Crew.Run setup first.crew history last.crew := by
  induction run with
  | refl => exact .refl
  | step _ step inductionHypothesis =>
      have earlier := inductionHypothesis fun number failed =>
        unfailed number (step.failed number failed)
      rcases step.crew_step unfailed with ⟨rfl, same⟩ | crewStep
      · rw [List.append_nil, same]
        exact earlier
      · exact .step earlier crewStep

/-! ## The end of a pool -/

/-- A search that went through the start states of its setup. -/
def Seeded
    (setup : Setup layout)
    (seeded : Search layout) : Prop :=
  ∃ start, Search.start setup = .ok start ∧
    start.seed setup setup.model.startStates = .ok seeded

/-- A start state that leaves a zeroed block, and is the only one, is queued. -/
theorem Seeded.of_zero
    {queue pushed : WorkQueue (State layout.bytes)}
    {start : StartState layout.bytes}
    {waiting : Nat}
    (room : 0 < setup.config.maxErrors)
    (early : 1 % setup.config.progressInterval ≠ 0)
    (started : Search.start setup = .ok ⟨.empty, queue, .empty layout.bytes, 0, #[], {}⟩)
    (starts : setup.model.startStates = [start])
    (begins : setup.model.attemptStartOn setup.policy
      (Recycler.empty layout.bytes).allocZeroed.1 start =
        .ok ⟨.zero layout.bytes, true, .accepted⟩)
    (canonical : setup.canonical (.zero layout.bytes) = .ok (.zero layout.bytes))
    (pushes : queue.push (.ofBlock (.zero layout.bytes)) 0 = .ok (waiting, pushed)) :
    Seeded setup
      ⟨.insert .empty (.zero layout.bytes), pushed, ⟨none, 1, 0⟩, 0, #[], {}⟩ := by
  refine ⟨_, started, ?_⟩
  let allocated : Search layout := ⟨.empty, queue, ⟨none, 1, 0⟩, 0, #[], {}⟩
  have kept : allocated.keep setup 0 (.ofBlock (.zero layout.bytes)) =
      .ok ⟨.insert .empty (.zero layout.bytes), pushed, ⟨none, 1, 0⟩, 0, #[], {}⟩ :=
    Search.keep_of_new canonical (VisitedSet.contains_empty _) pushes
      (by rwa [show allocated.visited.size = 0 from VisitedSet.size_empty])
  rw [starts, Search.seed, if_neg (by simp [Search.isExhausted]; omega)]
  refine bind_eq_ok.mpr ⟨_, liftBreach_eq_ok.mpr begins, bind_eq_ok.mpr ⟨_, ?_, rfl⟩⟩
  simp only [VisitedSet.size_empty, Nat.zero_mod]
  exact kept

theorem Seeded.start_sound
    {seeded : Search layout}
    (seeding : Seeded setup seeded) :
    (start setup seeded).Sound setup where
  shards := by
    obtain ⟨start, begun, seeds⟩ := seeding
    exact (Search.seed_extends seeds).shards.trans (Search.start_accounted begun).1
  places := by
    intro number
    by_cases first : number.val = 0
    · simp only [start, newcomer, first, if_true]
      trivial
    · simp only [start, newcomer, first, if_false]
      exact first

theorem Seeded.start_tallied
    {seeded : Search layout}
    (seeding : Seeded setup seeded) :
    (start setup seeded).crew.Tallied [] := by
  obtain ⟨start, begun, seeds⟩ := seeding
  have accounted :=
    (Search.seed_extends seeds).accounted (Search.start_accounted begun).2
  have each : ∀ number ∈ Finset.univ,
      ((Pool.start setup seeded).workers number).tasks = 0 :=
    fun number _ => Worker.tasks_ite rfl rfl
  have tasks : (Pool.start setup seeded).crew.tasks = 0 := Finset.sum_eq_zero each
  have none : takenBlocks ([] : List (Event layout.bytes)) = 0 := rfl
  refine ⟨?_, ?_⟩
  · rw [tasks, none, Multiset.map_zero, Multiset.sum_zero, zero_add, add_zero]
    exact accounted
  · rw [tasks]
    rfl

/-- Neither is the room for faults used up nor was the run aborted, and no
worker broke a precondition. -/
structure Undisturbed
    (setup : Setup layout)
    (pool : Pool layout size) : Prop where
  room : pool.shared.board.isExhausted setup = false
  unaborted : pool.shared.aborted = false
  whole : ∀ number, (pool.workers number).place ≠ .gone .unwound

/-- All workers have left. -/
def IsOver (pool : Pool layout size) : Prop :=
  ∀ number, ∃ exit, (pool.workers number).place = .gone exit

/-- When all workers have left an undisturbed pool, each of them has found its
shard empty in its last scan. -/
theorem Sound.all_drained
    {pool : Pool layout size}
    (sound : pool.Sound setup)
    (undisturbed : pool.Undisturbed setup)
    (ended : pool.IsOver)
    (number : Fin size) :
    (pool.workers number).place = .gone .drained ∧
      (pool.shared.queue.shardAt number).items = 0 := by
  obtain ⟨exit, gone⟩ := ended number
  have justified := sound.places number
  rw [gone] at justified
  cases exit with
  | drained => exact ⟨gone, justified.1⟩
  | stopped =>
      rcases justified.1 with exhausted | aborted
      · rw [undisturbed.room] at exhausted
        cases exhausted
      · rw [undisturbed.unaborted] at aborted
        cases aborted
  | failed =>
      have aborted : pool.shared.aborted = true := justified.1
      rw [undisturbed.unaborted] at aborted
      cases aborted
  | unwound => exact absurd gone (undisturbed.whole number)

theorem Sound.idle
    {pool : Pool layout size}
    (sound : pool.Sound setup)
    (undisturbed : pool.Undisturbed setup)
    (ended : pool.IsOver) :
    pool.crew.Idle where
  waiting := by
    refine WorkQueue.items_eq_zero.mpr fun shard present => ?_
    exact (sound.all_drained undisturbed ended ⟨shard, sound.shards ▸ present⟩).2
  tasks := by
    have each : ∀ number ∈ Finset.univ, (pool.workers number).tasks = 0 := by
      intro number _
      rw [Worker.tasks, (sound.all_drained undisturbed ended number).1]
    exact Finset.sum_eq_zero each

/-- Some worker of a sound pool can move as long as not all of them have left.
The first worker never waits at the gate, and it does not leave without having
opened it. -/
theorem Sound.exists_step
    {pool : Pool layout size}
    (sound : pool.Sound setup)
    (busy : ¬pool.IsOver) :
    ∃ events next, Step setup pool events next := by
  have step_of : ∀ number : Fin size,
      (∀ exit, (pool.workers number).place ≠ .gone exit) →
      ((pool.workers number).place = .parked → pool.shared.gateOpen = true) →
      ∃ events next, Step setup pool events next := by
    intro number active admitted
    obtain ⟨events, changed, worker, moved⟩ := exists_move setup
      (by rw [sound.shards]; exact number.isLt) (pool.workers number) active admitted
    exact ⟨events, _, .move number moved⟩
  simp only [IsOver, not_forall, not_exists] at busy
  obtain ⟨number, active⟩ := busy
  by_cases opened : pool.shared.gateOpen = true
  · exact step_of number active fun _ => opened
  · -- The gate is closed, so the first worker is still there.
    let first : Fin size := ⟨0, Nat.zero_lt_of_lt number.isLt⟩
    have place := sound.places first
    refine step_of first ?_ ?_
    · intro exit gone
      rw [gone] at place
      exact opened (place.2 rfl)
    · intro parked
      rw [parked] at place
      exact absurd rfl place

/-- Once all workers of an undisturbed pool have left, every shard is empty and
every discovered state was taken and expanded once. Disturbed or not, the gate
is open once the first worker has left, and as long as not all workers have
left some worker can move. -/
theorem Run.nothing_left_behind
    {seeded : Search layout}
    (seeding : Seeded setup seeded)
    {history : List (Event layout.bytes)}
    {last : Pool layout setup.workers}
    (run : Run setup (start setup seeded) history last) :
    (last.Undisturbed setup → last.IsOver →
      last.shared.queue.isEmpty = true ∧
      ∀ block,
        (takenBlocks history).count block =
            (if last.shared.board.visited.contains block then 1 else 0) ∧
          (finishedBlocks history).count block =
            if last.shared.board.visited.contains block then 1 else 0) ∧
      (∀ number exit, number.val = 0 → (last.workers number).place = .gone exit →
        last.shared.gateOpen = true) ∧
      (¬last.IsOver → ∃ events next, Step setup last events next) := by
  have sound := run.sound seeding.start_sound
  refine ⟨fun undisturbed ended => ?_, fun number exit first gone => ?_,
    sound.exists_step⟩
  · have unfailed : ∀ number, ¬(last.workers number).HasFailed := by
      intro number
      rw [Worker.HasFailed, (sound.all_drained undisturbed ended number).1]
      rintro (failed | unwound)
      · cases failed
      · cases unwound
    have idle := sound.idle undisturbed ended
    have tallied := (run.crew_run unfailed).tallied seeding.start_tallied
    exact ⟨WorkQueue.isEmpty_iff.mpr idle.waiting, tallied.once idle⟩
  · have place := sound.places number
    rw [gone] at place
    exact place.2 first

end Pool
end

namespace Lamps

/-- Two lamps. -/
def layout : Layout :=
  ⟨#[⟨"near", .boolean, 0⟩, ⟨"far", .boolean, 1⟩], 2⟩

/-- Only the lamp that is near is lit. -/
def near : Block layout.bytes :=
  ⟨1⟩

/-- Both lamps are lit. -/
def both : Block layout.bytes :=
  ⟨3⟩

/-- Light the next lamp. -/
def light : Rule layout.bytes where
  name := "light"
  guard := fun _ block => .ok (block ≠ both)
  body := fun _ => modify fun block => if block = near then both else near

/-- Lamps that are lit one after the other, for two workers. The second one may begin
when a state waits. -/
def setup : Setup layout where
  model :=
    { startStates := [⟨"dark", fun _ => pure ()⟩]
      rules := [light]
      invariants := []
      assumptions := []
      canonicalizer := none
      startStates_ne_nil := by simp }
  config := { deadlockDetection := false, threads := 2, warmupThreshold := 0 }

/-- What seeding leaves of the lamps. -/
def seeded : Search layout where
  visited := .insert .empty (.zero layout.bytes)
  queue := ⟨#[⟨[], [.ofBlock (.zero layout.bytes)]⟩, .empty], by decide⟩
  recycler := ⟨none, 1, 0⟩
  rulesFired := 0
  faults := #[]
  report := {}

theorem setup_seeded : Pool.Seeded setup seeded :=
  .of_zero (by decide) (by decide) rfl rfl rfl rfl rfl

theorem near_fresh : seeded.visited.contains near = false := by
  have apart : Block.zero layout.bytes ≠ near := by decide
  simp [seeded, VisitedSet.contains_insert, apart]

/-- The discovered states after the first expansion. -/
def lit : VisitedSet (Block layout.bytes) :=
  seeded.visited.insert near

theorem both_fresh : lit.contains both = false := by
  have apart : Block.zero layout.bytes ≠ both ∧ near ≠ both := by decide
  simp [lit, seeded, VisitedSet.contains_insert, apart]

theorem seeded_size : seeded.visited.size = 1 := by
  simp [seeded, VisitedSet.size_insert]

theorem lit_size : lit.size = 2 := by
  simp [lit, VisitedSet.size_insert, near_fresh, seeded_size]

theorem all_size : (lit.insert both).size = 3 := by
  simp [VisitedSet.size_insert, both_fresh, lit_size]

theorem all_contains
    {block : Block layout.bytes}
    (member : block ∈ [.zero layout.bytes, near, both]) :
    (lit.insert both).contains block = true := by
  simp only [List.mem_cons, List.not_mem_nil, or_false] at member
  rcases member with rfl | rfl | rfl <;> simp [lit, seeded, VisitedSet.contains_insert]

/-- The first of the two workers. -/
def first : Fin setup.workers :=
  ⟨0, by decide⟩

/-- The second of the two workers. -/
def second : Fin setup.workers :=
  ⟨1, by decide⟩

/-- The second worker finds both shards empty and is about to leave when a state is
pushed behind its scan. The first worker comes back for it, so every state was taken
and expanded once. -/
theorem nothing_left_behind_lamps :
    ∃ earlier later, ∃ middle last : Pool layout setup.workers,
      Pool.Run setup (Pool.start setup seeded) earlier middle ∧
      (middle.workers second).place = .leaving .drained ∧
      middle.shared.queue.length = 1 ∧
      Pool.Run setup middle later last ∧ last.IsOver ∧
      last.shared.queue.isEmpty = true ∧
      ∀ block ∈ [.zero layout.bytes, near, both],
        (takenBlocks (earlier ++ later)).count block = 1 ∧
          (finishedBlocks (earlier ++ later)).count block = 1 := by
  have early : ∀ size, size = 2 ∨ size = 3 →
      size % setup.config.progressInterval ≠ 0 := by
    rintro size (rfl | rfl) <;> decide
  -- The first worker discovers a state, and opens the gate because it waits.
  have began : Pool.Run setup (Pool.start setup seeded) [] _ := .refl
  have checked := began.step (.move first (.check rfl))
  have scanned := checked.step (.move first (.scan rfl))
  have taken := scanned.step (.move first (.take rfl))
  have attempted := taken.step (.move first (.advance 0 rfl))
  have counted := attempted.step (.move first (.advance 0 rfl))
  have offered := counted.step (.move first
    (.advance 0 (Point.advance_offer rfl near_fresh 0 _ _)))
  have pushed := offered.step (.move first (.push rfl))
  have announced := pushed.step (.move first
    (.advance 0 (Point.advance_announce (early _ (.inl lit_size)) 0 _ _ _)))
  have ended := announced.step (.move first (.advance 0 rfl))
  have finished := ended.step (.move first .finish)
  have peeked := finished.step (.move first .peek)
  have measured := peeked.step (.move first (.measure (by decide)))
  have summed := measured.step (.move first (.measure (by decide)))
  have compared := summed.step (.move first (.compare (by decide)))
  have released := compared.step (.move first .release)
  -- The second worker has visited its own shard when the first one takes that state.
  have entered := released.step (.move second (.enter rfl))
  have followed := entered.step (.move second (.check rfl))
  have searched := followed.step (.move second (.scan rfl))
  have missed := searched.step (.move second (.miss rfl (by decide)))
  have rechecked := missed.step (.move first (.check rfl))
  have rescanned := rechecked.step (.move first (.scan rfl))
  have retaken := rescanned.step (.move first (.take rfl))
  have drained := retaken.step (.move second (.drain rfl (by decide)))
  have lighted := drained.step (.move first (.advance 0 rfl))
  have recounted := lighted.step (.move first (.advance 0 rfl))
  have reoffered := recounted.step (.move first
    (.advance 0 (Point.advance_offer rfl both_fresh 0 _ _)))
  have behind := reoffered.step (.move first (.push rfl))
  -- It is the first worker alone that comes back.
  have gone : Pool.Run setup _ _ _ := behind.resume.step (.move second .leave)
  have reannounced := gone.step (.move first
    (.advance 0 (Point.advance_announce (early _ (.inr all_size)) 0 _ _ _)))
  have expanded := reannounced.step (.move first (.advance 0 rfl))
  have closed := expanded.step (.move first .finish)
  have repeeked := closed.step (.move first .peek)
  have returned := repeeked.step (.move first (.check rfl))
  have visited := returned.step (.move first (.scan rfl))
  have fetched := visited.step (.move first (.take rfl))
  have disabled := fetched.step (.move first (.advance 0 rfl))
  have idle := disabled.step (.move first (.advance 0 rfl))
  have completed := idle.step (.move first .finish)
  have looked := completed.step (.move first .peek)
  have lastCheck := looked.step (.move first (.check rfl))
  have lastScan := lastCheck.step (.move first (.scan rfl))
  have passed := lastScan.step (.move first (.miss rfl (by decide)))
  have emptied := passed.step (.move first (.drain rfl (by decide)))
  have left := emptied.step (.move first .leave)
  obtain ⟨nothing, -, -⟩ := Pool.Run.nothing_left_behind setup_seeded (behind.trans left)
  obtain ⟨empty, once⟩ := nothing ⟨rfl, rfl, Fin.forall_fin_two.mpr ⟨nofun, nofun⟩⟩
    (Fin.forall_fin_two.mpr ⟨⟨.drained, rfl⟩, ⟨.drained, rfl⟩⟩)
  exact ⟨_, _, _, _, behind, rfl, rfl, left,
    Fin.forall_fin_two.mpr ⟨⟨.drained, rfl⟩, ⟨.drained, rfl⟩⟩, empty,
    fun block member => ⟨(once block).1.trans (if_pos (all_contains member)),
      (once block).2.trans (if_pos (all_contains member))⟩⟩

end Lamps
end StateSpace
