import StateSpace.Proofs.Search.Expanding
import StateSpace.Proofs.Search.Levels
import StateSpace.Proofs.Workers.Unfailing

/-!
# A single worker searches breadth first

A single worker takes the states of its one shard in the order in which it
pushed them. The states that it has taken, those that wait and the one that it
is about to push stand in one line, in which they never move. Every move keeps
this line layered, so the depths of stored states are those of shortest paths.
-/

namespace StateSpace

section

variable {layout : Layout} {setup : Setup layout}

/-! ## The line of stored states -/

/-- The states that were taken in a history, in order. -/
def takenStates
    {size : Nat}
    (history : List (Event size)) : List (State size) :=
  history.filterMap fun
    | .taken state => some state
    | _ => none

@[simp] theorem takenStates_append
    {size : Nat}
    (earlier later : List (Event size)) :
    takenStates (earlier ++ later) = takenStates earlier ++ takenStates later :=
  List.filterMap_append

theorem takenStates_events (point : Point layout) :
    takenStates (point.events setup) = [] := by
  unfold Point.events
  split
  · split <;> rfl
  · rfl

theorem takenStates_closing (agenda : Agenda layout) :
    takenStates agenda.closing = [] := by
  cases agenda <;> rfl

/-- The state that is about to be pushed. -/
def Stage.pushed : Stage layout → List (State layout.bytes)
  | .push state _ => [state]
  | _ => []

/-- The state that a worker is about to push. -/
def Place.pushed : Place layout → List (State layout.bytes)
  | .expanding task => task.stage.pushed
  | _ => []

/-- The stored states in the order of their discovery: those that were taken,
those that wait in the first shard, and the one that is about to be pushed. -/
def storedLine
    (history : List (Event layout.bytes))
    (queue : WorkQueue (State layout.bytes))
    (place : Place layout) : List (State layout.bytes) :=
  takenStates history ++ (queue.shardAt 0).toList ++ place.pushed

/-! ## Moves keep the order -/

/-- Whatever is discovered by a point is what it offers, and it is pushed next. -/
theorem Point.Advances.discovers
    {queued : Nat}
    {agenda : Agenda layout}
    {recycler : Recycler layout.bytes}
    {board advanced : Board layout}
    {point : Point layout}
    {task : Task layout}
    (advances : point.Advances setup queued agenda recycler board task advanced) :
    (advanced.visited = board.visited ∧ task.stage.pushed = []) ∨
      ∃ state stored, point = .offer state ∧ setup.canonical state.block = .ok stored ∧
        board.visited.contains stored = false ∧
        advanced = { board with visited := board.visited.insert stored } ∧
        task.stage.pushed = [⟨stored, state.ancestors⟩] := by
  have pushed_of_settles : ∀ {firing : Firing layout} {agenda owned task},
      firing.Settles agenda owned task → task.stage.pushed = [] := by
    intro firing agenda owned task settles
    cases settles with
    | rejected _ _ =>
        unfold Stage.afterFault
        split <;> rfl
    | infeasible _ _ => rfl
    | violated _ => rfl
    | accepted _ => rfl
  cases advances with
  | attempt attempts =>
      refine .inl ⟨rfl, ?_⟩
      cases attempts with
      | start _ settles => exact pushed_of_settles settles
      | faulted _ _ settles => exact pushed_of_settles settles
      | guardFault _ =>
          unfold Stage.afterFault
          split <;> rfl
      | _ => rfl
  | count settles => exact .inl ⟨rfl, pushed_of_settles settles⟩
  | @forgo _ _ _ sequel _ => exact .inl ⟨rfl, by cases sequel <;> rfl⟩
  | @log _ sequel => exact .inl ⟨rfl, by cases sequel <;> rfl⟩
  | discover canonical fresh => exact .inr ⟨_, _, rfl, canonical, fresh, rfl, rfl⟩
  | _ => exact .inl ⟨rfl, rfl⟩

/-- What is known of the taken states while the single worker is at a place. -/
def Place.Follows
    (setup : Setup layout)
    (board : Board layout)
    (taken : List (State layout.bytes)) : Place layout → Prop
  | .expanding task => ∃ earlier origin, taken = earlier ++ [origin] ∧
      task.Expands setup board origin ∧
      (board.isExhausted setup = false →
        ∀ state ∈ earlier, setup.Settled board.visited state.block)
  | .checking => board.isExhausted setup = false ∧
      ∀ state ∈ taken, setup.Settled board.visited state.block
  | .scanning _ _ => board.isExhausted setup = false ∧
      ∀ state ∈ taken, setup.Settled board.visited state.block
  | .aborting => True
  | .alarming => True
  | .leaving _ => True
  | .gone _ => True
  | _ => board.isExhausted setup = false →
      ∀ state ∈ taken, setup.Settled board.visited state.block

/-- The single worker searches breadth first. -/
structure Orderly
    (setup : Setup layout)
    (history : List (Event layout.bytes))
    (situation : Shared layout × Worker layout) : Prop where
  single : situation.1.queue.shardCount = 1
  layered : Layered setup situation.1.board (takenStates history)
    (storedLine history situation.1.queue situation.2.place)
  follows : situation.2.place.Follows setup situation.1.board (takenStates history)

/-- A worker that goes from place to place without a state to push leaves the
line alone. -/
theorem Orderly.rest
    {history events : List (Event layout.bytes)}
    {shared changed : Shared layout}
    {worker next : Worker layout}
    (orderly : Orderly setup history (shared, worker))
    (silent : takenStates events = [])
    (board : changed.board = shared.board)
    (queue : changed.queue = shared.queue)
    (before : worker.place.pushed = [])
    (after : next.place.pushed = [])
    (follows : next.place.Follows setup shared.board (takenStates history)) :
    Orderly setup (history ++ events) (changed, next) := by
  have taken : takenStates (history ++ events) = takenStates history := by
    rw [takenStates_append, silent, List.append_nil]
  have line : storedLine (history ++ events) changed.queue next.place =
      storedLine history shared.queue worker.place := by
    rw [storedLine, storedLine, taken, queue, before, after]
  refine ⟨by rw [queue]; exact orderly.single, ?_, ?_⟩
  · simp only [line, board, taken]
    exact orderly.layered
  · simp only [board, taken]
    exact follows

/-- The worker takes the first state that waits. -/
theorem Orderly.take
    {history : List (Event layout.bytes)}
    {shared : Shared layout}
    {recycler : Recycler layout.bytes}
    {preferred first visits : Nat}
    {state : State layout.bytes}
    {rest : WorkQueue (State layout.bytes)}
    (orderly : Orderly setup history
      (shared, ⟨recycler, preferred, .scanning first visits⟩))
    (taken : shared.queue.visit (shared.queue.scanned first visits) =
      some (state, rest)) :
    Orderly setup (history ++ [.taken state])
      ({ shared with queue := rest },
        ⟨recycler, shared.queue.scanned first visits,
          .expanding (Task.ofState setup state recycler)⟩) := by
  have single : shared.queue.shardCount = 1 := orderly.single
  have front : shared.queue.scanned first visits = 0 := by
    rw [WorkQueue.scanned, single, Nat.mod_one]
  rw [front] at taken
  have waiting := WorkQueue.toList_of_visit taken
  obtain ⟨room, settled⟩ := orderly.follows
  have extended : takenStates (history ++ [.taken state]) =
      takenStates history ++ [state] :=
    takenStates_append history [.taken state]
  have line : storedLine history shared.queue (.scanning first visits) =
      takenStates history ++ state :: (rest.shardAt 0).toList := by
    rw [storedLine, waiting]
    exact List.append_nil _
  have shifted : storedLine (history ++ [.taken state]) rest
      (.expanding (Task.ofState setup state recycler)) =
        takenStates history ++ state :: (rest.shardAt 0).toList := by
    rw [storedLine, extended]
    simp [Place.pushed, Stage.pushed, Task.ofState]
  refine ⟨(WorkQueue.visit_eq_some taken).2.1.trans single, ?_, ?_⟩
  · have layered := orderly.layered
    simp only [line] at layered
    simp only [shifted, extended]
    exact layered.take
  · exact ⟨takenStates history, state, extended, .ofState room state recycler,
      fun _ => settled⟩

/-- A task that advances keeps the order. -/
theorem Orderly.advance
    {history : List (Event layout.bytes)}
    {shared : Shared layout}
    {advanced : Board layout}
    {recycler owned : Recycler layout.bytes}
    {preferred queued : Nat}
    {agenda : Agenda layout}
    {point : Point layout}
    {task : Task layout}
    (orderly : Orderly setup history
      (shared, ⟨recycler, preferred, .expanding ⟨agenda, owned, .active point⟩⟩))
    (moved : point.advance setup queued agenda owned shared.board =
      .ok (task, advanced)) :
    Orderly setup (history ++ point.events setup)
      ({ shared with board := advanced }, ⟨recycler, preferred, .expanding task⟩) := by
  have advances := Point.advances moved
  obtain ⟨earlier, origin, taken, expands, settled⟩ := orderly.follows
  have silent : takenStates (history ++ point.events setup) = earlier ++ [origin] := by
    rw [takenStates_append, takenStates_events, List.append_nil, taken]
  have follows : (Place.expanding task).Follows setup advanced
      (takenStates (history ++ point.events setup)) :=
    ⟨earlier, origin, silent, advances.expands expands, fun room state member =>
      (settled (advances.room room) state member).mono advances.visited.1⟩
  refine ⟨orderly.single, ?_, follows⟩
  have before :
    storedLine history shared.queue (.expanding ⟨agenda, owned, .active point⟩) =
      earlier ++ origin :: (shared.queue.shardAt 0).toList := by
    rw [storedLine, taken]
    simp [Place.pushed, Stage.pushed]
  have after :
    storedLine (history ++ point.events setup) shared.queue (.expanding task) =
      earlier ++ origin :: (shared.queue.shardAt 0).toList ++ task.stage.pushed := by
    rw [storedLine, silent]
    simp [Place.pushed]
  have layered := orderly.layered
  simp only [before, taken] at layered
  simp only [after, silent]
  rcases advances.discovers with ⟨visited, pushed⟩ |
      ⟨state, stored, rfl, canonical, fresh, rfl, pushed⟩
  · rw [pushed, List.append_nil]
    exact layered.of_board visited advances.room
  · have room : shared.board.isExhausted setup = false := expands.room rfl
    obtain ⟨rule, declared, block, leads, rfl⟩ := expands.held state rfl
    rw [pushed]
    exact layered.discover room (settled room) declared leads canonical fresh

/-- A push puts the discovered state at the end of the line, where it has been. -/
theorem Orderly.push
    {history : List (Event layout.bytes)}
    {shared : Shared layout}
    {recycler owned : Recycler layout.bytes}
    {preferred size waiting : Nat}
    {agenda : Agenda layout}
    {state : State layout.bytes}
    {pushed : WorkQueue (State layout.bytes)}
    (orderly : Orderly setup history
      (shared, ⟨recycler, preferred, .expanding ⟨agenda, owned, .push state size⟩⟩))
    (ok : shared.queue.push state 0 = .ok (waiting, pushed)) :
    Orderly setup (history ++ [])
      ({ shared with queue := pushed },
        ⟨recycler, preferred,
         .expanding ⟨agenda, owned, .active (.announce size)⟩⟩) := by
  rw [List.append_nil]
  have line : storedLine history pushed
      (.expanding ⟨agenda, owned, .active (.announce size)⟩) =
        storedLine history shared.queue
          (.expanding ⟨agenda, owned, .push state size⟩) := by
    rw [storedLine, storedLine, WorkQueue.toList_of_push ok]
    simp [Place.pushed, Stage.pushed]
  refine ⟨(WorkQueue.items_of_push ok).2.trans orderly.single, ?_, ?_⟩
  · simp only [line]
    exact orderly.layered
  · obtain ⟨earlier, origin, taken, expands, settled⟩ := orderly.follows
    have announces : Task.Expands setup shared.board origin
        ⟨agenda, owned, .active (.announce size)⟩ :=
      expands.move id (fun _ => id) (fun _ => expands.room rfl) nofun
        nofun fun _ _ => nofun
    exact ⟨earlier, origin, taken, announces, settled⟩

/-- Once a task has ended, its state is dealt with. -/
theorem Orderly.finish
    {history : List (Event layout.bytes)}
    {shared : Shared layout}
    {recycler owned : Recycler layout.bytes}
    {preferred : Nat}
    {agenda : Agenda layout}
    (orderly : Orderly setup history
      (shared, ⟨recycler, preferred, .expanding ⟨agenda, owned, .ended⟩⟩)) :
    Orderly setup (history ++ agenda.closing)
      (shared, ⟨owned, preferred, .peeking⟩) := by
  obtain ⟨earlier, origin, taken, expands, settled⟩ := orderly.follows
  refine orderly.rest (takenStates_closing agenda) rfl rfl rfl rfl
    fun room state member => ?_
  rw [taken, List.mem_append, List.mem_singleton] at member
  rcases member with before | rfl
  · exact settled room state before
  · exact expands.settled room

/-- Every move of the first worker keeps the order. -/
theorem Move.orderly
    {history events : List (Event layout.bytes)}
    {shared changed : Shared layout}
    {worker next : Worker layout}
    (move : Move setup 0 shared worker events changed next)
    (orderly : Orderly setup history (shared, worker)) :
    Orderly setup (history ++ events) (changed, next) := by
  have follows := orderly.follows
  cases move with
  | take taken => exact orderly.take taken
  | advance _ moved => exact orderly.advance moved
  | push ok => exact orderly.push ok
  | finish => exact orderly.finish
  | check room => exact orderly.rest rfl rfl rfl rfl rfl ⟨room, follows room⟩
  | scan _ => exact orderly.rest rfl rfl rfl rfl rfl follows
  | miss _ _ => exact orderly.rest rfl rfl rfl rfl rfl follows
  | peek =>
      split
      · exact orderly.rest rfl rfl rfl rfl rfl follows
      · exact orderly.rest rfl rfl rfl rfl rfl follows
  | compare _ =>
      split
      · exact orderly.rest rfl rfl rfl rfl rfl follows
      · exact orderly.rest rfl rfl rfl rfl rfl follows
  | enter _ => exact orderly.rest rfl rfl rfl rfl rfl follows
  | measure _ => exact orderly.rest rfl rfl rfl rfl rfl follows
  | release => exact orderly.rest rfl rfl rfl rfl rfl follows
  | _ => exact orderly.rest rfl rfl rfl rfl rfl trivial

/-! ## Runs -/

/-- What waits after the start states is on the first level. -/
theorem Search.Sown.ranked
    {search : Search layout}
    (sown : search.Sown setup)
    (accounted : search.Accounted)
    (single : search.queue.shardCount = 1) :
    Ranked setup search.visited (search.queue.shardAt 0).toList := by
  have waiting := WorkQueue.items_of_single single
  have first : ∀ state ∈ (search.queue.shardAt 0).toList,
      state.ancestors = [] ∧ setup.Path 0 state.block := by
    intro state member
    refine sown state ?_
    rw [waiting]
    exact member
  refine ⟨?_, fun state member => ?_, fun state member => ?_, ?_⟩
  · rw [accounted, waiting]
    rfl
  · obtain ⟨block, ancestors⟩ := state
    obtain ⟨rfl, path⟩ := first _ member
    cases path with
    | start declared begins canonical =>
        exact (Setup.Arrived.ofStart declared begins).stored block canonical
  · obtain ⟨root, path⟩ := first state member
    rw [Setup.IsShortest, root]
    exact ⟨path, fun length _ => length.zero_le⟩
  · refine List.pairwise_of_forall_mem_list fun earlier before later after => ?_
    simp [State.depth, (first earlier before).1]

theorem Search.sown_of_start
    {start : Search layout}
    (ok : Search.start setup = .ok start) :
    start.Sown setup := by
  obtain ⟨queue, items, -, rfl⟩ := start_eq_ok ok
  intro state member
  rw [items] at member
  cases Multiset.notMem_zero state member

/-- A single worker begins after the start states. -/
theorem Pool.Seeded.orderly
    {seeded : Search layout}
    (seeding : Seeded setup seeded)
    (single : setup.workers = 1) :
    Orderly setup [] ((start setup seeded).shared, newcomer layout 0) := by
  obtain ⟨start, started, seeds⟩ := seeding
  obtain ⟨shards, none⟩ := Search.start_accounted started
  have grows := Search.seed_extends seeds
  obtain ⟨sown, -, found⟩ :=
    Search.seed_sown (fun _ => id) seeds (Search.sown_of_start started)
  have one : seeded.queue.shardCount = 1 := grows.shards.trans (shards.trans single)
  have ranked := sown.ranked (grows.accounted none) one
  have line : storedLine [] seeded.queue (newcomer layout 0).place =
      (seeded.queue.shardAt 0).toList := List.append_nil _
  refine ⟨one, ?_, fun _ => nofun⟩
  simp only [Pool.start, line]
  refine ⟨ranked, fun state member => ?_, fun room stored path => ?_⟩
  · have present : state ∈ seeded.queue.items := by
      rw [WorkQueue.items_of_single one]
      exact member
    simp [State.depth, (sown state present).1]
  · cases path with
    | start declared begins canonical =>
        exact found room _ declared _ stored begins canonical

/-- The only worker of a pool is orderly throughout a run. -/
theorem Pool.Run.orderly
    {size : Nat}
    (single : size = 1)
    {first last : Pool layout size}
    {history : List (Event layout.bytes)}
    (run : Run setup first history last)
    (orderly : ∀ number, Orderly setup [] (first.shared, first.workers number))
    (number : Fin size) :
    Orderly setup history (last.shared, last.workers number) := by
  subst single
  refine run.invariant
    (fun history pool => ∀ number,
      Orderly setup history (pool.shared, pool.workers number))
    (fun step before other => ?_) orderly number
  cases step with
  | @move number events shared worker moved =>
      have alone : other = number := Subsingleton.elim other number
      have only : (number : Nat) = 0 := congrArg Fin.val (Subsingleton.elim number 0)
      rw [only] at moved
      simp only [alone, Function.update_self]
      exact moved.orderly (before number)

/-- What a breadth-first search has found, with the states that it has taken in
order. -/
structure Setup.BreadthFirst
    (setup : Setup layout)
    (visited : VisitedSet (Block layout.bytes))
    (taken stored : List (State layout.bytes)) : Prop where
  discovered : ∀ block, visited.contains block = true ↔
    ∃ state ∈ stored, state.block = block
  distinct : (stored.map State.block).Nodup
  first : taken <+: stored
  depths : ∀ state ∈ stored, ∃ length,
    IsLeast (fun length => setup.Path length state.block) length ∧
      state.depth = 1 + length
  order : taken.Pairwise fun earlier later => earlier.depth ≤ later.depth
  /-- No trace of a stored state could have fewer steps. -/
  traces : ∀ state ∈ stored, ∀ steps, setup.replay.reconstruct state = .ok steps →
    ∀ length, setup.Path length state.block → steps.length ≤ 1 + length
  replays : setup.model.NeverBreaches → layout.Built →
    ∀ state ∈ stored, setup.Replays state

theorem Ranked.breadthFirst
    {visited : VisitedSet (Block layout.bytes)}
    {line : List (State layout.bytes)}
    (ranked : Ranked setup visited line)
    {taken : List (State layout.bytes)}
    (first : taken <+: line) :
    setup.BreadthFirst visited taken line where
  discovered := by
    intro block
    rw [← VisitedSet.mem_blocks, ← Finset.mem_val, ranked.discovered, Multiset.mem_coe,
      List.mem_map]
  distinct := by
    rw [← Multiset.coe_nodup, ← ranked.discovered]
    exact visited.blocks.nodup
  first := first
  depths := fun state member => ⟨_, ranked.shortest state member, Nat.add_comm _ 1⟩
  order := ranked.sorted.sublist first.sublist
  traces := by
    intro state member steps replayed length path
    have least : state.ancestors.length ≤ length := (ranked.shortest state member).2 path
    rw [Replay.reconstruct_length replayed, State.depth]
    omega
  replays := fun sound built state member =>
    Replay.reconstruct_ok sound (Setup.replay_canonicalizes sound) built
      (ranked.known state member).trail

theorem Orderly.breadthFirst
    {history : List (Event layout.bytes)}
    {shared : Shared layout}
    {worker : Worker layout}
    (orderly : Orderly setup history (shared, worker)) :
    setup.BreadthFirst shared.board.visited (takenStates history)
      (storedLine history shared.queue worker.place) := by
  refine orderly.layered.breadthFirst ?_
  rw [storedLine, List.append_assoc]
  exact List.prefix_append ..

/-- A single worker searches breadth first, at every moment of a run: after
every start state that it attempts, after every one of its moves, and at the end
of a search. What it has discovered is stored in states whose depths are one
more than the lengths of the shortest paths, and it takes them by depth. -/
theorem Setup.breadth_first
    (single : setup.workers = 1) :
    (∀ start starts seeded, Search.start setup = .ok start →
      starts <+: setup.model.startStates → start.seed setup starts = .ok seeded →
        setup.BreadthFirst seeded.visited [] (seeded.queue.shardAt 0).toList) ∧
    (∀ seeded, Pool.Seeded setup seeded →
      ∀ history last, Pool.Run setup (Pool.start setup seeded) history last →
        ∀ number, setup.BreadthFirst last.shared.board.visited (takenStates history)
          (storedLine history last.shared.queue (last.workers number).place)) ∧
    ∀ search, setup.search = .ok search → ∃ taken,
      setup.BreadthFirst search.visited taken
        (taken ++ (search.queue.shardAt 0).toList) := by
  have moments : ∀ seeded, Pool.Seeded setup seeded →
      ∀ history last, Pool.Run setup (Pool.start setup seeded) history last →
        ∀ number, Orderly setup history (last.shared, last.workers number) := by
    intro seeded seeding history last run
    refine run.orderly single fun number => ?_
    have zero : (number : Nat) = 0 := by omega
    have worker : (Pool.start setup seeded).workers number = Pool.newcomer layout 0 := by
      rw [← zero]
      rfl
    rw [worker]
    exact seeding.orderly single
  refine ⟨?_, fun seeded seeding history last run number =>
    (moments seeded seeding history last run number).breadthFirst, ?_⟩
  · intro start starts seeded started early seeds
    obtain ⟨shards, none⟩ := Search.start_accounted started
    have grows := Search.seed_extends seeds
    obtain ⟨sown, -⟩ := Search.seed_sown (fun _ member => early.subset member) seeds
      (Search.sown_of_start started)
    have one : seeded.queue.shardCount = 1 := grows.shards.trans (shards.trans single)
    exact (sown.ranked (grows.accounted none) one).breadthFirst (List.nil_prefix)
  · intro search ok
    obtain ⟨start, started, ok⟩ := bind_eq_ok.mp ok
    obtain ⟨seeded, seeds, explores⟩ := bind_eq_ok.mp ok
    have seeding : Pool.Seeded setup seeded :=
      ⟨start, liftBreach_eq_ok.mp started, seeds⟩
    obtain ⟨history, last, run, same, returned⟩ := Search.explore_returns explores
    let number : Fin setup.workers := ⟨0, by omega⟩
    have breadthFirst := (moments seeded seeding history last run number).breadthFirst
    have line : storedLine history last.shared.queue (last.workers number).place =
        takenStates history ++ (search.queue.shardAt 0).toList := by
      rw [storedLine, same]
      rcases returned number with gone | gone <;> rw [gone] <;> exact List.append_nil _
    rw [line, same] at breadthFirst
    exact ⟨takenStates history, breadthFirst⟩

end

/-- A single worker that lights a lamp finds the lit one on the second level. -/
theorem Lamp.breadth_first_lamp :
    setup.workers = 1 ∧ ∃ search taken, setup.search = .ok search ∧
      setup.BreadthFirst search.visited taken
        (taken ++ (search.queue.shardAt 0).toList) ∧
      search.visited.contains ⟨1⟩ = true := by
  have few : setup.faultTotal < setup.config.maxErrors := by
    rw [setup_faultTotal]
    decide
  obtain ⟨search, searched, complete, -⟩ :=
    Setup.search_complete model_neverBreaches layout_built setup_storable few
  have single : setup.workers = 1 := rfl
  obtain ⟨-, -, searches⟩ := Setup.breadth_first single
  obtain ⟨taken, breadthFirst⟩ := searches search searched
  have begins :
      setup.model.Begins setup.policy ⟨"dark", fun _ => pure ()⟩ (.zero layout.bytes) :=
    ⟨rfl, nofun, nofun⟩
  have leads : setup.model.Leads setup.policy (.zero layout.bytes)
      ⟨"light", fun _ _ => .ok true, fun _ => set (⟨1⟩ : Block layout.bytes)⟩ ⟨1⟩ :=
    ⟨rfl, rfl, nofun, nofun⟩
  have dark : setup.Reachable (.zero layout.bytes) :=
    .start (List.mem_cons_self ..) begins rfl
  have lit : setup.Reachable ⟨1⟩ := .rule dark (List.mem_cons_self ..) leads rfl
  exact ⟨single, search, taken, searched, breadthFirst, (complete.discovered _).mpr lit⟩

end StateSpace
