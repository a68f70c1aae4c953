import StateSpace.Proofs.Layout.Proper
import StateSpace.Proofs.Search.Offered
import StateSpace.Proofs.Workers.Ends

/-!
# What any run discovers

A worker that fails drops its task. Its crew keeps the task and never goes on
with it, so every run of a pool is a run of a crew, whatever becomes of the
workers, and discovers nothing that is not offered. If the bodies of a model
change the state through setters alone then everything that is offered is
proper.
-/

namespace StateSpace

section

variable {layout : Layout} {setup : Setup layout}

/-! ## Failing workers -/

/-- A move that leaves its worker failed changes neither the board nor the
queue, and the worker has no task any more. -/
theorem Move.of_failed
    {shared changed : Shared layout}
    {worker next : Worker layout}
    {number : Nat}
    {events : List (Event layout.bytes)}
    (move : Move setup number shared worker events changed next)
    (failed : next.HasFailed) :
    changed.board = shared.board ∧ changed.queue = shared.queue ∧ next.tasks = 0 := by
  cases move with
  | fail => exact ⟨rfl, rfl, rfl⟩
  | unwind => exact ⟨rfl, rfl, rfl⟩
  | abort => exact ⟨rfl, rfl, rfl⟩
  | alarm => exact ⟨rfl, rfl, rfl⟩
  | leave => exact ⟨rfl, rfl, rfl⟩
  | stop => exact ⟨rfl, rfl, rfl⟩
  | halt => exact ⟨rfl, rfl, rfl⟩
  | drain => exact ⟨rfl, rfl, rfl⟩
  | finish => exact ⟨rfl, rfl, Worker.tasks_ite rfl rfl⟩
  | peek => exact ⟨rfl, rfl, Worker.tasks_ite rfl rfl⟩
  | compare => exact ⟨rfl, rfl, Worker.tasks_ite rfl rfl⟩
  | _ => exact absurd failed id

namespace Pool

variable {size : Nat}

/-- The crew of a pool, with tasks that were dropped. -/
def crewWith
    (pool : Pool layout size)
    (dropped : Multiset (Task layout)) : Crew layout :=
  ⟨pool.shared.board, pool.shared.queue.items, pool.crew.tasks + dropped⟩

theorem Step.crew_reaches
    {pool next : Pool layout size}
    {events : List (Event layout.bytes)}
    (step : Step setup pool events next)
    (dropped : Multiset (Task layout)) :
    ∃ more, Crew.Reaches setup (pool.crewWith dropped) (next.crewWith more) := by
  cases step with
  | @move number _ changed worker moved =>
      obtain ⟨others, before, after⟩ := tasks_update pool.workers number
      simp only [crewWith, crew, before, after, add_assoc]
      by_cases failed : worker.HasFailed
      · obtain ⟨board, queue, none⟩ := moved.of_failed failed
        refine ⟨(pool.workers number).tasks + dropped, ?_⟩
        rw [board, queue, none, zero_add, add_left_comm]
        exact .refl _
      · refine ⟨dropped, ?_⟩
        rcases moved.crew_step failed (others + dropped) with ⟨-, same⟩ | crewStep
        · rw [same]
          exact .refl _
        · exact crewStep.reaches

/-- Whatever a pool does is what a crew can do. -/
theorem Run.crew_reaches
    {first last : Pool layout size}
    {history : List (Event layout.bytes)}
    (run : Run setup first history last)
    (dropped : Multiset (Task layout)) :
    ∃ more, Crew.Reaches setup (first.crewWith dropped) (last.crewWith more) := by
  induction run with
  | refl => exact ⟨dropped, .refl _⟩
  | step _ step inductionHypothesis =>
      obtain ⟨between, before⟩ := inductionHypothesis
      obtain ⟨more, after⟩ := step.crew_reaches between
      exact ⟨more, before.trans after⟩

/-- Seeding is what the first task of a crew does. If there is no room for
faults at all then nothing is seeded. -/
theorem Seeded.crew_reaches
    {seeded : Search layout}
    (seeding : Seeded setup seeded) :
    ∃ dropped, Crew.Reaches setup (.start setup (.empty layout.bytes))
      (seeded.crew dropped) := by
  rcases Nat.eq_zero_or_pos setup.config.maxErrors with none | positive
  · obtain ⟨-, crew, -⟩ := Search.start_crew (seeding.start_eq_ok none)
    exact ⟨{Task.seeding setup (.empty layout.bytes)}, by rw [crew]; exact .refl _⟩
  · exact ⟨0, seeding.reaches positive⟩

/-- At every moment of a run of a pool only offered blocks are discovered. -/
theorem Run.offered
    {seeded : Search layout}
    (seeding : Seeded setup seeded)
    {history : List (Event layout.bytes)}
    {last : Pool layout setup.workers}
    (run : Run setup (start setup seeded) history last)
    {block : Block layout.bytes}
    (discovered : last.shared.board.visited.contains block = true) :
    setup.Offered block := by
  obtain ⟨dropped, before⟩ := seeding.crew_reaches
  obtain ⟨more, after⟩ := run.crew_reaches dropped
  have begins : (start setup seeded).crewWith dropped = seeded.crew dropped := by
    rw [crewWith, start_crew, Search.crew, zero_add]
    rfl
  rw [begins] at after
  obtain ⟨_, crewRun⟩ := before.trans after
  exact crewRun.offered block discovered

end Pool

/-! ## Models whose bodies use setters -/

/-- Start states and rules change a block by setters alone. -/
structure Model.SetsOnly (model : Model layout) : Prop where
  starts : ∀ start ∈ model.startStates, ∀ policy, layout.SetsOnly (start.init policy)
  bodies : ∀ rule ∈ model.rules, ∀ policy, layout.SetsOnly (rule.body policy)

namespace Setup

/-- A block that is in the visited set at some moment of some run: of a crew from
its first task on, of a pool whose workers may fail, or of the search. -/
inductive Discovered (setup : Setup layout) : Block layout.bytes → Prop
  | crew
      {recycler : Recycler layout.bytes}
      {history : List (Event layout.bytes)}
      {last : Crew layout}
      {block : Block layout.bytes}
      (run : Crew.Run setup (.start setup recycler) history last)
      (inserted : last.board.visited.contains block = true) :
      Discovered setup block
  | pool
      {seeded : Search layout}
      {history : List (Event layout.bytes)}
      {last : Pool layout setup.workers}
      {block : Block layout.bytes}
      (seeding : Pool.Seeded setup seeded)
      (run : Pool.Run setup (Pool.start setup seeded) history last)
      (inserted : last.shared.board.visited.contains block = true) :
      Discovered setup block
  | search
      {search : Search layout}
      {block : Block layout.bytes}
      (searched : setup.search = .ok search)
      (inserted : search.visited.contains block = true) :
      Discovered setup block

theorem Discovered.offered
    {block : Block layout.bytes}
    (discovered : setup.Discovered block) :
    setup.Offered block := by
  cases discovered with
  | crew run inserted => exact run.offered block inserted
  | pool seeding run inserted => exact Pool.Run.offered seeding run inserted
  | @search search _ searched inserted =>
      have ends := search_ends searched
      have present : search.board.visited.contains block = true := inserted
      generalize search.board = board at ends present
      cases ends with
      | seeded seeding exhausted => exact Pool.Run.offered seeding .refl present
      | explored seeding room run returned => exact Pool.Run.offered seeding run present

/-- Without symmetry everything that setters can come to offer is proper. -/
theorem Offered.proper
    (built : layout.Built)
    (setters : setup.model.SetsOnly)
    (plain : setup.canonicalizer = none)
    {block : Block layout.bytes}
    (offered : setup.Offered block) :
    layout.Proper block := by
  have stored : ∀ block : Block layout.bytes, setup.canonical block = .ok block := by
    intro block
    rw [canonical, plain]
  induction offered with
  | @start start candidate block declared attempted kept canonical =>
      cases (stored candidate.block).symm.trans canonical
      have begins := (Model.attemptStart_eq_ok attempted).keeps.mp kept
      have touched := setters.starts start declared setup.policy (.zero layout.bytes)
      rw [begins.runs] at touched
      exact built.placed.proper_touches touched built.placed.zero_proper
  | @rule origin block rule candidate _ declared attempted kept canonical
      inductionHypothesis =>
      cases (stored candidate.block).symm.trans canonical
      obtain ⟨-, -, -, keeps, -⟩ := Model.attemptRule_eq_ok attempted
      have leads := keeps.mp kept
      have touched := setters.bodies rule declared setup.policy origin
      rw [leads.runs] at touched
      exact built.placed.proper_touches touched inductionHypothesis

/-- Without symmetry every discovered state of a model whose bodies use setters
is proper, however many workers there are and whether or not they fail. So
discovered states are equal if their variables read the same, and calculations
with a range of one never fail for the number that it holds. The blocks on
which start states and rules are run are proper, whatever was recycled. -/
theorem discovered_proper
    (built : layout.Built)
    (setters : setup.model.SetsOnly)
    (plain : setup.canonicalizer = none) :
    (∀ block, setup.Discovered block → layout.Proper block) ∧
    (∀ first second, setup.Discovered first → setup.Discovered second →
      (first = second ↔
        ∀ declared ∈ layout.entries.toList,
          declared.view.get first = declared.view.get second)) ∧
    (∀ block view place, setup.Discovered block → layout.HasView view →
      view.toRange = .ok place →
        ∃ stored : RangeValue, stored.bounds = place.bounds ∧
          place.operand block = .ok stored.value ∧
          ∀ side free,
            (∀ policy op,
              place.arith policy block op side free = stored.arith policy op side free) ∧
            ∀ op, place.cmp block op side free = stored.cmp op side free) ∧
    ∀ recycler : Recycler layout.bytes,
      (∀ zeroed, recycler.allocZeroed.1 = .ok zeroed → layout.Proper zeroed) ∧
      ∀ (origin copied : Block layout.bytes), setup.Discovered origin →
        (recycler.allocCopy origin).1 = .ok copied → layout.Proper copied := by
  have proper : ∀ block, setup.Discovered block → layout.Proper block :=
    fun block discovered => discovered.offered.proper built setters plain
  refine ⟨proper, fun first second firstDiscovered secondDiscovered => ?_,
    fun block view place discovered viewed isRange => ?_,
    fun recycler => ⟨fun zeroed handed => ?_, fun origin copied discovered handed => ?_⟩⟩
  · exact (proper first firstDiscovered).eq_iff built (proper second secondDiscovered)
  · exact (proper block discovered).range viewed isRange
  · rw [recycler.allocZeroed_eq_ok handed]
    exact built.placed.zero_proper
  · rw [recycler.allocCopy_eq_ok handed]
    exact proper origin discovered

end Setup

end

namespace Dial

theorem levels_ordered : (-1 : Int64) ≤ 1 := by
  decide

/-- The levels. -/
def levels : Bounds :=
  ⟨-1, 1, levels_ordered⟩

/-- A level from minus one to one, and whether it was moved. -/
def layout : Layout :=
  ⟨#[⟨"level", .scalar (.range levels), 0⟩, ⟨"moved", .boolean, 2⟩], 3⟩

theorem layout_built : layout.Built := by
  have level : Ty.Built (.scalar (.range levels)) :=
    .range (show Ty.range? (-1) 1 = _ from rfl)
  refine ⟨[("level", .scalar (.range levels)), ("moved", .boolean)], ?_, ?_⟩
  · simp only [List.mem_cons, List.not_mem_nil, or_false, forall_eq_or_imp, forall_eq]
    exact ⟨level, .boolean⟩
  · simp [Layout.of?, Layout.extend, Layout.empty, Layout.maxVariables]
    rfl

def level : RangeView :=
  ⟨0, levels⟩

theorem level_hasView : layout.HasView ⟨.scalar (.range level.bounds), level.offset⟩ :=
  .declared (show layout.view? "level" = some _ from rfl)

def moved : BoolView :=
  ⟨2⟩

theorem moved_hasView : layout.HasView ⟨.boolean, moved.offset⟩ :=
  .declared (show layout.view? "moved" = some _ from rfl)

/-- Turn the dial, and note that it was moved even if it cannot be turned that
far. -/
def turn (target : Int64) : Update layout.bytes Unit := do
  tryCatch (level.set target) fun _ => return ()
  moved.set true

theorem turn_setsOnly (target : Int64) : layout.SetsOnly (turn target) :=
  .bind (.recover (.of_setter (.range level_hasView rfl target)) fun _ => .pure ())
    fun _ => .of_setter (.boolean moved_hasView rfl true)

/-- A dial that is turned too far at the start and back to zero later. -/
def setup : Setup layout where
  model :=
    { startStates := [⟨"turn", fun _ => turn 5⟩]
      rules := [⟨"reset", fun _ _ => .ok true, fun _ => turn 0⟩]
      invariants := []
      assumptions := []
      canonicalizer := none
      startStates_ne_nil := by simp }
  config := {}

theorem setup_setsOnly : setup.model.SetsOnly where
  starts := by
    intro start member policy
    cases List.mem_singleton.mp member
    exact turn_setsOnly 5
  bodies := by
    intro rule member policy
    cases List.mem_singleton.mp member
    exact turn_setsOnly 0

/-- What the start state leaves: the level stays at its least value. -/
def turned : Block layout.bytes :=
  ⟨4⟩

theorem turned_discovered : setup.Discovered turned := by
  have began : Crew.Run setup (.start setup (.empty layout.bytes)) [] _ := .refl
  have attempts :
    Point.advance setup 0 (.starts setup.model.startStates) (.empty layout.bytes)
      (Crew.emptyBoard layout) .attempt =
        .ok (⟨.starts [], ⟨none, 1, 0⟩, .active (.offer (.ofBlock turned))⟩,
          Crew.emptyBoard layout) := by
    rfl
  have attempted := began.step (.advance attempts)
  have fresh : (Crew.emptyBoard layout).visited.contains turned = false :=
    VisitedSet.contains_empty _
  have offers : Point.advance setup 0 (.starts []) ⟨none, 1, 0⟩ (Crew.emptyBoard layout)
      (.offer (.ofBlock turned)) =
        .ok (⟨.starts [], ⟨none, 1, 0⟩,
            .push ⟨turned, []⟩ (VisitedSet.insert .empty turned).size⟩,
          { Crew.emptyBoard layout with visited := .insert .empty turned }) := by
    have canonical : setup.canonical turned = .ok turned := rfl
    simp only [Point.advance, State.ofBlock, canonical, liftBreach_ok, bind,
      Except.bind, fresh]
    rfl
  refine .crew (attempted.step (.advance offers)) ?_
  simp [VisitedSet.contains_insert]

/-- The start state is discovered, and its level can be calculated with although
setting it has failed. -/
theorem discovered_proper_dial :
    layout.Proper turned ∧
      ∃ stored : RangeValue, stored.bounds = level.bounds ∧
        level.operand turned = .ok stored.value ∧ level.operand turned = .ok (-1) := by
  obtain ⟨proper, -, ranges, -⟩ :=
    Setup.discovered_proper layout_built setup_setsOnly
      (show setup.canonicalizer = none from rfl)
  obtain ⟨stored, bounds, operand, -⟩ :=
    ranges turned _ level turned_discovered level_hasView rfl
  exact ⟨proper turned turned_discovered, stored, bounds, operand, rfl⟩

end Dial

end StateSpace
