import StateSpace.Proofs.Search.Turns
import StateSpace.Proofs.Workers.Unfailing

/-!
# Chains of predecessors

The predecessors of a state are different discovered blocks, whatever the
callables answer: a state comes to wait with a block that is new, behind
predecessors that are not. So a walk along them is no longer than there are
blocks.
-/

namespace StateSpace

/-- Different blocks, all of which are discovered. -/
structure VisitedSet.Chain
    {size : Nat}
    (visited : VisitedSet (Block size))
    (blocks : List (Block size)) : Prop where
  distinct : blocks.Nodup
  discovered : ∀ block ∈ blocks, visited.contains block = true

namespace VisitedSet.Chain

variable {size : Nat} {visited larger : VisitedSet (Block size)}
  {blocks : List (Block size)}

theorem nil : visited.Chain [] :=
  ⟨.nil, nofun⟩

theorem length_le (chain : visited.Chain blocks) : blocks.length ≤ 2 ^ (8 * size) := by
  have inside : blocks.toFinset ⊆ visited.blocks := by
    intro block member
    rw [List.mem_toFinset] at member
    exact VisitedSet.mem_blocks.mpr (chain.discovered block member)
  have fewer := Finset.card_le_card inside
  rw [List.toFinset_card_of_nodup chain.distinct, VisitedSet.card_blocks] at fewer
  exact fewer.trans visited.size_le

theorem mono
    (chain : visited.Chain blocks)
    (grows : visited.blocks ⊆ larger.blocks) :
    larger.Chain blocks where
  distinct := chain.distinct
  discovered block member := by
    have earlier := VisitedSet.mem_blocks.mpr (chain.discovered block member)
    exact VisitedSet.mem_blocks.mp (grows earlier)

/-- The predecessors of a chain's first block are a chain. -/
theorem tail
    {block : Block size}
    (chain : visited.Chain (block :: blocks)) :
    visited.Chain blocks :=
  ⟨chain.distinct.of_cons, fun other member =>
    chain.discovered other (List.mem_cons_of_mem _ member)⟩

/-- A block that is discovered goes before a chain. -/
theorem insert
    {block : Block size}
    (chain : visited.Chain blocks)
    (fresh : visited.contains block = false) :
    (visited.insert block).Chain (block :: blocks) where
  distinct := by
    refine List.nodup_cons.mpr ⟨fun member => ?_, chain.distinct⟩
    cases fresh.symm.trans (chain.discovered block member)
  discovered other member := by
    rw [VisitedSet.contains_insert]
    rcases List.mem_cons.mp member with rfl | earlier
    · simp
    · rw [chain.discovered other earlier, Bool.or_true]

end VisitedSet.Chain

section

variable {layout : Layout}

/-! ## The chains in the hands of a task -/

/-- The predecessors of a violating state that is kept after a fault. -/
def Sequel.chains : Sequel layout → List (List (Block layout.bytes))
  | .weigh kept => kept.toList.map State.ancestors
  | .leave => []

def Firing.chains (firing : Firing layout) : List (List (Block layout.bytes)) :=
  [firing.blamed.ancestors, firing.state.ancestors]

/-- The predecessors of the states that a point deals with. -/
def Point.chains : Point layout → List (List (Block layout.bytes))
  | .attempt => []
  | .count firing => firing.chains
  | .raise _ state _ sequel => state.ancestors :: sequel.chains
  | .print _ state _ sequel => state.ancestors :: sequel.chains
  | .log _ sequel => sequel.chains
  | .weigh kept => kept.toList.map State.ancestors
  | .offer state => [state.ancestors]
  | .announce _ => []

/-- A state that is about to be queued is discovered itself. -/
def Stage.chains : Stage layout → List (List (Block layout.bytes))
  | .active point => point.chains
  | .push state _ => [state.block :: state.ancestors]
  | .ended => []

def Agenda.chains : Agenda layout → List (List (Block layout.bytes))
  | .starts _ => []
  | .rules origin _ _ => [origin.block :: origin.ancestors]

/-- The state that a task expands, and what goes before the states in its hands. -/
def Task.chains (task : Task layout) : List (List (Block layout.bytes)) :=
  task.agenda.chains ++ task.stage.chains

/-- A state that is to be explained is in the hands of its task. -/
theorem Task.ancestors_mem_chains
    {task : Task layout}
    {state : State layout.bytes}
    (explains : task.explains? = some state) :
    state.ancestors ∈ task.chains := by
  obtain ⟨agenda, recycler, stage⟩ := task
  unfold explains? at explains
  split at explains
  · rename_i record shown sequel printing
    cases explains
    cases printing
    exact List.mem_append_right _ List.mem_cons_self
  · cases explains

theorem Sequel.chains_stage (sequel : Sequel layout) :
    sequel.stage.chains = sequel.chains := by
  cases sequel <;> rfl

theorem Stage.chains_afterFault
    (record? : Option FaultRecord)
    (blamed : State layout.bytes)
    (traceable : Bool) :
    (Stage.afterFault record? blamed traceable).chains ⊆ [blamed.ancestors] := by
  cases record? with
  | none => exact List.nil_subset _
  | some record => exact List.Subset.refl _

section

variable
  {setup : Setup layout}
  {visited : VisitedSet (Block layout.bytes)}
  {agenda : Agenda layout}
  {recycler : Recycler layout.bytes}
  {task : Task layout}

theorem Firing.Settles.chains
    {firing : Firing layout}
    (settles : firing.Settles agenda recycler task) :
    task.agenda = agenda ∧ task.stage.chains ⊆ firing.chains := by
  refine ⟨settles.hands.2, ?_⟩
  cases settles with
  | rejected _ _ =>
      exact List.Subset.trans (Stage.chains_afterFault ..)
        (List.cons_subset_cons _ (List.nil_subset _))
  | infeasible _ _ => exact List.nil_subset _
  | violated _ => simp [Stage.chains, Point.chains, Sequel.chains, Firing.chains]
  | accepted _ => exact List.subset_cons_self _ _

/-- What is in the hands of a task that has settled a firing. -/
theorem Firing.Settles.chained
    {firing : Firing layout}
    (settles : firing.Settles agenda recycler task)
    (chained : ∀ chain ∈ agenda.chains ++ firing.chains, visited.Chain chain) :
    ∀ chain ∈ task.chains, visited.Chain chain := by
  obtain ⟨same, held⟩ := settles.chains
  obtain ⟨expanded, handled⟩ := List.forall_mem_append.mp chained
  rw [Task.chains, same]
  exact List.forall_mem_append.mpr
    ⟨expanded, fun chain member => handled chain (held member)⟩

/-- A candidate comes from the state that is expanded, or has no predecessor. -/
theorem Agenda.Attempts.chained
    (attempts : agenda.Attempts setup recycler task)
    (chained : ∀ chain ∈ agenda.chains, visited.Chain chain) :
    ∀ chain ∈ task.chains, visited.Chain chain := by
  -- Whatever the rules of a state lead to goes on behind the state.
  have behind : ∀ {origin stuck rest}, agenda = .rules origin stuck rest →
      visited.Chain (origin.block :: origin.ancestors) := by
    rintro origin stuck rest rfl
    exact chained _ (List.mem_singleton_self _)
  cases attempts with
  | started => exact chained
  | start _ settles =>
      apply settles.chained
      simp [Agenda.chains, Firing.chains, Firing.ofStart, State.ofBlock,
        VisitedSet.Chain.nil]
  | deadlocked _ =>
      have own := behind rfl
      exact List.forall_mem_append.mpr ⟨chained, List.forall_mem_singleton.mpr own.tail⟩
  | expanded _ => exact List.forall_mem_append.mpr ⟨chained, List.forall_mem_nil _⟩
  | disabled _ => exact List.forall_mem_append.mpr ⟨chained, List.forall_mem_nil _⟩
  | guardFault _ =>
      have own := behind rfl
      refine List.forall_mem_append.mpr ⟨chained, fun chain member => ?_⟩
      rw [List.mem_singleton.mp (Stage.chains_afterFault _ _ _ member)]
      exact own.tail
  | completed _ _ =>
      have own := behind rfl
      refine List.forall_mem_append.mpr ⟨chained, ?_⟩
      exact List.forall_mem_cons.mpr ⟨own.tail, List.forall_mem_singleton.mpr own⟩
  | faulted _ _ settles =>
      have own := behind rfl
      apply settles.chained
      refine List.forall_mem_append.mpr ⟨chained, ?_⟩
      exact List.forall_mem_cons.mpr ⟨own.tail, List.forall_mem_singleton.mpr own⟩

/-- Every point of a task keeps the chains in its hands, and puts what it
discovers before one of them. -/
theorem Point.Advances.chained
    {queued : Nat}
    {board advanced : Board layout}
    {point : Point layout}
    (advances : point.Advances setup queued agenda recycler board task advanced)
    (chained : ∀ chain ∈ agenda.chains ++ point.chains, board.visited.Chain chain) :
    ∀ chain ∈ task.chains, advanced.visited.Chain chain := by
  obtain ⟨expanded, handled⟩ := List.forall_mem_append.mp chained
  cases advances with
  | attempt attempts => exact attempts.chained expanded
  | count settles => exact settles.chained chained
  | @discover state block _ fresh =>
      have behind := handled _ (List.mem_singleton_self state.ancestors)
      refine List.forall_mem_append.mpr ⟨fun chain member => ?_, ?_⟩
      · apply (expanded chain member).mono
        rw [VisitedSet.blocks_insert]
        exact Finset.subset_insert _ _
      · exact List.forall_mem_singleton.mpr (behind.insert fresh)
  | forgo _ =>
      rw [Task.chains, Sequel.chains_stage]
      exact List.forall_mem_append.mpr ⟨expanded, (List.forall_mem_cons.mp handled).2⟩
  | claim _ => exact chained
  | print _ _ =>
    exact List.forall_mem_append.mpr ⟨expanded, (List.forall_mem_cons.mp handled).2⟩
  | log =>
      rw [Task.chains, Sequel.chains_stage]
      exact chained
  | keep _ => exact chained
  | _ => exact List.forall_mem_append.mpr ⟨expanded, List.forall_mem_nil _⟩

end

namespace Lone

variable
  {setup : Setup layout}
  {lone next : Lone layout}
  {history events : List (Event layout.bytes)}

/-- What waits and what was taken has its block discovered behind its
predecessors. -/
structure Chained
    (history : List (Event layout.bytes))
    (lone : Lone layout) : Prop where
  waiting : ∀ state ∈ lone.queue.items,
    lone.board.visited.Chain (state.block :: state.ancestors)
  taken : ∀ state, .taken state ∈ history →
    lone.board.visited.Chain (state.block :: state.ancestors)
  held : ∀ chain ∈ lone.task.chains, lone.board.visited.Chain chain

/-- Nothing but a turn that takes a state leaves a taken state behind. -/
theorem Step.not_taken
    {shard : Nat}
    (step : Step setup shard lone events next)
    (state : State layout.bytes) :
    .taken state ∉ events := by
  cases step with
  | advance moved =>
      unfold Point.events
      split
      · split <;> simp
      · simp
  | push _ => simp

/-- Nothing that is discovered is forgotten. -/
theorem Step.grows
    {shard : Nat}
    (step : Step setup shard lone events next) :
    lone.board.visited.blocks ⊆ next.board.visited.blocks := by
  cases step with
  | advance moved =>
      apply Finset.val_le_iff.mp
      rw [(Point.advances moved).hands.2]
      exact Multiset.le_add_left _ _
  | push _ => exact Finset.Subset.refl _

theorem Turn.chained
    (turn : Turn setup lone events next)
    (chained : lone.Chained history) :
    next.Chained (history ++ events) := by
  cases turn with
  | work _ step =>
      have waited : ∀ state ∈ lone.queue.items,
          next.board.visited.Chain (state.block :: state.ancestors) :=
        fun state member => (chained.waiting state member).mono step.grows
      have took : ∀ state, .taken state ∈ history ++ events →
          next.board.visited.Chain (state.block :: state.ancestors) := by
        intro state member
        have earlier := (List.mem_append.mp member).resolve_right (step.not_taken state)
        exact (chained.taken state earlier).mono step.grows
      cases step with
      | advance moved =>
        exact ⟨waited, took, (Point.advances moved).chained chained.held⟩
      | push ok =>
          obtain ⟨expanded, handled⟩ := List.forall_mem_append.mp chained.held
          refine ⟨fun state member => ?_, took, ?_⟩
          · rw [(WorkQueue.items_of_push ok).1] at member
            rcases Multiset.mem_cons.mp member with rfl | earlier
            · exact handled _ (List.mem_singleton_self _)
            · exact waited state earlier
          · exact List.forall_mem_append.mpr ⟨expanded, List.forall_mem_nil _⟩
  | @take _ _ _ board queue rest agenda _ _ _ state _ taken =>
      have items := (WorkQueue.pop?_items taken).1
      have first : board.visited.Chain (state.block :: state.ancestors) :=
        chained.waiting state (items ▸ Multiset.mem_cons_self state rest.items)
      refine ⟨fun other member => ?_, fun other member => ?_, ?_⟩
      · exact chained.waiting other (items ▸ Multiset.mem_cons_of_mem member)
      · rcases List.mem_append.mp member with earlier | now
        · exact chained.taken other earlier
        · have closing : .taken other ∉ agenda.closing := by
            cases agenda <;> simp [Agenda.closing]
          cases List.mem_singleton.mp ((List.mem_append.mp now).resolve_left closing)
          exact first
      · exact List.forall_mem_append.mpr
          ⟨List.forall_mem_singleton.mpr first, List.forall_mem_nil _⟩

theorem Course.chained
    {first last : Lone layout}
    (course : Course setup first history last)
    (chained : first.Chained []) :
    last.Chained history :=
  course.invariant Chained Turn.chained chained

end Lone

/-! ## Runs of one worker -/

namespace Search

variable {setup : Setup layout}

/-- What a run begins with: its first task goes through the start states if
there is room for faults at all. -/
def begun
    (setup : Setup layout)
    (start : Search layout) : Lone layout :=
  start.lone ⟨.starts setup.model.startStates, start.recycler, start.proceed setup⟩

/-- A task that goes on after an attempt has no state in its hands. -/
theorem proceed_empty (search : Search layout) :
    (search.proceed setup).chains = [] ∧ (search.proceed setup).handed = 0 := by
  unfold proceed
  split <;> exact ⟨rfl, rfl⟩

theorem begun_tallied
    {start : Search layout}
    (ok : Search.start setup = .ok start) :
    (start.begun setup).crew.Tallied [] := by
  have crew : (start.begun setup).crew =
      ⟨Crew.emptyBoard layout, 0, {(start.begun setup).task}⟩ :=
    (start_crew ok).2.1 _
  have undiscovered : (Crew.emptyBoard layout).visited.blocks = ∅ :=
    VisitedSet.blocks_empty
  have handed : (start.begun setup).task.stage.handed = 0 := (proceed_empty start).2
  rw [crew]
  constructor
  · rw [undiscovered, Multiset.map_singleton, Multiset.sum_singleton, handed]
    rfl
  · rfl

theorem begun_chained
    {start : Search layout}
    (ok : Search.start setup = .ok start) :
    (start.begun setup).Chained [] := by
  obtain ⟨queue, items, -, rfl⟩ := start_eq_ok ok
  refine ⟨?_, nofun, ?_⟩
  · simp [begun, lone, items]
  · simp [begun, lone, Task.chains, Agenda.chains, proceed_empty]

/-! ## The search of a setup -/

theorem seed_course
    {starts : List (StartState layout.bytes)}
    {search seeded : Search layout}
    (ok : search.seed setup starts = .ok seeded) :
    ∃ history left, Lone.Course setup
      (search.lone ⟨.starts starts, search.recycler, search.proceed setup⟩) history
      (seeded.afterSeeding left) := by
  cases room : search.isExhausted setup with
  | true =>
      cases (seed_of_exhausted room).symm.trans ok
      rw [proceed, if_pos room]
      exact ⟨[], starts, .refl⟩
  | false =>
      obtain ⟨history, left, seeding⟩ := seed_seeding ok room
      rw [proceed_of_room room]
      exact ⟨history, left, seeding.course⟩

theorem explore_course
    {search explored : Search layout}
    {shard preferred : Nat}
    (ok : search.explore setup shard preferred = .ok explored)
    {task : Task layout}
    (ended : task.stage = .ended) :
    (explored.isExhausted setup = true ∨ explored.queue.items = 0) ∧
      ∃ history last, last.stage = .ended ∧
        Lone.Course setup (search.lone task) history (explored.lone last) := by
  induction preferred, search using explore.induct setup shard generalizing task with
  | case1 preferred search exhausted =>
      cases (explore_of_exhausted exhausted).symm.trans ok
      exact ⟨.inl exhausted, [], task, ended, .refl⟩
  | case2 preferred search room missing =>
      cases (explore_of_empty (Bool.eq_false_iff.mpr room) missing).symm.trans ok
      exact ⟨.inr (WorkQueue.pop?_eq_none.mp missing), [], task, ended, .refl⟩
  | case3 preferred search room state source rest taken error failed =>
      rw [explore_of_taken (Bool.eq_false_iff.mpr room) taken, failed] at ok
      cases ok
  | case4 preferred search room state source rest taken next expanded _
      inductionHypothesis =>
      have roomy := Bool.eq_false_iff.mpr room
      rw [explore_of_taken roomy taken, expanded] at ok
      obtain ⟨agenda, walks⟩ := fireRules_walks expanded roomy
      obtain ⟨earlier, seeding⟩ := walks.seeding
      have finished : (⟨agenda, next.recycler, .ended⟩ : Task layout).stage =
        .ended := rfl
      obtain ⟨idle, later, last, lastEnded, further⟩ := inductionHypothesis ok finished
      obtain ⟨agendaBefore, recycler, stage⟩ := task
      cases ended
      have took : Lone.Turn setup (search.lone ⟨agendaBefore, recycler, .ended⟩)
          (agendaBefore.closing ++ [.taken state])
          (lone { search with queue := rest }
            (Task.ofState setup state search.recycler)) :=
        .take (.refl setup) search.recycler roomy taken
      exact ⟨idle, _, last, lastEnded,
        (Execution.single took).trans (seeding.course.trans further)⟩

/-- A search that succeeds is a course that goes on until there is no room for
faults or nothing waits. -/
theorem search_course
    {start search : Search layout}
    (started : Search.start setup = .ok start)
    (ok : setup.search = .ok search) :
    (search.isExhausted setup = true ∨ search.queue.items = 0) ∧
      ∃ history last, last.stage = .ended ∧
        Lone.Course setup (start.begun setup) history (search.lone last) := by
  obtain ⟨again, restarted, ok⟩ := bind_eq_ok.mp ok
  cases started.symm.trans (liftBreach_eq_ok.mp restarted)
  obtain ⟨seeded, seeds, explores⟩ := bind_eq_ok.mp ok
  obtain ⟨earlier, left, course⟩ := seed_course seeds
  have finished : (⟨.starts left, seeded.recycler, .ended⟩ : Task layout).stage =
    .ended := rfl
  obtain ⟨idle, later, last, ended, further⟩ := explore_course explores finished
  exact ⟨idle, earlier ++ later, last, ended, course.trans further⟩

end Search

end

/-- Whatever the callables and the canonicalizer answer, no run of one worker
goes on for ever. No block is taken twice, so there are no more expansions than
blocks, and the predecessors of a state that waits, was taken or is to be
explained are different blocks, so a walk along them is no longer. If no
callable breaks a precondition then the search of a setup is such a run and
comes to its end. -/
theorem Search.every_course_ends
    {layout : Layout}
    (setup : Setup layout) :
    (WellFounded fun next lone : Lone layout =>
      ∃ events, Lone.Turn setup lone events next) ∧
    (∀ start, Search.start setup = .ok start →
      ∀ history last, Lone.Course setup (start.begun setup) history last →
        (takenBlocks history).Nodup ∧
        (takenBlocks history).card ≤ 2 ^ (8 * layout.bytes) ∧
        (∀ state, .taken state ∈ history ∨ state ∈ last.queue.items →
          state.path.Nodup ∧ state.depth ≤ 2 ^ (8 * layout.bytes)) ∧
        ∀ state, last.task.explains? = some state →
          state.ancestors.Nodup ∧ state.ancestors.length ≤ 2 ^ (8 * layout.bytes)) ∧
    ∀ start, Search.start setup = .ok start → setup.model.NeverBreaches → layout.Built →
      ∃ search history last, setup.search = .ok search ∧ last.stage = .ended ∧
        Lone.Course setup (start.begun setup) history (search.lone last) ∧
        (search.isExhausted setup = true ∨ search.queue.items = 0) := by
  refine ⟨Lone.turn_wellFounded setup, ?_, ?_⟩
  · intro start started history last course
    obtain ⟨once, fewer⟩ := (course.tallied (begun_tallied started)).taken_once
    have chained := course.chained (begun_chained started)
    refine ⟨once, fewer, fun state present => ?_, fun state explains => ?_⟩
    · have chain := present.elim (chained.taken state) (chained.waiting state)
      exact ⟨List.nodup_reverse.mpr chain.distinct, chain.length_le⟩
    · have chain := chained.held _ (Task.ancestors_mem_chains explains)
      exact ⟨chain.distinct, chain.length_le⟩
  · intro start started sound built
    obtain ⟨search, searched⟩ := Setup.search_ok_of_start sound built started
    obtain ⟨idle, history, last, ended, course⟩ := search_course started searched
    exact ⟨search, history, last, searched, ended, course, idle⟩

/-! ## A lamp that is lit -/

namespace Lamp

/-- A run comes to explain the lit lamp, which has one predecessor, and the
search of the lamp that must not be lit comes to its end. -/
theorem every_course_ends_forbidden :
    (∃ start history last, Search.start forbidden = .ok start ∧
      Lone.Course forbidden (start.begun forbidden) history last ∧
      last.task.explains? = some lit ∧ lit.ancestors.length ≤ 2 ^ (8 * layout.bytes)) ∧
    ∃ start search history last, Search.start forbidden = .ok start ∧
      forbidden.search = .ok search ∧
      Lone.Course forbidden (start.begun forbidden) history (search.lone last) ∧
      (takenBlocks history).card ≤ 2 ^ (8 * layout.bytes) := by
  obtain ⟨-, bounded, ends⟩ := Search.every_course_ends forbidden
  obtain ⟨start, started, seeds⟩ := forbidden_seeded
  refine ⟨?_, ?_⟩
  · obtain ⟨history, left, seeded⟩ := Search.seed_course seeds
    have popped : darkSeeded.queue.pop? 0 =
        some (.ofBlock (.zero layout.bytes), 0, ⟨#[.empty], by decide⟩) := rfl
    have turn : ∀ {board advanced : Board layout} {queue agenda recycler point task},
        point.advance forbidden 0 agenda recycler board = .ok (task, advanced) →
        Lone.Turn forbidden ⟨board, queue, ⟨agenda, recycler, .active point⟩⟩
          (point.events forbidden) ⟨advanced, queue, task⟩ :=
      fun moved =>
        .work (.refl forbidden) (show Lone.Step forbidden 0 _ _ _ from .advance moved)
    have taken := seeded.step
      (.take (.refl forbidden) (.empty layout.bytes) (show _ = false from rfl) popped)
    have attempted := taken.step (turn rfl)
    have counted := attempted.step (turn rfl)
    have raised := counted.step (turn rfl)
    obtain ⟨-, -, -, explained⟩ := bounded start started _ _ raised
    exact ⟨start, _, _, started, raised, rfl, (explained lit rfl).2⟩
  · obtain ⟨search, history, last, searched, -, course, -⟩ :=
      ends start started forbidden_neverBreaches layout_built
    obtain ⟨-, fewer, -⟩ := bounded start started history _ course
    exact ⟨start, search, history, last, started, searched, course, fewer⟩

end Lamp
end StateSpace
