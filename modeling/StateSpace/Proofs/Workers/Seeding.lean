import StateSpace.Proofs.Search.Lone
import StateSpace.Proofs.Search.Paths
import StateSpace.Proofs.Search.Tally

/-!
# What seeding leaves

Seeding keeps the number of shards, and afterwards every discovered block
waits in the queue once. What waits has a path of no rules, and unless the room
for faults is used up no start state is missing.
-/

namespace StateSpace
namespace Search

variable {layout : Layout} {setup : Setup layout}

/-- The discovered blocks are those that wait, each of them once. -/
def Accounted (search : Search layout) : Prop :=
  search.visited.blocks.val = search.queue.items.map State.block

/-- What an operation keeps while it accounts for what it discovers. -/
structure Extends (search next : Search layout) : Prop where
  shards : next.queue.shardCount = search.queue.shardCount
  accounted : search.Accounted → next.Accounted

theorem Extends.trans
    {search middle next : Search layout}
    (before : search.Extends middle)
    (after : middle.Extends next) :
    search.Extends next where
  shards := after.shards.trans before.shards
  accounted := after.accounted ∘ before.accounted

theorem Extends.of_frame
    {search next : Search layout}
    (visited : next.visited = search.visited)
    (queue : next.queue = search.queue) :
    search.Extends next where
  shards := by rw [queue]
  accounted := by
    unfold Accounted
    rw [visited, queue]
    exact id

theorem addFault_extends
    {record : FaultRecord}
    {state : State layout.bytes}
    {traceable : Bool}
    {search reported : Search layout}
    (ok : search.addFault setup record state traceable = .ok reported) :
    search.Extends reported :=
  .of_frame (addFault_frame ok).visited (addFault_frame ok).queue

theorem addRaised_extends
    {fault : Fault}
    {context : String}
    {state : State layout.bytes}
    {traceable : Bool}
    {search reported : Search layout}
    (ok : search.addRaised setup fault context state traceable = .ok reported) :
    search.Extends reported :=
  .of_frame (addRaised_frame ok).visited (addRaised_frame ok).queue

theorem discard_extends
    {block : Block layout.bytes}
    {search discarded : Search layout}
    (ok : search.discard block = .ok discarded) :
    search.Extends discarded := by
  obtain ⟨freed, -, rfl⟩ := discard_eq_ok ok
  exact .of_frame rfl rfl

theorem noteProgress_extends (search : Search layout) :
    search.Extends (search.noteProgress setup) := by
  unfold noteProgress
  split <;> exact .of_frame rfl rfl

/-- A state that is kept is discovered and queued. -/
theorem keep_extends
    {shard : Nat}
    {state : State layout.bytes}
    {search kept : Search layout}
    (ok : search.keep setup shard state = .ok kept) :
    search.Extends kept := by
  obtain ⟨block, -, ok⟩ := bind_eq_ok.mp ok
  split at ok
  · exact discard_extends ok
  · rename_i unseen
    obtain ⟨⟨waiting, queue⟩, pushed, ok⟩ := bind_eq_ok.mp ok
    cases ok
    obtain ⟨items, shards⟩ := WorkQueue.items_of_push (liftBreach_eq_ok.mp pushed)
    refine Extends.trans ⟨shards, fun accounted => ?_⟩ (noteProgress_extends _)
    have fresh : block ∉ search.visited.blocks := by simpa using unseen
    unfold Accounted at accounted ⊢
    rw [VisitedSet.blocks_insert, Finset.insert_val_of_notMem fresh, accounted, items,
      Multiset.map_cons]

theorem record_extends
    {shard : Nat}
    {context : String}
    {blamed state : State layout.bytes}
    {blamedTraceable : Bool}
    {judgement : Judgement}
    {search recorded : Search layout}
    (ok : search.record setup shard context blamed state blamedTraceable judgement =
      .ok recorded) :
    search.Extends recorded := by
  cases judgement with
  | rejected fault =>
      obtain ⟨reported, raised, ok⟩ := bind_eq_ok.mp ok
      exact (addRaised_extends raised).trans (discard_extends ok)
  | infeasible => exact discard_extends ok
  | violated violation =>
      obtain ⟨reported, added, ok⟩ := bind_eq_ok.mp ok
      split at ok
      · exact (addFault_extends added).trans (discard_extends ok)
      · exact (addFault_extends added).trans (keep_extends ok)
  | accepted => exact keep_extends ok

/-- Seeding accounts for what it discovers. -/
theorem seed_extends
    {starts : List (StartState layout.bytes)}
    {search seeded : Search layout}
    (ok : search.seed setup starts = .ok seeded) :
    search.Extends seeded := by
  induction starts generalizing search with
  | nil =>
      cases ok
      exact .of_frame rfl rfl
  | cons start rest inductionHypothesis =>
      unfold seed at ok
      split at ok
      · cases ok
        exact .of_frame rfl rfl
      · obtain ⟨candidate, -, ok⟩ := bind_eq_ok.mp ok
        obtain ⟨recorded, recording, ok⟩ := bind_eq_ok.mp ok
        have allocated : search.Extends
            { search with recycler := search.recycler.allocZeroed.2 } :=
              .of_frame rfl rfl
        exact (allocated.trans (record_extends recording)).trans (inductionHypothesis ok)

/-- A search that begins has the shards of its setup, and nothing to account
for. -/
theorem start_accounted
    {start : Search layout}
    (ok : Search.start setup = .ok start) :
    start.queue.shardCount = setup.workers ∧ start.Accounted := by
  obtain ⟨queue, items, shards, rfl⟩ := start_eq_ok ok
  refine ⟨shards, ?_⟩
  rw [Accounted, items, VisitedSet.blocks_empty]
  rfl

/-! ## The first level -/

/-- Every waiting state holds what some start state left. -/
def Sown
    (setup : Setup layout)
    (search : Search layout) : Prop :=
  ∀ state ∈ search.queue.items, state.ancestors = [] ∧ setup.Path 0 state.block

/-- What becomes of a candidate that was judged: while there is room for faults
it is discovered if it counts as a state, and nothing else comes to wait. -/
structure Discovers
    (setup : Setup layout)
    (judgement : Judgement)
    (state : State layout.bytes)
    (search next : Search layout) : Prop where
  earlier : ∀ block, search.visited.contains block = true →
    next.visited.contains block = true
  waiting : ∀ other ∈ next.queue.items, other ∈ search.queue.items ∨
    judgement.keeps = true ∧ ∃ stored, setup.canonical state.block = .ok stored ∧
      other = ⟨stored, state.ancestors⟩
  found : next.isExhausted setup = false → judgement.keeps = true →
    ∀ stored, setup.canonical state.block = .ok stored →
      next.visited.contains stored = true

section

variable
  {judgement : Judgement}
  {state : State layout.bytes}
  {search reported next : Search layout}

theorem Discovers.of_discard
    (frame : search.Frame reported)
    (lost : reported.isExhausted setup = true ∨ judgement.keeps = false)
    (ok : reported.discard state.block = .ok next) :
    Discovers setup judgement state search next := by
  obtain ⟨visited, queue, recycler, rulesFired, faults, report⟩ := reported
  obtain ⟨rfl, rfl, rfl⟩ := frame
  obtain ⟨freed, -, rfl⟩ := discard_eq_ok ok
  refine ⟨fun _ => id, fun _ => .inl, fun room kept => ?_⟩
  rcases lost with exhausted | dropped
  · cases exhausted.symm.trans room
  · cases dropped.symm.trans kept

theorem Discovers.of_keep
    {shard : Nat}
    (frame : search.Frame reported)
    (kept : judgement.keeps = true)
    (ok : reported.keep setup shard state = .ok next) :
    Discovers setup judgement state search next := by
  obtain ⟨visited, queue, recycler, rulesFired, faults, report⟩ := reported
  obtain ⟨rfl, rfl, rfl⟩ := frame
  obtain ⟨stored, canonical, ok⟩ := bind_eq_ok.mp ok
  have stores := liftBreach_eq_ok.mp canonical
  split at ok
  · rename_i seen
    obtain ⟨freed, -, rfl⟩ := discard_eq_ok ok
    refine ⟨fun _ => id, fun _ => .inl, fun _ _ other again => ?_⟩
    cases stores.symm.trans again
    exact seen
  · obtain ⟨⟨waiting, pushed⟩, pushes, ok⟩ := bind_eq_ok.mp ok
    cases ok
    obtain ⟨items, -⟩ := WorkQueue.items_of_push (liftBreach_eq_ok.mp pushes)
    unfold noteProgress
    split
    all_goals
      refine ⟨fun block earlier => ?_, fun other member => ?_, fun _ _ other again => ?_⟩
      · simp [VisitedSet.contains_insert, earlier]
      · rw [items, Multiset.mem_cons] at member
        exact member.symm.imp_right fun same => ⟨kept, stored, stores, same⟩
      · cases stores.symm.trans again
        simp [VisitedSet.contains_insert]

end

theorem record_discovers
    {shard : Nat}
    {context : String}
    {blamed state : State layout.bytes}
    {blamedTraceable : Bool}
    {judgement : Judgement}
    {search recorded : Search layout}
    (ok : search.record setup shard context blamed state blamedTraceable judgement =
      .ok recorded) :
    Discovers setup judgement state search recorded := by
  cases judgement with
  | rejected fault =>
      obtain ⟨reported, raised, ok⟩ := bind_eq_ok.mp ok
      exact .of_discard (addRaised_frame raised) (.inr rfl) ok
  | infeasible => exact .of_discard (.refl search) (.inr rfl) ok
  | violated violation =>
      obtain ⟨reported, added, ok⟩ := bind_eq_ok.mp ok
      split at ok
      · rename_i exhausted
        exact .of_discard (addFault_frame added) (.inl exhausted) ok
      · exact .of_keep (addFault_frame added) rfl ok
  | accepted => exact .of_keep (.refl search) rfl ok

/-- Seeding discovers what every start state leaves, unless the room for faults
is used up, and whatever it leaves to wait is on the first level. -/
theorem seed_sown
    {starts : List (StartState layout.bytes)}
    (declared : ∀ start ∈ starts, start ∈ setup.model.startStates)
    {search seeded : Search layout}
    (seeds : search.seed setup starts = .ok seeded)
    (sown : search.Sown setup) :
    seeded.Sown setup ∧
      (∀ block, search.visited.contains block = true →
        seeded.visited.contains block = true) ∧
      (seeded.isExhausted setup = false → ∀ start ∈ starts, ∀ block stored,
        setup.model.Begins setup.policy start block →
        setup.canonical block = .ok stored →
          seeded.visited.contains stored = true) := by
  induction starts generalizing search with
  | nil =>
      cases seeds
      exact ⟨sown, fun _ => id, fun _ _ => nofun⟩
  | cons start rest inductionHypothesis =>
      unfold seed at seeds
      split at seeds
      · rename_i exhausted
        cases seeds
        refine ⟨sown, fun _ => id, fun room => ?_⟩
        cases exhausted.symm.trans room
      · obtain ⟨candidate, attempted, records⟩ := bind_eq_ok.mp seeds
        obtain ⟨recorded, recording, further⟩ := bind_eq_ok.mp records
        have spec := Model.attemptStart_eq_ok
          (Model.attemptStartOn_eq_ok (liftBreach_eq_ok.mp attempted))
        have discovers := record_discovers recording
        have present := declared start (by simp)
        have sownRecorded : recorded.Sown setup := by
          intro state member
          rcases discovers.waiting state member
            with earlier | ⟨kept, stored, canonical, rfl⟩
          · exact sown state earlier
          · exact ⟨rfl, .start present (spec.keeps.mp kept) canonical⟩
        obtain ⟨sownSeeded, later, found⟩ := inductionHypothesis
          (fun other member => declared other (by simp [member])) further sownRecorded
        refine ⟨sownSeeded,
          fun block earlier => later block (discovers.earlier block earlier), ?_⟩
        intro room other member block stored begins canonical
        rcases List.mem_cons.mp member with rfl | member
        · cases more : recorded.isExhausted setup with
          | true =>
              cases (seed_of_exhausted more).symm.trans further
              cases more.symm.trans room
          | false =>
              have same := spec.unique block begins
              rw [same] at begins canonical
              exact later stored
                (discovers.found more (spec.keeps.mpr begins) stored canonical)
        · exact found room other member block stored begins canonical

end Search
end StateSpace
