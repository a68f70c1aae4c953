import StateSpace.Proofs.Search.Seeds
import StateSpace.Proofs.Search.Soundness

/-!
# Searches that succeed

If no callable breaks a precondition then every operation of a search succeeds
on states that are known: faults can be explained, blocks can be given back, and
there is a shard to push to. So a search comes to its end, as a run of a crew.
-/

namespace StateSpace

variable {layout : Layout}

namespace Search

variable {setup : Setup layout}

/-! ## Faults -/

/-- A fault can be reported with a state that has a trail. -/
theorem addFault_ok
    (sound : setup.model.NeverBreaches)
    (built : layout.Built)
    (search : Search layout)
    (record : FaultRecord)
    {state : State layout.bytes}
    {traceable : Bool}
    (traced : Traced setup state traceable) :
    ∃ reported, search.addFault setup record state traceable = .ok reported := by
  obtain ⟨trace, dump, rendered, dumped⟩ := printed_ok sound built traced
  unfold addFault
  split
  · exact ⟨search, rfl⟩
  · simp only [rendered, bind, Except.bind, dumped]
    exact ⟨_, rfl⟩

theorem addRaised_ok
    (sound : setup.model.NeverBreaches)
    (built : layout.Built)
    (search : Search layout)
    (fault : Fault)
    (context : String)
    {state : State layout.bytes}
    {traceable : Bool}
    (traced : Traced setup state traceable) :
    ∃ reported, search.addRaised setup fault context state traceable = .ok reported := by
  unfold addRaised
  split
  · exact addFault_ok sound built search _ traced
  · exact ⟨search, rfl⟩

/-! ## Candidates -/

theorem discard_ok
    {search : Search layout}
    (free : search.recycler.cached = none)
    (block : Block layout.bytes) :
    ∃ discarded, search.discard block = .ok discarded ∧
      discarded.queue = search.queue := by
  obtain ⟨freed, given⟩ := Recycler.free_ok free block
  exact ⟨{ search with recycler := freed }, by simp only [discard, given]; rfl, rfl⟩

theorem keep_ok
    (sound : setup.model.NeverBreaches)
    {search : Search layout}
    (free : search.recycler.cached = none)
    {shard : Nat}
    (present : shard < search.queue.shardCount)
    (state : State layout.bytes) :
    ∃ kept, search.keep setup shard state = .ok kept ∧
      kept.queue.shardCount = search.queue.shardCount := by
  obtain ⟨block, canonical⟩ := setup.canonical_ok sound state.block
  simp only [keep, canonical, liftBreach_ok, bind, Except.bind]
  split
  · obtain ⟨discarded, ok, queue⟩ := discard_ok free block
    exact ⟨discarded, ok, congrArg WorkQueue.shardCount queue⟩
  · obtain ⟨waiting, pushed, ok⟩ := search.queue.push_ok ⟨block, state.ancestors⟩ present
    simp only [ok, liftBreach_ok]
    refine ⟨_, rfl, ?_⟩
    unfold noteProgress
    split <;> exact (WorkQueue.items_of_push ok).2

/-- What an attempt left can be recorded. -/
theorem record_ok
    (sound : setup.model.NeverBreaches)
    (built : layout.Built)
    {search : Search layout}
    (free : search.recycler.cached = none)
    {shard : Nat}
    (present : shard < search.queue.shardCount)
    {firing : Firing layout}
    (grounded : firing.Grounded setup) :
    ∃ recorded,
      search.record setup shard firing.context firing.blamed firing.state
        firing.traceable firing.judgement = .ok recorded ∧
      recorded.queue.shardCount = search.queue.shardCount := by
  unfold record
  cases judged : firing.judgement with
  | rejected fault =>
      obtain ⟨reported, raised⟩ :=
        addRaised_ok sound built search fault firing.context grounded.blamed
      have frame := addRaised_frame raised
      obtain ⟨recorded, ok, queue⟩ :=
        discard_ok (frame.recycler ▸ free) firing.state.block
      simp only [raised, bind, Except.bind]
      exact ⟨recorded, ok, congrArg WorkQueue.shardCount (queue.trans frame.queue)⟩
  | infeasible =>
      obtain ⟨recorded, ok, queue⟩ := discard_ok free firing.state.block
      exact ⟨recorded, ok, congrArg WorkQueue.shardCount queue⟩
  | violated violation =>
      have arrived := grounded.arrived (by simp [judged, Judgement.keeps])
      have traced : Traced setup firing.state true := fun _ => arrived.trail
      obtain ⟨reported, added⟩ := addFault_ok sound built search violation traced
      have frame := addFault_frame added
      have freed : reported.recycler.cached = none := frame.recycler ▸ free
      simp only [added, bind, Except.bind]
      split
      · obtain ⟨recorded, ok, queue⟩ := discard_ok freed firing.state.block
        exact ⟨recorded, ok, congrArg WorkQueue.shardCount (queue.trans frame.queue)⟩
      · obtain ⟨recorded, ok, shards⟩ :=
          keep_ok sound freed (frame.queue ▸ present) firing.state
        exact ⟨recorded, ok, shards.trans (congrArg WorkQueue.shardCount frame.queue)⟩
  | accepted => exact keep_ok sound free present firing.state

/-! ## Seeding and expansion -/

theorem recordRule_ok
    (sound : setup.model.NeverBreaches)
    (built : layout.Built)
    {search : Search layout}
    {shard : Nat}
    (present : shard < search.queue.shardCount)
    {origin : State layout.bytes}
    {stuck : Bool}
    {rule : Rule layout.bytes}
    {rest : List (Rule layout.bytes)}
    (grounded : (Agenda.rules origin stuck (rule :: rest)).Grounded setup) :
    ∃ outcome recorded,
      setup.model.attemptRuleOn setup.policy origin.block
        (search.recycler.allocCopy origin.block).1 rule = .ok outcome ∧
      search.recordRule setup shard origin rule outcome = .ok recorded ∧
      recorded.queue.shardCount = search.queue.shardCount := by
  have declared := grounded.2 rule (by simp)
  obtain ⟨outcome, attempted, spec⟩ :=
    sound.attemptRule_spec setup.policy origin.block declared
  rw [← Model.attemptRuleOn_alloc built.placed.bytes_lt search.recycler] at attempted
  cases outcome with
  | disabled => exact ⟨.disabled, search, attempted, rfl, rfl⟩
  | guardFault fault =>
      have traced : Traced setup origin true := fun _ => grounded.1.trail
      obtain ⟨reported, raised⟩ :=
        addRaised_ok sound built search fault ("rule " ++ rule.name) traced
      exact ⟨.guardFault fault, reported, attempted, raised,
        congrArg WorkQueue.shardCount (addRaised_frame raised).queue⟩
  | candidate candidate =>
      let allocated : Search layout := { search with
        recycler := (search.recycler.allocCopy origin.block).2
        rulesFired := search.rulesFired + candidate.completed.toNat }
      have free : allocated.recycler.cached = none :=
        search.recycler.cached_allocCopy origin.block
      obtain ⟨recorded, ok, shards⟩ := record_ok sound built free present
        (Firing.Grounded.ofRule grounded.1 declared spec.2.2.2.1)
      exact ⟨.candidate candidate, recorded, attempted, ok, shards⟩

/-- The rules of a known state can be attempted one after the other. -/
theorem fireRules_ok
    (sound : setup.model.NeverBreaches)
    (built : layout.Built)
    {search : Search layout}
    {shard : Nat}
    (present : shard < search.queue.shardCount)
    {origin : State layout.bytes}
    {stuck : Bool}
    {rules : List (Rule layout.bytes)}
    (grounded : (Agenda.rules origin stuck rules).Grounded setup) :
    ∃ fired, search.fireRules setup shard origin stuck rules = .ok fired ∧
      fired.queue.shardCount = search.queue.shardCount := by
  induction rules generalizing search stuck with
  | nil =>
      have traced : Traced setup origin true := fun _ => grounded.1.trail
      obtain ⟨reported, added⟩ :=
        addFault_ok sound built search Setup.deadlockRecord traced
      unfold fireRules addDeadlock
      split
      · split
        · exact ⟨reported, added,
            congrArg WorkQueue.shardCount (addFault_frame added).queue⟩
        · exact ⟨search, rfl, rfl⟩
      · exact ⟨search, rfl, rfl⟩
  | cons rule rest inductionHypothesis =>
      obtain ⟨outcome, recorded, attempted, ok, shards⟩ :=
        recordRule_ok sound built present grounded
      unfold fireRules
      simp only [attempted, liftBreach_ok, bind, Except.bind, ok]
      split
      · exact ⟨recorded, rfl, shards⟩
      · have remaining :
            (Agenda.rules origin (stuck && !isProgress outcome) rest).Grounded setup :=
          ⟨grounded.1, fun other member => grounded.2 other (by simp [member])⟩
        obtain ⟨fired, fires, sameShards⟩ :=
          inductionHypothesis (shards ▸ present) remaining
        exact ⟨fired, fires, sameShards.trans shards⟩

/-- The start states can be attempted one after the other. -/
theorem seed_ok
    (sound : setup.model.NeverBreaches)
    (built : layout.Built)
    (search : Search layout)
    {starts : List (StartState layout.bytes)}
    (grounded : (Agenda.starts starts).Grounded setup) :
    ∃ seeded, search.seed setup starts = .ok seeded := by
  induction starts generalizing search with
  | nil => exact ⟨search, rfl⟩
  | cons start rest inductionHypothesis =>
      have declared := grounded start (by simp)
      obtain ⟨candidate, attempted, -, keeps, -⟩ :=
        sound.attemptStart_spec setup.policy declared
      rw [← Model.attemptStartOn_alloc built.placed.bytes_lt search.recycler]
        at attempted
      have present : search.visited.size % search.queue.shardCount <
          search.queue.shardCount :=
        Nat.mod_lt _ search.queue.nonempty
      let allocated : Search layout :=
        { search with recycler := search.recycler.allocZeroed.2 }
      have free : allocated.recycler.cached = none := search.recycler.cached_allocZeroed
      obtain ⟨recorded, ok, -⟩ := record_ok sound built free present
        (Firing.Grounded.ofStart declared keeps)
      obtain ⟨seeded, further⟩ := inductionHypothesis recorded
        fun other member => grounded other (by simp [member])
      unfold seed
      split
      · exact ⟨search, rfl⟩
      · refine ⟨seeded, Eq.trans ?_ further⟩
        simp only [attempted, liftBreach_ok, bind, Except.bind]
        exact congrArg (· >>= fun next => next.seed setup rest) ok

/-- A state that is taken from the queue can be expanded. -/
theorem expands_ok
    (sound : setup.model.NeverBreaches)
    (built : layout.Built)
    {search : Search layout}
    {shard preferred source : Nat}
    {state : State layout.bytes}
    {rest : WorkQueue (State layout.bytes)}
    (present : shard < search.queue.shardCount)
    (grounded : (search.crew 0).Grounded setup)
    (taken : search.queue.pop? preferred = some (state, source, rest)) :
    ∃ next, Search.expand setup shard state { search with queue := rest } = .ok next ∧
      next.queue.shardCount = search.queue.shardCount := by
  obtain ⟨items, shards, -⟩ := WorkQueue.pop?_items taken
  have known : setup.Known state := grounded.waiting state (by rw [crew, items]; simp)
  have agenda : (Agenda.rules state true setup.model.rules).Grounded setup :=
    ⟨known, fun rule declared => declared⟩
  have inside :
      shard < ({ search with queue := rest } : Search layout).queue.shardCount :=
    shards ▸ present
  obtain ⟨next, expands, sameShards⟩ := fireRules_ok sound built inside agenda
  exact ⟨next, expands, sameShards.trans shards⟩

/-- Exploration goes on until there is no room for faults or nothing waits. -/
theorem explore_reaches
    (sound : setup.model.NeverBreaches)
    (built : layout.Built)
    {search : Search layout}
    {shard : Nat}
    (present : shard < search.queue.shardCount)
    (preferred : Nat)
    (grounded : (search.crew 0).Grounded setup) :
    ∃ explored, search.explore setup shard preferred = .ok explored ∧
      Crew.Reaches setup (search.crew 0) (explored.crew 0) ∧
      (explored.isExhausted setup = true ∨ explored.queue.items = 0) := by
  induction preferred, search using explore.induct setup shard with
  | case1 preferred search exhausted =>
      exact ⟨search, explore_of_exhausted exhausted, .refl _, .inl exhausted⟩
  | case2 preferred search room missing =>
      exact ⟨search, explore_of_empty (Bool.eq_false_iff.mpr room) missing, .refl _,
        .inr (WorkQueue.pop?_eq_none.mp missing)⟩
  | case3 preferred search room state source rest taken error failed =>
      obtain ⟨next, expands, -⟩ := expands_ok sound built present grounded taken
      cases expands.symm.trans failed
  | case4 preferred search room state source rest taken next expanded _
      inductionHypothesis =>
      have roomy := Bool.eq_false_iff.mpr room
      obtain ⟨items, shards, -⟩ := WorkQueue.pop?_items taken
      obtain ⟨other, expands, sameShards⟩ :=
        expands_ok sound built present grounded taken
      cases expands.symm.trans expanded
      obtain ⟨history, run⟩ := expand_reaches items expanded roomy
      obtain ⟨explored, explores, further, ended⟩ :=
        inductionHypothesis (sameShards ▸ present) (run.grounded sound built grounded)
      refine ⟨explored, ?_, .trans ⟨history, run⟩ further, ended⟩
      rw [explore_of_taken roomy taken, expanded]
      exact explores

end Search

namespace Setup

variable {setup : Setup layout}

/-- There is storage for the shards of the queue, and the bits of a state can
be rounded up to bytes. -/
structure Storable (setup : Setup layout) : Prop where
  shards : WorkQueue.shardBytes * setup.workers < Word.allocationLimit
  state : layout.bits + 7 < Word.limit

theorem start_ok
    (storable : setup.Storable) :
    ∃ start, Search.start setup = .ok start := by
  have made : ∃ queue : WorkQueue (State layout.bytes),
      WorkQueue.ofShardCount setup.workers = .ok queue :=
    ⟨_, if_pos storable.shards⟩
  obtain ⟨queue, made⟩ := made
  have padded : Word.add? layout.bits 7 = some (layout.bits + 7) :=
    Word.add?_eq_some.mpr ⟨rfl, storable.state⟩
  have zeroed : layout.zeroed = .ok (.zero layout.bytes) := by
    simp only [Layout.zeroed, bytesForBits, padded]
    rfl
  simp only [Search.start, made, zeroed]
  exact ⟨_, rfl⟩

/-- The search of a setup runs as a crew, until there is no room for faults or
nothing waits. -/
theorem search_reaches
    (sound : setup.model.NeverBreaches)
    (built : layout.Built)
    (storable : setup.Storable)
    (room : 0 < setup.config.maxErrors) :
    ∃ search, setup.search = .ok search ∧
      Crew.Reaches setup (.start setup (.empty layout.bytes)) (search.crew 0) ∧
      (search.isExhausted setup = true ∨ search.queue.items = 0) := by
  obtain ⟨start, started⟩ := start_ok storable
  obtain ⟨fresh, crew, exhausted⟩ := Search.start_crew started
  have roomy : start.isExhausted setup = false := by
    rw [exhausted, decide_eq_false_iff_not]
    omega
  have everyStart : (Agenda.starts setup.model.startStates).Grounded setup :=
    fun start declared => declared
  obtain ⟨seeded, seeds⟩ := Search.seed_ok sound built start everyStart
  have seeding := Search.seed_reaches seeds roomy
  rw [crew, fresh] at seeding
  obtain ⟨history, run⟩ := seeding
  have grounded := run.grounded sound built (Crew.start_grounded setup _)
  let ready : Search layout := { seeded with recycler := .empty layout.bytes }
  have present : 0 < ready.queue.shardCount := ready.queue.nonempty
  obtain ⟨search, explored, exploring, ended⟩ :=
    Search.explore_reaches sound built present 0 grounded
  refine ⟨search, ?_, .trans ⟨history, run⟩ exploring, ended⟩
  simp only [Setup.search, started, liftBreach_ok, bind, Except.bind, seeds]
  exact explored

end Setup
end StateSpace
