import StateSpace.Proofs.Search.Crew
import StateSpace.Proofs.Search.Handed
import StateSpace.Proofs.Search.Trail

/-!
# Soundness of expansion

If no callable breaks a precondition and the layout is built then no step of a
crew fails, and a crew discovers nothing but reachable blocks. Its invariant
says what every task holds at the point that it has come to: which states have
a trail, which lead to reachable blocks, and that a task with a candidate in
its hands has no discarded block in its recycler.
-/

namespace StateSpace

variable {layout : Layout}

/-- A stored state whose block is reachable along its trail. -/
structure Setup.Known
    (setup : Setup layout)
    (state : State layout.bytes) : Prop where
  reachable : setup.Reachable state.block
  trail : setup.replay.Trail state.block state.ancestors

/-- A state as it was left by a callable, whose canonical form is known. -/
structure Setup.Arrived
    (setup : Setup layout)
    (state : State layout.bytes) : Prop where
  trail : setup.replay.Trail state.block state.ancestors
  stored : ∀ block, setup.canonical state.block = .ok block →
    setup.Known ⟨block, state.ancestors⟩

/-- The callables on an agenda are those of the model, and its origin is known. -/
def Agenda.Grounded
    (setup : Setup layout) : Agenda layout → Prop
  | .starts rest => ∀ start ∈ rest, start ∈ setup.model.startStates
  | .rules origin _ rest =>
    setup.Known origin ∧ ∀ rule ∈ rest, rule ∈ setup.model.rules

/-- A traceable state has a trail. -/
def Traced
    (setup : Setup layout)
    (state : State layout.bytes)
    (traceable : Bool) : Prop :=
  traceable = true → setup.replay.Trail state.block state.ancestors

/-- A candidate that counts as a state has arrived. -/
structure Firing.Grounded
    (setup : Setup layout)
    (firing : Firing layout) : Prop where
  blamed : Traced setup firing.blamed firing.traceable
  arrived : firing.judgement.keeps = true → setup.Arrived firing.state

/-- A violating state that is to be kept has arrived, and the recycler has
room for its block. -/
def KeptGrounded
    (setup : Setup layout)
    (recycler : Recycler layout.bytes)
    (kept : Option (State layout.bytes)) : Prop :=
  ∀ state ∈ kept, setup.Arrived state ∧ recycler.cached = none

/-- What follows a reported fault is grounded. -/
def Sequel.Grounded
    (setup : Setup layout)
    (recycler : Recycler layout.bytes) : Sequel layout → Prop
  | .weigh kept => KeptGrounded setup recycler kept
  | .leave => True

/-- What a task holds at a point. -/
def Point.Grounded
    (setup : Setup layout)
    (recycler : Recycler layout.bytes) : Point layout → Prop
  | .attempt => True
  | .count firing => firing.Grounded setup ∧ recycler.cached = none
  | .raise _ state traceable sequel =>
    Traced setup state traceable ∧ sequel.Grounded setup recycler
  | .print _ state traceable sequel =>
    Traced setup state traceable ∧ sequel.Grounded setup recycler
  | .log _ sequel => sequel.Grounded setup recycler
  | .weigh kept => KeptGrounded setup recycler kept
  | .offer state => setup.Arrived state ∧ recycler.cached = none
  | .announce _ => True

/-- What a task holds at a stage. -/
def Stage.Grounded
    (setup : Setup layout)
    (recycler : Recycler layout.bytes) : Stage layout → Prop
  | .active point => point.Grounded setup recycler
  | .push state _ => setup.Known state
  | .ended => True

/-- What a task holds. -/
structure Task.Grounded
    (setup : Setup layout)
    (task : Task layout) : Prop where
  agenda : task.agenda.Grounded setup
  stage : task.stage.Grounded setup task.recycler

/-- Every discovered block is reachable. -/
def Board.Grounded
    (setup : Setup layout)
    (board : Board layout) : Prop :=
  ∀ block, board.visited.contains block = true → setup.Reachable block

/-! ## What attempts hand over -/

variable {setup : Setup layout}

theorem Setup.canonical_ok
    (sound : setup.model.NeverBreaches)
    (block : Block layout.bytes) :
    ∃ stored, setup.canonical block = .ok stored := by
  unfold canonical canonicalizer
  split
  · rename_i canonicalize present
    split at present
    · exact sound.canonicalizer canonicalize present block
    · cases present
  · exact ⟨block, rfl⟩

theorem Setup.replay_canonicalizes
    (sound : setup.model.NeverBreaches) :
    setup.replay.Canonicalizes := by
  intro canonicalize present block
  have applied : setup.canonicalizer = some canonicalize := present
  unfold canonicalizer at applied
  split at applied
  · exact sound.canonicalizer canonicalize applied block
  · cases applied

/-- Replay records the canonical form of a block. -/
theorem Setup.records_canonical
    {block stored : Block layout.bytes}
    (canonical : setup.canonical block = .ok stored) :
    setup.replay.Records block stored := by
  unfold Setup.canonical at canonical
  split at canonical
  · rename_i canonicalize present
    exact .inr ⟨canonicalize, present, canonical⟩
  · cases canonical
    exact .inl rfl

/-- What a start state leaves has arrived if it counts as a state. -/
theorem Setup.Arrived.ofStart
    {start : StartState layout.bytes}
    {block : Block layout.bytes}
    (declared : start ∈ setup.model.startStates)
    (begins : setup.model.Begins setup.policy start block) :
    setup.Arrived (.ofBlock block) where
  trail := ⟨start, declared, block, begins.runs, .inl rfl⟩
  stored := fun _ canonical =>
    { reachable := .start declared begins canonical
      trail := ⟨start, declared, block, begins.runs, records_canonical canonical⟩ }

/-- What a rule leaves in a known state has arrived if it counts as a state. -/
theorem Setup.Arrived.ofRule
    {origin : State layout.bytes}
    {rule : Rule layout.bytes}
    {block : Block layout.bytes}
    (known : setup.Known origin)
    (declared : rule ∈ setup.model.rules)
    (leads : setup.model.Leads setup.policy origin.block rule block) :
    setup.Arrived (origin.successor block) where
  trail := ⟨⟨rule, declared, block, leads.enabled, leads.runs, .inl rfl⟩, known.trail⟩
  stored := fun _ canonical =>
    { reachable := .rule known.reachable declared leads canonical
      trail :=
        ⟨⟨rule, declared, block, leads.enabled, leads.runs, records_canonical canonical⟩,
          known.trail⟩ }

/-- The candidate of a start state is grounded. -/
theorem Firing.Grounded.ofStart
    {start : StartState layout.bytes}
    {candidate : Candidate layout.bytes}
    (declared : start ∈ setup.model.startStates)
    (keeps : candidate.judgement.keeps = true ↔
      setup.model.Begins setup.policy start candidate.block) :
    (Firing.ofStart start candidate).Grounded setup where
  blamed := nofun
  arrived := fun kept => .ofStart declared (keeps.mp kept)

/-- The candidate of a rule in a known state is grounded. -/
theorem Firing.Grounded.ofRule
    {origin : State layout.bytes}
    {rule : Rule layout.bytes}
    {candidate : Candidate layout.bytes}
    (known : setup.Known origin)
    (declared : rule ∈ setup.model.rules)
    (keeps : candidate.judgement.keeps = true ↔
      setup.model.Leads setup.policy origin.block rule candidate.block) :
    (Firing.ofRule origin rule candidate).Grounded setup where
  blamed := fun _ => known.trail
  arrived := fun kept => .ofRule known declared (keeps.mp kept)

theorem Recycler.free_ok
    {size : Nat}
    {recycler : Recycler size}
    (room : recycler.cached = none)
    (block : Block size) :
    ∃ freed, recycler.free block = .ok freed := by
  unfold Recycler.free
  rw [room]
  exact ⟨{ recycler with cached := some block }, by simp⟩

theorem KeptGrounded.none
    {recycler : Recycler layout.bytes} :
    KeptGrounded setup recycler none := nofun

theorem Sequel.Grounded.stage
    {recycler : Recycler layout.bytes}
    {sequel : Sequel layout}
    (grounded : sequel.Grounded setup recycler) :
    sequel.stage.Grounded setup recycler := by
  cases sequel with
  | weigh kept => exact grounded
  | leave => trivial

theorem Stage.afterFault_grounded
    {recycler : Recycler layout.bytes}
    (record? : Option FaultRecord)
    {blamed : State layout.bytes}
    {traceable : Bool}
    (traced : Traced setup blamed traceable) :
    (Stage.afterFault record? blamed traceable).Grounded setup recycler := by
  cases record? with
  | none => exact KeptGrounded.none
  | some record => exact ⟨traced, KeptGrounded.none⟩

/-- A firing is settled without a failure. -/
theorem Firing.Grounded.settle
    {firing : Firing layout}
    (grounded : firing.Grounded setup)
    {agenda : Agenda layout}
    (rest : agenda.Grounded setup)
    {recycler : Recycler layout.bytes}
    (room : recycler.cached = none) :
    ∃ task, firing.settle agenda recycler = .ok task ∧ task.Grounded setup := by
  obtain ⟨freed, free⟩ := Recycler.free_ok room firing.state.block
  unfold Firing.settle
  cases judged : firing.judgement with
  | rejected fault =>
      refine ⟨⟨agenda, freed, _⟩, by simp only [free]; rfl, rest, ?_⟩
      exact Stage.afterFault_grounded _ grounded.blamed
  | infeasible =>
      exact ⟨⟨agenda, freed, .active .attempt⟩, by simp only [free]; rfl, rest, trivial⟩
  | violated record =>
      have arrived := grounded.arrived (by simp [judged, Judgement.keeps])
      refine ⟨_, rfl, rest, fun _ => arrived.trail, ?_⟩
      rintro state ⟨rfl⟩
      exact ⟨arrived, room⟩
  | accepted =>
      have arrived := grounded.arrived (by simp [judged, Judgement.keeps])
      exact ⟨_, rfl, rest, arrived, room⟩

/-- What comes first on an agenda is attempted without a failure. -/
theorem Agenda.Grounded.attempt
    (sound : setup.model.NeverBreaches)
    (built : layout.Built)
    {agenda : Agenda layout}
    (grounded : agenda.Grounded setup)
    (recycler : Recycler layout.bytes) :
    ∃ task, agenda.attempt setup recycler = .ok task ∧ task.Grounded setup := by
  match agenda with
  | .starts [] => exact ⟨_, rfl, grounded, trivial⟩
  | .starts (start :: rest) =>
    have declared := grounded start (by simp)
    obtain ⟨candidate, attempted, -, keeps, -⟩ :=
      sound.attemptStart_spec setup.policy declared
    have firing := Firing.Grounded.ofStart declared keeps
    have remaining : (Agenda.starts rest).Grounded setup :=
      fun other member => grounded other (by simp [member])
    simp only [Agenda.attempt,
      Model.attemptStartOn_alloc built.placed.bytes_lt, attempted]
    exact firing.settle remaining recycler.cached_allocZeroed
  | .rules origin stuck [] =>
    refine ⟨_, rfl, ⟨grounded.1, nofun⟩, ?_⟩
    split
    · exact ⟨fun _ => grounded.1.trail, trivial⟩
    · trivial
  | .rules origin stuck (rule :: rest) =>
    have declared := grounded.2 rule (by simp)
    have remaining : ∀ stuck, (Agenda.rules origin stuck rest).Grounded setup :=
      fun _ => ⟨grounded.1, fun other member => grounded.2 other (by simp [member])⟩
    obtain ⟨outcome, attempted, spec⟩ :=
      sound.attemptRule_spec setup.policy origin.block declared
    simp only [Agenda.attempt,
      Model.attemptRuleOn_alloc built.placed.bytes_lt, attempted]
    cases outcome with
    | disabled => exact ⟨_, rfl, remaining stuck, trivial⟩
    | guardFault fault =>
        exact ⟨_, rfl, remaining stuck,
          Stage.afterFault_grounded _ fun _ => grounded.1.trail⟩
    | candidate candidate =>
        have firing := Firing.Grounded.ofRule grounded.1 declared spec.2.2.2.1
        have room := recycler.cached_allocCopy origin.block
        by_cases completed : candidate.completed = true
        · refine ⟨⟨.rules origin false rest, (recycler.allocCopy origin.block).2,
            .active (.count _)⟩, if_pos completed, remaining false, firing, room⟩
        · obtain ⟨task, settled, sane⟩ := firing.settle (remaining false) room
          exact ⟨task, (if_neg completed).trans settled, sane⟩

/-- A fault is printed without a failure. -/
theorem printed_ok
    (sound : setup.model.NeverBreaches)
    (built : layout.Built)
    {state : State layout.bytes}
    {traceable : Bool}
    (traced : Traced setup state traceable) :
    ∃ trace dump, Search.traceLines setup state traceable = .ok trace ∧
      Search.dumpLines state trace = .ok dump := by
  obtain ⟨lines, shown⟩ := built.stateLines_ok state.block
  unfold Search.traceLines
  by_cases wanted : traceable = true ∧ setup.config.counterexampleTrace ≠ .off
  · obtain ⟨steps, replayed⟩ := Replay.reconstruct_ok sound
      (Setup.replay_canonicalizes sound) built (traced wanted.1)
    refine ⟨some (Step.render setup.config.counterexampleTrace steps), [], ?_, rfl⟩
    rw [if_pos wanted]
    simp only [replayed]
    rfl
  · refine ⟨none, lines, ?_, ?_⟩
    · rw [if_neg wanted]
      rfl
    · simp only [Search.dumpLines, shown]
      rfl

/-- A grounded point is left without a failure, for another grounded point, and
what it adds to the discovered blocks is reachable. -/
theorem Point.Grounded.advance
    (sound : setup.model.NeverBreaches)
    (built : layout.Built)
    {point : Point layout}
    {agenda : Agenda layout}
    {recycler : Recycler layout.bytes}
    {board : Board layout}
    (queued : Nat)
    (grounded : point.Grounded setup recycler)
    (rest : agenda.Grounded setup)
    (discovered : board.Grounded setup) :
    ∃ task advanced, point.advance setup queued agenda recycler board =
        .ok (task, advanced) ∧
      task.Grounded setup ∧ advanced.Grounded setup := by
  cases point with
  | attempt =>
      obtain ⟨task, attempted, sane⟩ := rest.attempt sound built recycler
      exact ⟨task, board, by simp only [Point.advance, attempted]; rfl, sane, discovered⟩
  | count firing =>
      obtain ⟨task, settled, sane⟩ := grounded.1.settle rest grounded.2
      exact ⟨task, { board with rulesFired := board.rulesFired + 1 },
        by simp only [Point.advance, settled]; rfl, sane, discovered⟩
  | raise record state traceable sequel =>
      refine ⟨_, _, rfl, ⟨rest, ?_⟩, discovered⟩
      split
      · exact grounded.2.stage
      · exact grounded
  | print record state traceable sequel =>
      obtain ⟨trace, dump, traced, dumped⟩ := printed_ok sound built grounded.1
      refine ⟨⟨agenda, recycler, .active (.log record sequel)⟩,
        { board with report := board.report.add (.fault record trace dump) },
        ?_, ⟨rest, grounded.2⟩, discovered⟩
      simp only [Point.advance, traced, bind, Except.bind, dumped]
      rfl
  | log record sequel => exact ⟨_, _, rfl, ⟨rest, grounded.stage⟩, discovered⟩
  | weigh kept =>
      unfold Point.advance
      cases board.isExhausted setup with
      | true =>
          cases kept with
          | none => exact ⟨_, _, rfl, ⟨rest, trivial⟩, discovered⟩
          | some state =>
              obtain ⟨freed, free⟩ := Recycler.free_ok (grounded state rfl).2 state.block
              exact ⟨⟨agenda, freed, .ended⟩, board, by simp only [free]; rfl,
                ⟨rest, trivial⟩, discovered⟩
      | false =>
          cases kept with
          | none => exact ⟨_, _, rfl, ⟨rest, trivial⟩, discovered⟩
          | some state => exact ⟨_, _, rfl, ⟨rest, grounded state rfl⟩, discovered⟩
  | offer state =>
      obtain ⟨block, canonical⟩ := setup.canonical_ok sound state.block
      have known := grounded.1.stored block canonical
      simp only [Point.advance, canonical]
      by_cases seen : board.visited.contains block = true
      · obtain ⟨freed, free⟩ := Recycler.free_ok grounded.2 block
        refine ⟨⟨agenda, freed, .active .attempt⟩, board, (if_pos seen).trans ?_,
          ⟨rest, trivial⟩, discovered⟩
        simp only [free]
        rfl
      · refine ⟨⟨agenda, recycler, .push ⟨block, state.ancestors⟩ _⟩,
          { board with visited := board.visited.insert block }, if_neg seen,
          ⟨rest, known⟩, ?_⟩
        intro other member
        rw [VisitedSet.contains_insert, Bool.or_eq_true, beq_iff_eq] at member
        rcases member with rfl | member
        · exact known.reachable
        · exact discovered other member
  | announce size =>
      refine ⟨_, _, rfl, ⟨rest, trivial⟩, ?_⟩
      split <;> exact discovered

/-! ## Grounded crews -/

namespace Crew

/-- What a crew holds. -/
structure Grounded
    (setup : Setup layout)
    (crew : Crew layout) : Prop where
  board : crew.board.Grounded setup
  waiting : ∀ state ∈ crew.waiting, setup.Known state
  tasks : ∀ task ∈ crew.tasks, task.Grounded setup

theorem start_grounded
    (setup : Setup layout)
    (recycler : Recycler layout.bytes) :
    (start setup recycler).Grounded setup where
  board := by
    intro block member
    simp [start, emptyBoard] at member
  waiting := by
    intro state member
    simp [start] at member
  tasks := by
    intro task member
    rw [Multiset.mem_singleton.mp member]
    exact ⟨fun start declared => declared, trivial⟩

theorem Step.grounded
    (sound : setup.model.NeverBreaches)
    (built : layout.Built)
    {crew next : Crew layout}
    {events : List (Event layout.bytes)}
    (step : Step setup crew events next)
    (grounded : crew.Grounded setup) :
    next.Grounded setup := by
  obtain ⟨discovered, waiting, tasks⟩ := grounded
  cases step with
  | take =>
      refine ⟨discovered, fun state member => waiting state (by simp [member]), ?_⟩
      intro task member
      rcases Multiset.mem_cons.mp member with rfl | member
      · exact ⟨⟨waiting _ (by simp), fun rule declared => declared⟩, trivial⟩
      · exact tasks task member
  | @advance _ _ _ _ _ _ _ _ queued moved =>
      have before := tasks _ (Multiset.mem_cons_self ..)
      obtain ⟨task, advanced, unfailing, sane, found⟩ :=
        Point.Grounded.advance sound built queued before.stage before.agenda discovered
      cases unfailing.symm.trans moved
      refine ⟨found, waiting, ?_⟩
      intro other member
      rcases Multiset.mem_cons.mp member with rfl | member
      · exact sane
      · exact tasks other (by simp [member])
  | push =>
      have before := tasks _ (Multiset.mem_cons_self ..)
      refine ⟨discovered, ?_, ?_⟩
      · intro state member
        rcases Multiset.mem_cons.mp member with rfl | member
        · exact before.stage
        · exact waiting state member
      · intro other member
        rcases Multiset.mem_cons.mp member with rfl | member
        · exact ⟨before.agenda, trivial⟩
        · exact tasks other (by simp [member])
  | finish =>
      exact ⟨discovered, waiting, fun other member => tasks other (by simp [member])⟩

theorem Run.grounded
    (sound : setup.model.NeverBreaches)
    (built : layout.Built)
    {first last : Crew layout}
    {history : List (Event layout.bytes)}
    (run : Run setup first history last)
    (grounded : first.Grounded setup) :
    last.Grounded setup :=
  run.invariant (fun _ crew => crew.Grounded setup) (Step.grounded sound built) grounded

/-- Every task of a grounded crew can go on. -/
theorem Grounded.step
    (sound : setup.model.NeverBreaches)
    (built : layout.Built)
    {board : Board layout}
    {waiting : Multiset (State layout.bytes)}
    {task : Task layout}
    {tasks : Multiset (Task layout)}
    (grounded : Grounded setup ⟨board, waiting, task ::ₘ tasks⟩) :
    ∃ events next, Step setup ⟨board, waiting, task ::ₘ tasks⟩ events next := by
  obtain ⟨agenda, recycler, stage⟩ := task
  have before := grounded.tasks _ (Multiset.mem_cons_self ..)
  cases stage with
  | active point =>
      obtain ⟨next, advanced, moved, -⟩ :=
        Point.Grounded.advance sound built 0 before.stage before.agenda grounded.board
      exact ⟨_, _, .advance moved⟩
  | push state size => exact ⟨_, _, .push⟩
  | ended => exact ⟨_, _, .finish⟩

end Crew
end StateSpace
