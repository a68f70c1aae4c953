import StateSpace.Proofs.Search.Completeness
import StateSpace.Proofs.Search.Paths

/-!
# What an expansion covers

A task that goes through the rules of a state holds at most one candidate at a
time. Whatever the state leads to by a rule that was attempted is discovered or
held, as long as there is room for faults. If nobody else reports faults then a
task only goes on to another candidate while there is.
-/

namespace StateSpace

variable {layout : Layout} {setup : Setup layout}

/-! ## What a task holds -/

/-- The rules that are left to attempt. -/
def Agenda.rulesLeft : Agenda layout → List (Rule layout.bytes)
  | .starts _ => []
  | .rules _ _ rest => rest

/-- The state whose rules are attempted. -/
def Agenda.origin? : Agenda layout → Option (State layout.bytes)
  | .starts _ => none
  | .rules origin _ _ => some origin

/-- The candidate of a firing, if it counts as a state. -/
def Firing.held (firing : Firing layout) : Option (State layout.bytes) :=
  if firing.judgement.keeps then some firing.state else none

def Sequel.held : Sequel layout → Option (State layout.bytes)
  | .weigh kept => kept
  | .leave => none

def Point.held : Point layout → Option (State layout.bytes)
  | .attempt => none
  | .count firing => firing.held
  | .raise _ _ _ sequel => sequel.held
  | .print _ _ _ sequel => sequel.held
  | .log _ sequel => sequel.held
  | .weigh kept => kept
  | .offer state => some state
  | .announce _ => none

/-- The candidate that is still to be offered. -/
def Stage.held : Stage layout → Option (State layout.bytes)
  | .active point => point.held
  | .push _ _ => none
  | .ended => none

/-- Whether a stage is only come to while there is room for faults, if nobody
else reports any. -/
def Stage.isRoomy : Stage layout → Bool
  | .active (.print ..) => false
  | .active (.log ..) => false
  | .active (.weigh _) => false
  | .active _ => true
  | .push _ _ => true
  | .ended => false

def Sequel.isLast : Sequel layout → Bool
  | .weigh _ => false
  | .leave => true

/-- Whether a stage comes after all attempts, unless the room for faults is used
up. -/
def Stage.isLast : Stage layout → Bool
  | .active (.raise _ _ _ sequel) => sequel.isLast
  | .active (.print _ _ _ sequel) => sequel.isLast
  | .active (.log _ sequel) => sequel.isLast
  | .active _ => false
  | .push _ _ => false
  | .ended => true

/-- A task on its way through the rules of a state. -/
structure Task.Expands
    (setup : Setup layout)
    (board : Board layout)
    (origin : State layout.bytes)
    (task : Task layout) : Prop where
  expanded : task.agenda.origin? = some origin
  declared : ∀ rule ∈ task.agenda.rulesLeft, rule ∈ setup.model.rules
  room : task.stage.isRoomy = true → board.isExhausted setup = false
  last : task.stage.isLast = true → board.isExhausted setup = false →
    task.agenda.rulesLeft = []
  held : ∀ state ∈ task.stage.held, ∃ rule ∈ setup.model.rules, ∃ block,
    setup.model.Leads setup.policy origin.block rule block ∧
      state = origin.successor block
  covers : board.isExhausted setup = false → ∀ rule ∈ setup.model.rules,
    rule ∉ task.agenda.rulesLeft → ∀ block stored,
      setup.model.Leads setup.policy origin.block rule block →
      setup.canonical block = .ok stored →
        board.visited.contains stored = true ∨ origin.successor block ∈ task.stage.held

/-- A worker that has taken a state is on its way through the rules. -/
theorem Task.Expands.ofState
    {board : Board layout}
    (room : board.isExhausted setup = false)
    (state : State layout.bytes)
    (recycler : Recycler layout.bytes) :
    (Task.ofState setup state recycler).Expands setup board state where
  expanded := rfl
  declared := fun _ => id
  room := fun _ => room
  last := nofun
  held := nofun
  covers := fun _ _ declared missing => absurd declared missing

/-- A task that has ended with room for faults has discovered everything that
its state leads to. -/
theorem Task.Expands.settled
    {board : Board layout}
    {origin : State layout.bytes}
    {agenda : Agenda layout}
    {recycler : Recycler layout.bytes}
    (expands : Task.Expands setup board origin ⟨agenda, recycler, .ended⟩)
    (room : board.isExhausted setup = false) :
    setup.Settled board.visited origin.block := by
  intro rule declared block stored leads canonical
  have none : agenda.rulesLeft = [] := expands.last rfl room
  have missing : rule ∉ agenda.rulesLeft := by simp [none]
  rcases expands.covers room rule declared missing block stored leads canonical
    with seen | held
  · exact seen
  · cases held

/-! ## What moves keep -/

theorem Stage.afterFault_frame
    (record? : Option FaultRecord)
    (blamed : State layout.bytes)
    (traceable : Bool) :
    (Stage.afterFault record? blamed traceable).held = none ∧
      (Stage.afterFault record? blamed traceable).isLast = false := by
  cases record? <;> exact ⟨rfl, rfl⟩

theorem Firing.Settles.frame
    {firing : Firing layout}
    {agenda : Agenda layout}
    {recycler : Recycler layout.bytes}
    {task : Task layout}
    (settles : firing.Settles agenda recycler task) :
    task.agenda = agenda ∧ task.stage.held = firing.held ∧
      task.stage.isLast = false := by
  unfold Firing.held
  cases settles with
  | rejected judged _ =>
      obtain ⟨held, last⟩ := Stage.afterFault_frame
        (FaultRecord.ofFault? _ firing.context) firing.blamed firing.traceable
      rw [judged]
      exact ⟨rfl, held, last⟩
  | infeasible judged _ =>
      rw [judged]
      exact ⟨rfl, rfl, rfl⟩
  | violated judged =>
      rw [judged]
      exact ⟨rfl, rfl, rfl⟩
  | accepted judged =>
      rw [judged]
      exact ⟨rfl, rfl, rfl⟩

/-- A firing holds exactly what its rule leads to. -/
theorem Model.OutcomeSpec.held
    {origin : State layout.bytes}
    {rule : Rule layout.bytes}
    {candidate : Candidate layout.bytes}
    (spec : setup.model.OutcomeSpec setup.policy origin.block rule
      (.candidate candidate))
    (state : State layout.bytes) :
    state ∈ (Firing.ofRule origin rule candidate).held ↔
      ∃ block, setup.model.Leads setup.policy origin.block rule block ∧
        state = origin.successor block := by
  obtain ⟨-, -, -, keeps, unique⟩ := spec
  unfold Firing.held Firing.ofRule
  constructor
  · intro member
    split at member
    · rename_i kept
      cases member
      exact ⟨candidate.block, keeps.mp kept, rfl⟩
    · cases member
  · rintro ⟨block, leads, rfl⟩
    cases unique block leads
    rw [if_pos (keeps.mpr leads)]
    rfl

/-- An attempt of the first rule that is left moves what the rule leads to into
the hands of the task. -/
theorem Task.Expands.attempt
    {board : Board layout}
    {origin source : State layout.bytes}
    {stuck : Bool}
    {rule : Rule layout.bytes}
    {rest : List (Rule layout.bytes)}
    {recycler owned : Recycler layout.bytes}
    (expands : Task.Expands setup board source
      ⟨.rules origin stuck (rule :: rest), recycler, .active .attempt⟩)
    {agenda : Agenda layout}
    {stage : Stage layout}
    (origins : agenda.origin? = some origin)
    (rules : agenda.rulesLeft = rest)
    (last : stage.isLast = false)
    (holds : ∀ state, state ∈ stage.held ↔ ∃ block,
      setup.model.Leads setup.policy origin.block rule block ∧
      state = origin.successor block) :
    Task.Expands setup board source ⟨agenda, owned, stage⟩ := by
  have room := expands.room rfl
  cases expands.expanded
  have declared : rule ∈ setup.model.rules :=
    expands.declared rule (List.mem_cons_self ..)
  refine ⟨origins, ?_, fun _ => room, fun finished => ?_, fun state member => ?_, ?_⟩
  · intro other member
    rw [rules] at member
    exact expands.declared other (List.mem_cons_of_mem _ member)
  · cases last.symm.trans finished
  · exact ⟨rule, declared, (holds state).mp member⟩
  · intro _ other present missing block stored leads canonical
    rw [rules] at missing
    by_cases same : other = rule
    · subst same
      exact .inr ((holds _).mpr ⟨block, leads, rfl⟩)
    · have absent : other ∉ rule :: rest := by simp [same, missing]
      exact (expands.covers room other present absent block stored leads
        canonical).imp_right nofun

theorem Agenda.Attempts.expands
    {board : Board layout}
    {source : State layout.bytes}
    {agenda : Agenda layout}
    {recycler : Recycler layout.bytes}
    {task : Task layout}
    (attempts : agenda.Attempts setup recycler task)
    (expands : Task.Expands setup board source ⟨agenda, recycler, .active .attempt⟩) :
    task.Expands setup board source := by
  have room := expands.room rfl
  cases attempts with
  | started => cases expands.expanded
  | start _ _ => cases expands.expanded
  | deadlocked _ =>
      exact ⟨expands.expanded, nofun, fun _ => room, fun _ _ => rfl, nofun,
        expands.covers⟩
  | expanded _ =>
      exact ⟨expands.expanded, nofun, nofun, fun _ _ => rfl, nofun, expands.covers⟩
  | disabled attempted =>
      refine expands.attempt rfl rfl rfl fun state => ⟨nofun, ?_⟩
      rintro ⟨block, leads, -⟩
      cases leads.enabled.symm.trans (Model.attemptRule_eq_ok attempted)
  | guardFault attempted =>
      obtain ⟨held, last⟩ := Stage.afterFault_frame
        (FaultRecord.ofFault? _ ("rule " ++ _)) _ true
      refine expands.attempt rfl rfl last fun state => ?_
      rw [held]
      refine ⟨nofun, ?_⟩
      rintro ⟨block, leads, -⟩
      cases leads.enabled.symm.trans (Model.attemptRule_eq_ok attempted)
  | completed attempted _ =>
      exact expands.attempt rfl rfl rfl (Model.attemptRule_eq_ok attempted).held
  | faulted attempted _ settles =>
      obtain ⟨kept, held, last⟩ := settles.frame
      refine expands.attempt (by rw [kept]; rfl) (by rw [kept]; rfl) last fun state => ?_
      rw [held]
      exact Model.OutcomeSpec.held (Model.attemptRule_eq_ok attempted) state

/-- A task between two attempts keeps what it holds until it has offered it or
the room for faults is used up. -/
theorem Task.Expands.move
    {board advanced : Board layout}
    {origin : State layout.bytes}
    {agenda : Agenda layout}
    {recycler owned : Recycler layout.bytes}
    {stage next : Stage layout}
    (expands : Task.Expands setup board origin ⟨agenda, recycler, stage⟩)
    (earlier : advanced.isExhausted setup = false → board.isExhausted setup = false)
    (seen : ∀ block, board.visited.contains block = true →
      advanced.visited.contains block = true)
    (room : next.isRoomy = true → advanced.isExhausted setup = false)
    (last : next.isLast = true → advanced.isExhausted setup = false →
      stage.isLast = true)
    (held : ∀ state ∈ next.held, state ∈ stage.held)
    (offered : advanced.isExhausted setup = false → ∀ state ∈ stage.held,
      state ∈ next.held ∨ ∀ stored, setup.canonical state.block = .ok stored →
      advanced.visited.contains stored = true) :
    Task.Expands setup advanced origin ⟨agenda, owned, next⟩ where
  expanded := expands.expanded
  declared := expands.declared
  room := room
  last := fun finished more => expands.last (last finished more) (earlier more)
  held := fun state member => expands.held state (held state member)
  covers := by
    intro more rule declared missing block stored leads canonical
    rcases expands.covers (earlier more) rule declared missing block stored
      leads canonical with found | inHand
    · exact .inl (seen stored found)
    · rcases offered more _ inHand with still | discovered
      · exact .inr still
      · exact .inl (discovered stored canonical)

theorem Sequel.frame_stage (sequel : Sequel layout) :
    sequel.stage.held = sequel.held ∧ sequel.stage.isRoomy = false ∧
      sequel.stage.isLast = sequel.isLast := by
  cases sequel <;> exact ⟨rfl, rfl, rfl⟩

/-- If nobody else reports faults, a task stays on its way from point to point. -/
theorem Point.Advances.expands
    {queued : Nat}
    {agenda : Agenda layout}
    {recycler : Recycler layout.bytes}
    {board advanced : Board layout}
    {origin : State layout.bytes}
    {point : Point layout}
    {task : Task layout}
    (advances : point.Advances setup queued agenda recycler board task advanced)
    (expands : Task.Expands setup board origin ⟨agenda, recycler, .active point⟩) :
    task.Expands setup advanced origin := by
  have seen := advances.visited.1
  have earlier := advances.room
  cases advances with
  | attempt attempts => exact attempts.expands expands
  | count settles =>
      have room := expands.room rfl
      obtain ⟨task, owned, stage⟩ := task
      obtain ⟨rfl, held, last⟩ := settles.frame
      refine expands.move earlier seen (fun _ => room) ?_ ?_ ?_
      · intro finished
        cases last.symm.trans finished
      · intro state member
        rw [held] at member
        exact member
      · intro _ state member
        refine .inl ?_
        rw [held]
        exact member
  | forgo exhausted => cases exhausted.symm.trans (expands.room rfl)
  | claim _ =>
      exact expands.move earlier seen nofun (fun last _ => last) (fun _ => id)
        fun _ _ => .inl
  | print _ _ =>
      exact expands.move earlier seen nofun (fun last _ => last) (fun _ => id)
        fun _ _ => .inl
  | @log record sequel =>
      obtain ⟨held, room, last⟩ := sequel.frame_stage
      refine expands.move earlier seen ?_ ?_ ?_ ?_
      · intro roomy
        cases room.symm.trans roomy
      · intro finished _
        rw [last] at finished
        exact finished
      · intro state member
        rw [held] at member
        exact member
      · intro _ state member
        refine .inl ?_
        rw [held]
        exact member
  | leave exhausted =>
      refine expands.move earlier seen nofun (fun _ more => ?_) nofun fun more => ?_
      · cases exhausted.symm.trans more
      · cases exhausted.symm.trans more
  | discard exhausted _ =>
      refine expands.move earlier seen nofun (fun _ more => ?_) nofun fun more => ?_
      · cases exhausted.symm.trans more
      · cases exhausted.symm.trans more
  | resume room =>
    exact expands.move earlier seen (fun _ => room) nofun nofun fun _ _ => nofun
  | keep room =>
    exact expands.move earlier seen (fun _ => room) nofun (fun _ => id) fun _ _ => .inl
  | known canonical found _ =>
      have room := expands.room rfl
      refine expands.move earlier seen (fun _ => room) nofun nofun ?_
      rintro - state ⟨rfl⟩
      refine .inr fun stored again => ?_
      cases canonical.symm.trans again
      exact found
  | discover canonical _ =>
      have room := expands.room rfl
      refine expands.move earlier seen (fun _ => room) nofun nofun ?_
      rintro - state ⟨rfl⟩
      refine .inr fun stored again => ?_
      cases canonical.symm.trans again
      simp [VisitedSet.contains_insert]
  | progress _ =>
      have room := expands.room rfl
      exact expands.move earlier seen (fun _ => room) nofun nofun fun _ _ => nofun
  | quiet _ =>
      have room := expands.room rfl
      exact expands.move earlier seen (fun _ => room) nofun nofun fun _ _ => nofun

end StateSpace
