import StateSpace.Proofs.Search.DiscardedWrites
import StateSpace.Proofs.Search.Sequential

/-!
# Discarded candidates leave no trace

The storage of a discarded candidate is handed out again, with what was written
to it. Two searches whose rules differ in such writes only are in step: they
have discovered, reported and counted the same, and what differs is the content
of the storage that they keep for reuse. Every later candidate overwrites all of
it.
-/

namespace StateSpace

section

variable {layout : Layout} {setup : Setup layout}

/-- The setup with other rules. -/
def Setup.withRules
    (setup : Setup layout)
    (rules : List (Rule layout.bytes)) : Setup layout :=
  { setup with model := setup.model.withRules rules }

/-- Rules that differ at most in what they write to candidates that the run
discards. -/
def Setup.SameButDiscarded
    (setup : Setup layout)
    (twins : List (Rule layout.bytes)) : Prop :=
  List.Forall₂ (setup.model.SameButDiscarded setup.policy) setup.model.rules twins

/-- The states that a state was derived from have passed the assumptions. -/
def Setup.Passed
    (setup : Setup layout)
    (state : State layout.bytes) : Prop :=
  ∀ block ∈ state.ancestors, setup.model.checkAssumptions setup.policy block = .ok ()

/-! ## Storage -/

/-- A block is given back as another one is. -/
theorem Recycler.free_agree
    {size : Nat}
    {recycler twin : Recycler size}
    (cached : twin.cached.isSome = recycler.cached.isSome)
    (block other : Block size) :
    Agree (fun freed otherFreed => otherFreed.cached.isSome = freed.cached.isSome)
      (recycler.free block) (twin.free other) := by
  cases found : recycler.cached with
  | none =>
      have vacant : twin.cached = none := by simpa [found] using cached
      simp only [free, found, vacant]
      exact .ok rfl
  | some waiting =>
      have full : twin.cached.isSome = true := by simpa [found] using cached
      obtain ⟨_, occupied⟩ := Option.isSome_iff_exists.mp full
      simp only [free, found, occupied]
      exact .error _

/-- What is handed out does not depend on what is kept for reuse, but for whether
something is. -/
theorem Recycler.alloc_congr
    {size : Nat}
    {recycler twin : Recycler size}
    (cached : twin.cached.isSome = recycler.cached.isSome) :
    twin.allocZeroed.1 = recycler.allocZeroed.1 ∧
      ∀ origin : Block size, (twin.allocCopy origin).1 =
        (recycler.allocCopy origin).1 := by
  cases found : recycler.cached with
  | none =>
      have vacant : twin.cached = none := by simpa [found] using cached
      simp [allocZeroed, allocCopy, alloc, found, vacant]
  | some waiting =>
      have full : twin.cached.isSome = true := by simpa [found] using cached
      obtain ⟨_, occupied⟩ := Option.isSome_iff_exists.mp full
      exact ⟨by simp only [allocZeroed, alloc, found, occupied, Except.map],
        fun origin => by simp [allocCopy, alloc, found, occupied]⟩

namespace Search

/-- A search and the same search with other contents of the storage kept for
reuse. The waiting states were derived from states that passed the
assumptions. -/
inductive InStep (setup : Setup layout) : Search layout → Search layout → Prop
  | intro
      {search : Search layout}
      {recycler : Recycler layout.bytes}
      (cached : recycler.cached.isSome = search.recycler.cached.isSome)
      (passed : ∀ state ∈ search.queue.items, setup.Passed state) :
      InStep setup search { search with recycler := recycler }

section

variable
  {twins : List (Rule layout.bytes)}
  {shard : Nat}
  {search twin : Search layout}

/-! ## Faults -/

section

variable (same : setup.SameButDiscarded twins)
include same

theorem traceLines_withRules
    {state : State layout.bytes}
    (passed : setup.Passed state)
    (traceable : Bool) :
    traceLines (setup.withRules twins) state traceable =
      traceLines setup state traceable := by
  have traced : (setup.withRules twins).replay.reconstruct state =
      setup.replay.reconstruct state :=
    setup.replay.reconstruct_withRules twins same passed
  rw [traceLines, traceLines, traced]
  rfl

theorem addFault_inStep
    (step : InStep setup search twin)
    {state : State layout.bytes}
    (passed : setup.Passed state)
    (record : FaultRecord)
    (traceable : Bool) :
    Agree (InStep setup)
      (search.addFault setup record state traceable)
      (twin.addFault (setup.withRules twins) record state traceable) := by
  obtain ⟨cached, waiting⟩ := step
  rw [addFault, addFault, traceLines_withRules same passed]
  refine .ite (fun _ => .ok (.intro cached waiting)) fun _ => ?_
  exact .bind_same fun trace _ => .bind_same fun dump _ => .ok (.intro cached waiting)

theorem addRaised_inStep
    (step : InStep setup search twin)
    {state : State layout.bytes}
    (passed : setup.Passed state)
    (fault : Fault)
    (context : String)
    (traceable : Bool) :
    Agree (InStep setup)
      (search.addRaised setup fault context state traceable)
      (twin.addRaised (setup.withRules twins) fault context state traceable) := by
  unfold addRaised
  split
  · exact addFault_inStep same step passed _ traceable
  · exact .ok step

end

/-! ## Candidates -/

/-- It makes no difference which blocks are discarded. -/
theorem discard_inStep
    (step : InStep setup search twin)
    (block other : Block layout.bytes) :
    Agree (InStep setup) (search.discard block) (twin.discard other) := by
  obtain ⟨cached, waiting⟩ := step
  exact (Recycler.free_agree cached block other).lift.bind
    fun freed otherFreed _ cached => .ok (.intro cached waiting)

theorem noteProgress_inStep
    (step : InStep setup search twin) :
    InStep setup (search.noteProgress setup)
      (twin.noteProgress (setup.withRules twins)) := by
  obtain ⟨cached, waiting⟩ := step
  have interval : (setup.withRules twins).config = setup.config := rfl
  simp only [noteProgress, interval]
  split
  · exact .intro cached waiting
  · exact .intro cached waiting

theorem keep_inStep
    (step : InStep setup search twin)
    {state : State layout.bytes}
    (passed : setup.Passed state) :
    Agree (InStep setup)
      (search.keep setup shard state)
        (twin.keep (setup.withRules twins) shard state) := by
  rw [keep, keep]
  refine .bind_same fun block _ => ?_
  obtain ⟨cached, waiting⟩ := step
  refine .ite (fun _ => discard_inStep (.intro cached waiting) block block) fun _ => ?_
  refine .bind_same fun pushed ok => ?_
  obtain ⟨length, queue⟩ := pushed
  refine .ok (noteProgress_inStep (.intro cached ?_))
  rw [(WorkQueue.items_of_push (liftBreach_eq_ok.mp ok)).1]
  intro other member
  rcases Multiset.mem_cons.mp member with rfl | earlier
  · exact passed
  · exact waiting other earlier

/-! ## Outcomes of attempts -/

section

variable (same : setup.SameButDiscarded twins)
include same

/-- A rejection is reported with the state that is blamed, whatever was written to
the candidate. -/
theorem record_rejected_inStep
    (step : InStep setup search twin)
    {blamed : State layout.bytes}
    (passed : setup.Passed blamed)
    (context : String)
    (state other : State layout.bytes)
    (traceable : Bool)
    (fault : Fault) :
    Agree (InStep setup)
      (search.record setup shard context blamed state traceable (.rejected fault))
      (twin.record (setup.withRules twins) shard context blamed other traceable
        (.rejected fault)) :=
  (addRaised_inStep same step passed fault context traceable).bind fun _ _ _ reported =>
    discard_inStep reported state.block other.block

/-- The same candidate is recorded in the same way. -/
theorem record_inStep
    (step : InStep setup search twin)
    {blamed state : State layout.bytes}
    (blamedPassed : setup.Passed blamed)
    (passed : setup.Passed state)
    (context : String)
    (traceable : Bool)
    (judgement : Judgement) :
    Agree (InStep setup)
      (search.record setup shard context blamed state traceable judgement)
      (twin.record (setup.withRules twins) shard context blamed state traceable
        judgement) := by
  cases judgement with
  | rejected fault =>
      exact record_rejected_inStep same step blamedPassed context state state
        traceable fault
  | infeasible => exact discard_inStep step state.block state.block
  | violated violation =>
      refine (addFault_inStep same step passed violation true).bind
        fun reported other _ step => ?_
      obtain ⟨cached, waiting⟩ := step
      exact .ite (fun _ =>
        discard_inStep (.intro cached waiting) state.block state.block)
        fun _ => keep_inStep (.intro cached waiting) passed
  | accepted => exact keep_inStep step passed

theorem recordRule_inStep
    (step : InStep setup search twin)
    {origin : State layout.bytes}
    (passed : setup.Passed origin)
    {rule other : Rule layout.bytes}
    (name : rule.name = other.name)
    {left right : RuleOutcome layout.bytes}
    (outcomes : left.Twins setup.model setup.policy origin.block right) :
    Agree (InStep setup)
      (search.recordRule setup shard origin rule left)
      (twin.recordRule (setup.withRules twins) shard origin other right) := by
  simp only [recordRule, name]
  cases outcomes with
  | disabled => exact .ok step
  | guardFault fault => exact addRaised_inStep same step passed fault _ true
  | @candidate left right candidates =>
      obtain ⟨cached, waiting⟩ := step
      cases candidates with
      | rejected completed fault =>
          refine record_rejected_inStep same (.intro ?_ ?_) passed _ _ _ true fault
          · simp only [Recycler.cached_allocCopy]
          · exact waiting
      | same _ checked =>
          have derived : setup.Passed (origin.successor left.block) :=
            List.forall_mem_cons.mpr ⟨checked, passed⟩
          refine record_inStep same (.intro ?_ ?_) passed derived _ true left.judgement
          · simp only [Recycler.cached_allocCopy]
          · exact waiting

/-! ## Seeding and expansion -/

theorem seed_inStep
    (step : InStep setup search twin)
    (starts : List (StartState layout.bytes)) :
    Agree (InStep setup) (search.seed setup starts)
      (twin.seed (setup.withRules twins) starts) := by
  induction starts generalizing search twin with
  | nil => exact .ok step
  | cons start rest inductionHypothesis =>
      obtain ⟨cached, waiting⟩ := step
      rw [seed, seed, (Recycler.alloc_congr cached).1]
      refine .ite (fun _ => .ok (.intro cached waiting)) fun _ => ?_
      refine .bind_same fun candidate _ => ?_
      have began : setup.Passed (.ofBlock candidate.block) := List.forall_mem_nil _
      refine Agree.bind
        (record_inStep same (.intro ?_ ?_) began began _ false candidate.judgement)
        fun recorded other _ step => inductionHypothesis step
      · simp only [Recycler.cached_allocZeroed]
      · exact waiting

theorem addDeadlock_inStep
    (step : InStep setup search twin)
    {origin : State layout.bytes}
    (passed : setup.Passed origin) :
    Agree (InStep setup)
      (search.addDeadlock setup origin)
        (twin.addDeadlock (setup.withRules twins) origin) :=
  .ite (fun _ => addFault_inStep same step passed _ true) fun _ => .ok step

theorem fireRules_inStep
    (step : InStep setup search twin)
    {origin : State layout.bytes}
    (passed : setup.Passed origin)
    (stuck : Bool)
    {rules others : List (Rule layout.bytes)}
    (alike : List.Forall₂ (setup.model.SameButDiscarded setup.policy) rules others) :
    Agree (InStep setup)
      (search.fireRules setup shard origin stuck rules)
      (twin.fireRules (setup.withRules twins) shard origin stuck others) := by
  induction alike generalizing search twin stuck with
  | nil => exact .ite (fun _ => addDeadlock_inStep same step passed) fun _ => .ok step
  | @cons rule other rest otherRest first _ inductionHypothesis =>
      have handed : (twin.recycler.allocCopy origin.block).1 =
          (search.recycler.allocCopy origin.block).1 := by
        obtain ⟨cached, -⟩ := step
        exact (Recycler.alloc_congr cached).2 origin.block
      have copies : ∀ block, (search.recycler.allocCopy origin.block).1 = .ok block →
          block = origin.block := fun _ => Recycler.allocCopy_eq_ok
      rw [fireRules, fireRules, handed]
      refine (first.attemptRuleOn copies).lift.bind fun left right _ outcomes => ?_
      have progress : isProgress left = isProgress right := by cases outcomes <;> rfl
      refine (recordRule_inStep same step passed first.name outcomes).bind
        fun recorded otherRecorded _ step => ?_
      rw [progress]
      obtain ⟨cached, waiting⟩ := step
      exact .ite (fun _ => .ok (.intro cached waiting))
        fun _ => inductionHypothesis (.intro cached waiting) _

theorem expand_inStep
    (step : InStep setup search twin)
    {origin : State layout.bytes}
    (passed : setup.Passed origin) :
    Agree (InStep setup)
      (search.expand setup shard origin)
        (twin.expand (setup.withRules twins) shard origin) :=
  fireRules_inStep same step passed true same

/-- Searches in step take the same state from the queue, and are in step when it
is expanded. -/
theorem explore_taken_inStep
    (step : InStep setup search twin)
    {preferred source : Nat}
    {state : State layout.bytes}
    {rest : WorkQueue (State layout.bytes)}
    (room : search.isExhausted setup = false)
    (taken : search.queue.pop? preferred = some (state, source, rest))
    (goesOn : ∀ next other,
      expand setup shard state { search with queue := rest } = .ok next →
      InStep setup next other →
      Agree (InStep setup)
      (next.explore setup shard source)
        (other.explore (setup.withRules twins) shard source)) :
    Agree (InStep setup)
      (search.explore setup shard preferred)
      (twin.explore (setup.withRules twins) shard preferred) := by
  obtain ⟨cached, waiting⟩ := step
  rename_i recycler
  have roomTwin :
    isExhausted (setup.withRules twins) { search with recycler := recycler } =
    false := room
  rw [explore_of_taken room taken, explore_of_taken roomTwin taken]
  rw [(WorkQueue.pop?_items taken).1] at waiting
  obtain ⟨passed, others⟩ := Multiset.forall_mem_cons.mp waiting
  have popped : InStep setup { search with queue := rest }
      { { search with recycler := recycler } with queue := rest } := .intro cached others
  exact (expand_inStep same popped passed).bind goesOn

theorem explore_inStep
    (step : InStep setup search twin)
    (preferred : Nat) :
    Agree (InStep setup)
      (search.explore setup shard preferred)
      (twin.explore (setup.withRules twins) shard preferred) := by
  induction preferred, search using explore.induct setup shard generalizing twin with
  | case1 preferred search exhausted =>
      obtain ⟨cached, waiting⟩ := step
      rename_i recycler
      have spent :
        isExhausted (setup.withRules twins) { search with recycler := recycler } =
        true := exhausted
      rw [explore_of_exhausted exhausted, explore_of_exhausted spent]
      exact .ok (.intro cached waiting)
  | case2 preferred search room empty =>
      obtain ⟨cached, waiting⟩ := step
      rename_i recycler
      have roomy := Bool.eq_false_iff.mpr room
      have roomTwin :
        isExhausted (setup.withRules twins) { search with recycler := recycler } =
        false := roomy
      rw [explore_of_empty roomy empty, explore_of_empty roomTwin empty]
      exact .ok (.intro cached waiting)
  | case3 preferred search room state source rest taken error failed =>
      refine explore_taken_inStep same step (Bool.eq_false_iff.mpr room) taken ?_
      intro next other expanded
      cases failed.symm.trans expanded
  | case4 preferred search room state source rest taken next expanded _
      inductionHypothesis =>
      refine explore_taken_inStep same step (Bool.eq_false_iff.mpr room) taken ?_
      intro again other expandedAgain step
      cases expanded.symm.trans expandedAgain
      exact inductionHypothesis step

end

end

/-- Searches in step have come to the same, apart from the storage. -/
theorem InStep.equal
    (step : InStep setup search twin) :
    twin.visited = search.visited ∧ twin.queue = search.queue ∧
      twin.rulesFired = search.rulesFired ∧ twin.faults = search.faults ∧
      twin.report = search.report := by
  obtain ⟨-, -⟩ := step
  exact ⟨rfl, rfl, rfl, rfl, rfl⟩

end Search

namespace Setup

variable {twins : List (Rule layout.bytes)}

theorem search_inStep
    (same : setup.SameButDiscarded twins) :
    Agree (Search.InStep setup) setup.search (setup.withRules twins).search := by
  have begins : Search.start (setup.withRules twins) = Search.start setup := rfl
  rw [Setup.search, Setup.search, begins]
  refine .bind_same fun start started => ?_
  obtain ⟨queue, items, -, rfl⟩ := Search.start_eq_ok (liftBreach_eq_ok.mp started)
  have step : Search.InStep setup ⟨.empty, queue, .empty layout.bytes, 0, #[], {}⟩
      ⟨.empty, queue, .empty layout.bytes, 0, #[], {}⟩ := .intro rfl (by simp [items])
  refine (Search.seed_inStep same step setup.model.startStates).bind
    fun seeded other _ step => ?_
  obtain ⟨-, waiting⟩ := step
  have ready : Search.InStep setup { seeded with recycler := .empty layout.bytes }
      { seeded with recycler := .empty layout.bytes } := .intro rfl waiting
  exact Search.explore_inStep same ready 0

/-- Whatever rules write to candidates that are discarded, because of a fault of
their bodies or of an assumption on the state that they are fired in, a run has
the same result and prints the same report, and its search discovers the same
states, fires as many rules and reports the same faults. Storage is handed out
again with the contents of a zeroed block or of the copied one, whatever was
discarded before. -/
theorem run_withRules
    (same : setup.SameButDiscarded twins) :
    (∀ sink, (setup.withRules twins).run sink = setup.run sink) ∧
    Agree
      (fun search twin => twin.visited = search.visited ∧ twin.queue = search.queue ∧
        twin.rulesFired = search.rulesFired ∧ twin.faults = search.faults ∧
        twin.report = search.report)
      setup.search (setup.withRules twins).search ∧
    (setup.model.NeverBreaches → layout.Built → setup.Storable →
      0 < setup.config.maxErrors → ∃ search, setup.search = .ok search) ∧
    (layout.Built → ∀ recycler : Recycler layout.bytes,
      recycler.allocZeroed.1 = .ok (.zero layout.bytes) ∧
      ∀ origin : Block layout.bytes, (recycler.allocCopy origin).1 = .ok origin) := by
  have agree := search_inStep same
  refine ⟨fun sink => ?_, ?_, fun sound built storable room => ?_,
    fun built recycler => ?_⟩
  · have defect : (setup.withRules twins).config = setup.config := rfl
    rw [run, run, defect]
    cases setup.config.defect? with
    | some defect => rfl
    | none =>
        generalize setup.search = left at agree ⊢
        generalize (setup.withRules twins).search = right at agree ⊢
        cases agree with
        | error error => rfl
        | ok step =>
            obtain ⟨-, -⟩ := step
            rfl
  · exact agree.imp fun _ _ step => step.equal
  · obtain ⟨search, searched, -⟩ := search_reaches sound built storable room
    exact ⟨search, searched⟩
  · exact recycler.alloc_overwrites built.placed.bytes_lt

end Setup

end

namespace Boiler

theorem levels_ordered : (0 : Int64) ≤ 3 := by
  decide

/-- The levels of a boiler. -/
def levels : Bounds :=
  ⟨0, 3, levels_ordered⟩

def layout : Layout :=
  ⟨#[⟨"level", .scalar (.range levels), 0⟩], 2⟩

theorem layout_built : layout.Built := by
  have level : Ty.Built (.scalar (.range levels)) :=
    .range (show Ty.range? 0 3 = _ from rfl)
  refine ⟨[("level", .scalar (.range levels))], ?_, ?_⟩
  · simpa using level
  · simp [Layout.of?, Layout.extend, Layout.empty, Layout.maxVariables]
    rfl

/-- The level at which nothing may happen any more. -/
def high : Block layout.bytes :=
  ⟨2⟩

/-- Fill a boiler that is not high. -/
def fill : Rule layout.bytes where
  name := "fill"
  guard := fun _ block => .ok (block ≠ high)
  body := fun _ => modify fun block => ⟨block.bits + 1⟩

/-- Write something and raise a fault. -/
def burst (level : Block layout.bytes) : Rule layout.bytes where
  name := "burst"
  guard := fun _ _ => .ok true
  body := fun _ => do
    set level
    Update.fault (.model "burst")

/-- Drain the boiler, to some level if it is high. -/
def drain (level : Block layout.bytes) : Rule layout.bytes where
  name := "drain"
  guard := fun _ _ => .ok true
  body := fun _ => modify fun block => if block = high then level else .zero layout.bytes

/-- A boiler that starts empty and is assumed not to be high. -/
def setup : Setup layout where
  model :=
    { startStates := [⟨"empty", fun _ => pure ()⟩]
      rules := [fill, burst ⟨3⟩, drain ⟨1⟩]
      invariants := []
      assumptions := [⟨"not high", fun _ block => .ok (block ≠ high)⟩]
      canonicalizer := none
      startStates_ne_nil := by simp }
  config := { maxErrors := 5 }

/-- Rules that write nothing before they raise a fault, and nothing to a boiler
that is high. -/
def tidy : List (Rule layout.bytes) :=
  [fill, burst (.zero layout.bytes), drain high]

theorem tidy_same : setup.SameButDiscarded tidy := by
  have filled : setup.model.SameButDiscarded setup.policy fill fill :=
    ⟨rfl, fun _ => rfl, fun _ _ => ⟨rfl, fun _ _ => rfl⟩⟩
  have burst (first second : Block layout.bytes) :
      setup.model.SameButDiscarded setup.policy (burst first) (burst second) :=
    ⟨rfl, fun _ => rfl, fun _ _ => ⟨rfl, fun noFault _ => absurd rfl (noFault _)⟩⟩
  have drained (first second : Block layout.bytes) :
      setup.model.SameButDiscarded setup.policy (drain first) (drain second) := by
    refine ⟨rfl, fun _ => rfl, fun origin _ => ⟨rfl, fun _ admitted => ?_⟩⟩
    by_cases atTop : origin = high
    · subst atTop
      exact absurd rfl (admitted (.assumption "not high"))
    · exact (if_neg atTop).trans (if_neg atTop).symm
  exact .cons filled (.cons (burst _ _) (.cons (drained _ _) .nil))

theorem setup_neverBreaches : setup.model.NeverBreaches where
  starts := by
    intro start member policy block breach
    cases List.mem_singleton.mp member
    nofun
  guards := by
    intro rule member policy block breach
    simp only [setup, List.mem_cons, List.not_mem_nil, or_false] at member
    rcases member with rfl | rfl | rfl <;> nofun
  bodies := by
    intro rule member policy block breach
    simp only [setup, List.mem_cons, List.not_mem_nil, or_false] at member
    rcases member with rfl | rfl | rfl <;> nofun
  invariants := nofun
  assumptions := by
    intro assumption member policy block breach
    cases List.mem_singleton.mp member
    nofun
  canonicalizer := nofun

theorem setup_storable : setup.Storable where
  shards := by decide
  state := by decide

/-- The bodies leave different blocks where they raise a fault and in a boiler
that is high, but what is discovered and reported is the same. -/
theorem run_withRules_boiler :
    ((burst ⟨3⟩).body setup.policy).runOn (.zero layout.bytes) ≠
        ((burst (.zero layout.bytes)).body setup.policy).runOn (.zero layout.bytes) ∧
      ((drain ⟨1⟩).body setup.policy).runOn high ≠
        ((drain high).body setup.policy).runOn high ∧
      (setup.withRules tidy).run {} = setup.run {} ∧
      ∃ search twin, setup.search = .ok search ∧
      (setup.withRules tidy).search = .ok twin ∧
        twin.visited = search.visited ∧ twin.faults = search.faults := by
  obtain ⟨runs, searches, succeeds, -⟩ := Setup.run_withRules tidy_same
  obtain ⟨search, searched⟩ :=
    succeeds setup_neverBreaches layout_built setup_storable (by decide)
  refine ⟨?_, ?_, runs {}, ?_⟩
  · intro equal
    exact absurd (congrArg Prod.snd equal) (by decide)
  · intro equal
    exact absurd (congrArg Prod.snd equal) (by decide)
  · rw [searched] at searches
    generalize other : (setup.withRules tidy).search = right at searches
    cases searches with
    | ok same => exact ⟨_, _, searched, rfl, same.1, same.2.2.2.1⟩

end Boiler

end StateSpace
