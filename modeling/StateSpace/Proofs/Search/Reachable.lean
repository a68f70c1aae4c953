import Mathlib
import StateSpace.Search.Run

/-!
# Reachable states and their faults

What a complete exploration has to find is said here without any search: the
blocks that start states and rules lead to, the faults that come up on the
way, and the firings of rules. All of it is read off the callables of the
model, one block at a time.
-/

namespace StateSpace

/-- Blocks are numbered by their bits, so there are finitely many. -/
noncomputable instance {size : Nat} : Fintype (Block size) :=
  Fintype.ofEquiv (BitVec (8 * size))
    { toFun := Block.mk
      invFun := Block.bits
      left_inv := fun _ => rfl
      right_inv := fun _ => rfl }

/-- The answer of a property that is true, and no other. -/
def isTrue : Except Stop Bool → Bool
  | .ok true => true
  | _ => false

@[simp] theorem isTrue_iff
    {answer : Except Stop Bool} :
    isTrue answer = true ↔ answer = .ok true := by
  cases answer with
  | error stop => simp [isTrue]
  | ok holds => cases holds <;> simp [isTrue]

namespace Model

variable {layout : Layout}

/-- No callable of a model breaks a precondition, whatever block it is given. -/
structure NeverBreaches (model : Model layout) : Prop where
  starts : ∀ start ∈ model.startStates, ∀ policy block breach,
    ((start.init policy).runOn block).1 ≠ .error (.breach breach)
  guards : ∀ rule ∈ model.rules, ∀ policy block breach,
    rule.guard policy block ≠ .error (.breach breach)
  bodies : ∀ rule ∈ model.rules, ∀ policy block breach,
    ((rule.body policy).runOn block).1 ≠ .error (.breach breach)
  invariants : ∀ invariant ∈ model.invariants, ∀ policy block breach,
    invariant.holds policy block ≠ .error (.breach breach)
  assumptions : ∀ assumption ∈ model.assumptions, ∀ policy block breach,
    assumption.holds policy block ≠ .error (.breach breach)
  canonicalizer : ∀ canonicalize ∈ model.canonicalizer, ∀ block,
    ∃ stored, canonicalize block = .ok stored

/-- Every assumption is true of a block. -/
def AssumptionsHold
    (model : Model layout)
    (policy : OverflowPolicy)
    (block : Block layout.bytes) : Prop :=
  ∀ assumption ∈ model.assumptions, assumption.holds policy block = .ok true

/-- The first invariant that is not true of a block. -/
def firstBroken?
    (model : Model layout)
    (policy : OverflowPolicy)
    (block : Block layout.bytes) : Option (Property layout.bytes) :=
  model.invariants.find? fun invariant => !isTrue (invariant.holds policy block)

/-- The invariants let a block pass: the first one that is not true of it, if
there is one, does not fail an assumption. -/
def Admits
    (model : Model layout)
    (policy : OverflowPolicy)
    (block : Block layout.bytes) : Prop :=
  ∀ invariant, model.firstBroken? policy block = some invariant →
    ∀ name, invariant.holds policy block ≠ .error (.fault (.assumption name))

/-- A start state leaves a block that counts as a state. -/
structure Begins
    (model : Model layout)
    (policy : OverflowPolicy)
    (start : StartState layout.bytes)
    (block : Block layout.bytes) : Prop where
  runs : (start.init policy).runOn (.zero layout.bytes) = (.ok (), block)
  assumed : model.AssumptionsHold policy block
  admitted : model.Admits policy block

/-- A rule leads from one state to a block that counts as a state. -/
structure Leads
    (model : Model layout)
    (policy : OverflowPolicy)
    (origin : Block layout.bytes)
    (rule : Rule layout.bytes)
    (block : Block layout.bytes) : Prop where
  enabled : rule.guard policy origin = .ok true
  runs : (rule.body policy).runOn origin = (.ok (), block)
  assumed : model.AssumptionsHold policy origin
  admitted : model.Admits policy block

/-! ## Faults -/

/-- The record of an invariant that is not true of a block. It is missing if
the invariant fails an assumption. -/
def violation?
    (policy : OverflowPolicy)
    (block : Block layout.bytes)
    (invariant : Property layout.bytes) : Option FaultRecord :=
  match invariant.holds policy block with
  | .ok _ => some (violationRecord invariant.name)
  | .error (.fault fault) =>
    FaultRecord.ofFault? fault ("invariant " ++ invariant.name)
  | .error (.breach _) => none

/-- The record of the first invariant that is not true of a block. -/
def brokenRecord?
    (model : Model layout)
    (policy : OverflowPolicy)
    (block : Block layout.bytes) : Option FaultRecord :=
  (model.firstBroken? policy block).bind (violation? policy block)

/-- The record of the fault of an action that is over: its own, else that of
the assumptions about `assumed`, else that of the invariants about the block
that it left. -/
def outcomeRecord?
    (model : Model layout)
    (policy : OverflowPolicy)
    (context : String)
    (assumed : Block layout.bytes)
    (outcome : Except Stop Unit × Block layout.bytes) : Option FaultRecord :=
  match outcome with
  | (.error (.fault fault), _) => FaultRecord.ofFault? fault context
  | (.error (.breach _), _) => none
  | (.ok (), block) =>
    match model.checkAssumptions policy assumed with
    | .error (.fault fault) => FaultRecord.ofFault? fault context
    | .error (.breach _) => none
    | .ok () => model.brokenRecord? policy block

/-- The record of the fault of a start state. -/
def startRecord?
    (model : Model layout)
    (policy : OverflowPolicy)
    (start : StartState layout.bytes) : Option FaultRecord :=
  let outcome := (start.init policy).runOn (.zero layout.bytes)
  model.outcomeRecord? policy ("startstate " ++ start.name) outcome.2 outcome

/-- The record of the fault of a rule in a block, of its guard or of its
firing. -/
def ruleRecord?
    (model : Model layout)
    (policy : OverflowPolicy)
    (origin : Block layout.bytes)
    (rule : Rule layout.bytes) : Option FaultRecord :=
  match rule.guard policy origin with
  | .ok true =>
    model.outcomeRecord? policy ("rule " ++ rule.name) origin
      ((rule.body policy).runOn origin)
  | .ok false => none
  | .error (.fault fault) => FaultRecord.ofFault? fault ("rule " ++ rule.name)
  | .error (.breach _) => none

/-- No guard is true of a block. -/
def isStuck
    (model : Model layout)
    (policy : OverflowPolicy)
    (block : Block layout.bytes) : Bool :=
  model.rules.all fun rule => !isTrue (rule.guard policy block)

/-- A rule is enabled in a block and its body comes to its end. -/
def fires
    (policy : OverflowPolicy)
    (origin : Block layout.bytes)
    (rule : Rule layout.bytes) : Bool :=
  isTrue (rule.guard policy origin) &&
    ((rule.body policy).runOn origin).1.isOk

end Model

namespace Setup

variable {layout : Layout}

/-- The blocks that a run has to discover, in the form in which it stores
them. -/
inductive Reachable (setup : Setup layout) : Block layout.bytes → Prop
  | start
      {start : StartState layout.bytes}
      {block stored : Block layout.bytes}
      (declared : start ∈ setup.model.startStates)
      (begins : setup.model.Begins setup.policy start block)
      (canonical : setup.canonical block = .ok stored) :
      Reachable setup stored
  | rule
      {origin block stored : Block layout.bytes}
      {rule : Rule layout.bytes}
      (reached : Reachable setup origin)
      (declared : rule ∈ setup.model.rules)
      (leads : setup.model.Leads setup.policy origin rule block)
      (canonical : setup.canonical block = .ok stored) :
      Reachable setup stored

/-- The record of a state in which no rule is enabled. -/
def deadlockRecord : FaultRecord :=
  ⟨.deadlock, "deadlock", none⟩

/-- The faults of all start states. -/
def startRecords (setup : Setup layout) : List FaultRecord :=
  setup.model.startStates.filterMap (setup.model.startRecord? setup.policy)

/-- The faults of one block: those of the rules in it, and that it is a
deadlock, if deadlocks are looked for. -/
def blockRecords
    (setup : Setup layout)
    (block : Block layout.bytes) : List FaultRecord :=
  setup.model.rules.filterMap (setup.model.ruleRecord? setup.policy block) ++
    if setup.config.deadlockDetection && setup.model.isStuck setup.policy block then
      [deadlockRecord]
    else []

/-- The number of rules that fire in a block. -/
def firings
    (setup : Setup layout)
    (block : Block layout.bytes) : Nat :=
  setup.model.rules.countP (Model.fires setup.policy block)

/-- The reachable blocks as a finite set. -/
noncomputable def reachableBlocks
    (setup : Setup layout) : Finset (Block layout.bytes) := by
  classical
  exact Finset.univ.filter setup.Reachable

@[simp] theorem mem_reachableBlocks
    {setup : Setup layout}
    {block : Block layout.bytes} :
    block ∈ setup.reachableBlocks ↔ setup.Reachable block := by
  classical
  simp [reachableBlocks]

/-- The faults of a complete exploration, in no order. -/
noncomputable def allRecords (setup : Setup layout) : Multiset FaultRecord :=
  setup.startRecords +
    ∑ block ∈ setup.reachableBlocks, (setup.blockRecords block : Multiset FaultRecord)

/-- The number of faults of a complete exploration. -/
noncomputable def faultTotal (setup : Setup layout) : Nat :=
  setup.startRecords.length +
    ∑ block ∈ setup.reachableBlocks, (setup.blockRecords block).length

/-- The number of firings of a complete exploration. -/
noncomputable def firingTotal (setup : Setup layout) : Nat :=
  ∑ block ∈ setup.reachableBlocks, setup.firings block

theorem card_allRecords (setup : Setup layout) :
    setup.allRecords.card = setup.faultTotal := by
  simp [allRecords, faultTotal, Multiset.card_sum]

end Setup
end StateSpace
