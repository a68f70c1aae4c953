import StateSpace.Config.Basic
import StateSpace.Model

/-!
# Attempts

An attempt runs one start state or one rule and judges what comes out of it: the action
itself, the assumptions, and the invariants each have a say. An attempt looks at nothing
but the model, the block it starts from and the block that it is handed to work on, so
what a search does with its outcome is a separate matter.
-/

namespace StateSpace

/-- What the checks say of a candidate. -/
inductive Judgement where
  /-- The action or an assumption raised a fault. -/
  | rejected (fault : Fault)
  /-- An assumption failed inside an invariant. -/
  | infeasible
  /-- An invariant is violated or raised a fault. The candidate still counts as a
  state. -/
  | violated (record : FaultRecord)
  | accepted

/-- The block that an action left, and what the checks say of it. -/
structure Candidate (size : Nat) where
  block : Block size
  /-- Whether the action ran to its end. -/
  completed : Bool
  judgement : Judgement

/-- What becomes of a rule in a state. -/
inductive RuleOutcome (size : Nat) where
  /-- The guard is false. -/
  | disabled
  | guardFault (fault : Fault)
  | candidate (candidate : Candidate size)

/-- The record of an invariant that is false. -/
def violationRecord (name : String) : FaultRecord :=
  ⟨.invariant, "invariant " ++ Text.quoted name ++ " failed", none⟩

namespace Model

variable {layout : Layout}

/-- The judgement of the first of some invariants that is not true of a block. -/
def judge
    (policy : OverflowPolicy)
    (block : Block layout.bytes) :
    List (Property layout.bytes) → Except Breach Judgement
  | [] => .ok .accepted
  | invariant :: rest =>
    match invariant.holds policy block with
    | .ok true => judge policy block rest
    | .ok false => .ok (.violated (violationRecord invariant.name))
    | .error (.fault fault) =>
      match FaultRecord.ofFault? fault ("invariant " ++ invariant.name) with
      | some record => .ok (.violated record)
      | none => .ok .infeasible
    | .error (.breach breach) => .error breach

/-- Judge what an action left. The assumptions are asked about the block `assumed`, the
invariants about what the action left. -/
def conclude
    (model : Model layout)
    (policy : OverflowPolicy)
    (assumed : Block layout.bytes)
    (outcome : Except Stop Unit × Block layout.bytes) :
    Except Breach (Candidate layout.bytes) :=
  match outcome with
  | (.error (.breach breach), _) => .error breach
  | (.error (.fault fault), block) => .ok ⟨block, false, .rejected fault⟩
  | (.ok (), block) =>
    match model.checkAssumptions policy assumed with
    | .error (.breach breach) => .error breach
    | .error (.fault fault) => .ok ⟨block, true, .rejected fault⟩
    | .ok () => return ⟨block, true, ← judge policy block model.invariants⟩

/-- Run a start state on the block that is handed out for it. The assumptions are about
the block that it leaves. -/
def attemptStartOn
    (model : Model layout)
    (policy : OverflowPolicy)
    (handed : Except Breach (Block layout.bytes))
    (start : StartState layout.bytes) : Except Breach (Candidate layout.bytes) := do
  let outcome := (start.init policy).runOn (← handed)
  model.conclude policy outcome.2 outcome

/-- Run a rule on the block that is handed out for it, if its guard is true. The guard
and the assumptions are about the block that the rule is fired in. -/
def attemptRuleOn
    (model : Model layout)
    (policy : OverflowPolicy)
    (origin : Block layout.bytes)
    (handed : Except Breach (Block layout.bytes))
    (rule : Rule layout.bytes) : Except Breach (RuleOutcome layout.bytes) :=
  match rule.guard policy origin with
  | .ok false => .ok .disabled
  | .error (.fault fault) => .ok (.guardFault fault)
  | .error (.breach breach) => .error breach
  | .ok true => do
    let outcome := (rule.body policy).runOn (← handed)
    return .candidate (← model.conclude policy origin outcome)

/-- Run a start state on a zeroed block. -/
def attemptStart
    (model : Model layout)
    (policy : OverflowPolicy)
    (start : StartState layout.bytes) : Except Breach (Candidate layout.bytes) :=
  model.attemptStartOn policy (.ok (.zero layout.bytes)) start

/-- Run a rule on a copy of a block. -/
def attemptRule
    (model : Model layout)
    (policy : OverflowPolicy)
    (origin : Block layout.bytes)
    (rule : Rule layout.bytes) : Except Breach (RuleOutcome layout.bytes) :=
  model.attemptRuleOn policy origin (.ok origin) rule

end Model
end StateSpace
