import StateSpace.Proofs.Search.Reachable

/-!
# What attempts establish

The judgement of an attempt that has an outcome names the fault that the
attempted callable raises, and keeps the block that it left exactly if that
block counts as a state. If no callable breaks a precondition then every
attempt has an outcome.
-/

namespace StateSpace

variable {layout : Layout}

namespace Judgement

/-- The fault that a judgement reports, if it reports one. -/
def record? (context : String) : Judgement → Option FaultRecord
  | .rejected fault => FaultRecord.ofFault? fault context
  | .infeasible => none
  | .violated record => some record
  | .accepted => none

/-- Whether a judgement lets a candidate count as a state. -/
def keeps : Judgement → Bool
  | .rejected _ => false
  | .infeasible => false
  | .violated _ => true
  | .accepted => true

end Judgement

/-- A fault without a record is a failed assumption. -/
theorem FaultRecord.ofFault?_eq_none
    {fault : Fault}
    {context : String} :
    FaultRecord.ofFault? fault context = none ↔
      ∃ name, fault = .assumption name := by
  cases fault <;> simp [FaultRecord.ofFault?, Fault.kind?]

namespace Model

variable {model : Model layout} {policy : OverflowPolicy}

/-! ## Attempts that have an outcome -/

/-- The judgement of some invariants is that of the first one which is not true
of the block. -/
theorem judge_eq_ok
    {block : Block layout.bytes}
    {invariants : List (Property layout.bytes)}
    {judgement : Judgement}
    (judged : judge policy block invariants = .ok judgement)
    (context : String) :
    judgement.record? context =
        ((invariants.find? fun invariant =>
            !isTrue (invariant.holds policy block)).bind
          (violation? policy block)) ∧
      (judgement.keeps = true ↔
        ∀ invariant, (invariants.find? fun invariant =>
            !isTrue (invariant.holds policy block)) = some invariant →
          ∀ name, invariant.holds policy block ≠
            .error (.fault (.assumption name))) := by
  induction invariants with
  | nil =>
      cases judged
      exact ⟨rfl, by simp [Judgement.keeps]⟩
  | cons invariant rest inductionHypothesis =>
      match answer : invariant.holds policy block with
      | .ok true =>
        simp only [judge, answer] at judged
        simpa [answer, isTrue] using inductionHypothesis judged
      | .ok false =>
        simp only [judge, answer] at judged
        cases judged
        simp [isTrue, answer, violation?, Judgement.record?, Judgement.keeps]
      | .error (.breach breach) =>
        simp only [judge, answer] at judged
        cases judged
      | .error (.fault fault) =>
        cases reported : FaultRecord.ofFault? fault ("invariant " ++ invariant.name) with
        | none =>
            simp only [judge, answer, reported] at judged
            cases judged
            obtain ⟨name, rfl⟩ := FaultRecord.ofFault?_eq_none.mp reported
            simp [isTrue, answer, reported, violation?, Judgement.record?,
              Judgement.keeps]
        | some record =>
            simp only [judge, answer, reported] at judged
            cases judged
            have kinded : ∀ name, fault ≠ .assumption name := by
              intro name equal
              rw [FaultRecord.ofFault?_eq_none.mpr ⟨name, equal⟩] at reported
              cases reported
            simpa [isTrue, answer, reported, violation?, Judgement.record?,
              Judgement.keeps] using kinded

/-- The assumptions are checked without an objection exactly if all of them
hold. -/
theorem assume_eq_ok
    {block : Block layout.bytes}
    {assumptions : List (Property layout.bytes)} :
    assume policy block assumptions = .ok () ↔
      ∀ assumption ∈ assumptions, assumption.holds policy block = .ok true := by
  induction assumptions with
  | nil => simp [assume, pure, Except.pure]
  | cons assumption rest inductionHypothesis =>
      match answer : assumption.holds policy block with
      | .ok true => simpa [assume, answer, bind, Except.bind] using inductionHypothesis
      | .ok false =>
        simp [assume, answer, bind, Except.bind, throw, throwThe, MonadExceptOf.throw]
      | .error stop => simp [assume, answer, bind, Except.bind]

/-- The conclusion about an action that is over reports its fault, and keeps
the block that it left exactly if that block counts as a state. -/
theorem conclude_eq_ok
    {assumed : Block layout.bytes}
    {outcome : Except Stop Unit × Block layout.bytes}
    {candidate : Candidate layout.bytes}
    (concluded : model.conclude policy assumed outcome = .ok candidate)
    (context : String) :
    candidate.block = outcome.2 ∧
      candidate.completed = outcome.1.isOk ∧
      candidate.judgement.record? context =
        model.outcomeRecord? policy context assumed outcome ∧
      (candidate.judgement.keeps = true ↔
        outcome.1 = .ok () ∧ model.AssumptionsHold policy assumed ∧
          model.Admits policy outcome.2) := by
  match outcome with
  | (.error (.breach breach), block) => cases concluded
  | (.error (.fault fault), block) =>
    cases concluded
    exact ⟨rfl, rfl, rfl, by simp [Judgement.keeps]⟩
  | (.ok (), block) =>
    match checked : model.checkAssumptions policy assumed with
    | .error (.breach breach) =>
      simp only [conclude, checked] at concluded
      cases concluded
    | .error (.fault fault) =>
      simp only [conclude, checked] at concluded
      cases concluded
      have fails : ¬model.AssumptionsHold policy assumed := by
        intro holds
        cases checked.symm.trans (assume_eq_ok.mpr holds)
      refine ⟨rfl, rfl, ?_, ?_⟩
      · simp [outcomeRecord?, checked, Judgement.record?]
      · simp [Judgement.keeps, fails]
    | .ok () =>
      simp only [conclude, checked] at concluded
      obtain ⟨judgement, judged, returned⟩ := bind_eq_ok.mp concluded
      cases returned
      have holds : model.AssumptionsHold policy assumed := assume_eq_ok.mp checked
      obtain ⟨recorded, keeps⟩ := judge_eq_ok judged context
      refine ⟨rfl, rfl, ?_, ?_⟩
      · simpa [outcomeRecord?, checked, brokenRecord?, firstBroken?] using recorded
      · simpa [holds, Admits, firstBroken?] using keeps

/-- What the candidate of a start state says about the start state. -/
structure StartSpec
    (model : Model layout)
    (policy : OverflowPolicy)
    (start : StartState layout.bytes)
    (candidate : Candidate layout.bytes) : Prop where
  recorded : candidate.judgement.record? ("startstate " ++ start.name) =
    model.startRecord? policy start
  keeps : candidate.judgement.keeps = true ↔ model.Begins policy start candidate.block
  unique : ∀ block, model.Begins policy start block → block = candidate.block

theorem attemptStart_eq_ok
    {start : StartState layout.bytes}
    {candidate : Candidate layout.bytes}
    (attempted : model.attemptStart policy start = .ok candidate) :
    model.StartSpec policy start candidate := by
  obtain ⟨left, -, recorded, keeps⟩ :=
    conclude_eq_ok attempted ("startstate " ++ start.name)
  refine ⟨recorded, keeps.trans ?_, ?_⟩
  · rw [left]
    constructor
    · rintro ⟨ran, assumed, admitted⟩
      exact ⟨Prod.ext ran rfl, assumed, admitted⟩
    · rintro ⟨ran, assumed, admitted⟩
      exact ⟨congrArg Prod.fst ran, assumed, admitted⟩
  · intro block begins
    rw [left, begins.runs]

/-- What the outcome of an attempted rule says about the rule. -/
def OutcomeSpec
    (model : Model layout)
    (policy : OverflowPolicy)
    (origin : Block layout.bytes)
    (rule : Rule layout.bytes) : RuleOutcome layout.bytes → Prop
  | .disabled => rule.guard policy origin = .ok false
  | .guardFault fault => rule.guard policy origin = .error (.fault fault)
  | .candidate candidate =>
    rule.guard policy origin = .ok true ∧
      candidate.completed = ((rule.body policy).runOn origin).1.isOk ∧
      candidate.judgement.record? ("rule " ++ rule.name) =
        model.outcomeRecord? policy ("rule " ++ rule.name) origin
          ((rule.body policy).runOn origin) ∧
      (candidate.judgement.keeps = true ↔
        model.Leads policy origin rule candidate.block) ∧
      (∀ block, model.Leads policy origin rule block → block = candidate.block)

theorem attemptRule_eq_ok
    {origin : Block layout.bytes}
    {rule : Rule layout.bytes}
    {outcome : RuleOutcome layout.bytes}
    (attempted : model.attemptRule policy origin rule = .ok outcome) :
    model.OutcomeSpec policy origin rule outcome := by
  unfold attemptRule attemptRuleOn at attempted
  split at attempted
  · rename_i guarded
    cases attempted
    exact guarded
  · rename_i fault guarded
    cases attempted
    exact guarded
  · cases attempted
  · rename_i guarded
    obtain ⟨_, ⟨⟩, attempted⟩ := bind_eq_ok.mp attempted
    obtain ⟨candidate, concluded, returned⟩ := bind_eq_ok.mp attempted
    cases returned
    obtain ⟨left, completed, recorded, keeps⟩ :=
      conclude_eq_ok concluded ("rule " ++ rule.name)
    refine ⟨guarded, completed, recorded, keeps.trans ?_, ?_⟩
    · rw [left]
      constructor
      · rintro ⟨ran, assumed, admitted⟩
        exact ⟨guarded, Prod.ext ran rfl, assumed, admitted⟩
      · rintro ⟨_, ran, assumed, admitted⟩
        exact ⟨congrArg Prod.fst ran, assumed, admitted⟩
    · intro block leads
      rw [left, leads.runs]

/-! ## Attempts that cannot fail -/

/-- Invariants that break no precondition give a judgement. -/
theorem judge_ok
    {block : Block layout.bytes}
    {invariants : List (Property layout.bytes)}
    (sound : ∀ invariant ∈ invariants, ∀ breach,
      invariant.holds policy block ≠ .error (.breach breach)) :
    ∃ judgement, judge policy block invariants = .ok judgement := by
  induction invariants with
  | nil => exact ⟨.accepted, rfl⟩
  | cons invariant rest inductionHypothesis =>
      unfold judge
      split
      · exact inductionHypothesis fun other member => sound other (by simp [member])
      · exact ⟨_, rfl⟩
      · split <;> exact ⟨_, rfl⟩
      · rename_i breach answer
        exact absurd answer (sound invariant (by simp) breach)

theorem assume_ne_breach
    {block : Block layout.bytes}
    {assumptions : List (Property layout.bytes)}
    (sound : ∀ assumption ∈ assumptions, ∀ breach,
      assumption.holds policy block ≠ .error (.breach breach))
    (breach : Breach) :
    assume policy block assumptions ≠ .error (.breach breach) := by
  induction assumptions with
  | nil => nofun
  | cons assumption rest inductionHypothesis =>
      match answer : assumption.holds policy block with
      | .ok true =>
        simpa [assume, answer, bind, Except.bind] using
          inductionHypothesis fun other member => sound other (by simp [member])
      | .ok false =>
        simp [assume, answer, bind, Except.bind, throw, throwThe, MonadExceptOf.throw]
      | .error (.breach broken) =>
        exact absurd answer (sound assumption (by simp) broken)
      | .error (.fault fault) => simp [assume, answer, bind, Except.bind]

namespace NeverBreaches

variable (sound : model.NeverBreaches)
include sound

theorem conclude_ok
    (assumed : Block layout.bytes)
    {outcome : Except Stop Unit × Block layout.bytes}
    (ended : ∀ breach, outcome.1 ≠ .error (.breach breach)) :
    ∃ candidate, model.conclude policy assumed outcome = .ok candidate := by
  match outcome with
  | (.error (.breach breach), block) => exact absurd rfl (ended breach)
  | (.error (.fault fault), block) => exact ⟨_, rfl⟩
  | (.ok (), block) =>
    match checked : model.checkAssumptions policy assumed with
    | .error (.breach breach) =>
      exact absurd checked (assume_ne_breach
        (fun assumption member => sound.assumptions assumption member policy assumed)
          breach)
    | .error (.fault fault) =>
      exact ⟨⟨block, true, .rejected fault⟩, by simp only [conclude, checked]⟩
    | .ok () =>
      obtain ⟨judgement, judged⟩ := judge_ok
        fun invariant member => sound.invariants invariant member policy block
      exact ⟨⟨block, true, judgement⟩, by
        simp only [conclude, checked, judged]
        rfl⟩

/-- An attempt of a start state has an outcome, which says what the start
state leaves and which fault it raises. -/
theorem attemptStart_spec
    (policy : OverflowPolicy)
    {start : StartState layout.bytes}
    (declared : start ∈ model.startStates) :
    ∃ candidate, model.attemptStart policy start = .ok candidate ∧
      model.StartSpec policy start candidate := by
  obtain ⟨candidate, attempted⟩ := sound.conclude_ok
    ((start.init policy).runOn (.zero layout.bytes)).2
    (sound.starts start declared policy (.zero layout.bytes))
  exact ⟨candidate, attempted, attemptStart_eq_ok attempted⟩

/-- An attempt of a rule has an outcome, which says what the rule does. -/
theorem attemptRule_spec
    (policy : OverflowPolicy)
    (origin : Block layout.bytes)
    {rule : Rule layout.bytes}
    (declared : rule ∈ model.rules) :
    ∃ outcome, model.attemptRule policy origin rule = .ok outcome ∧
      model.OutcomeSpec policy origin rule outcome := by
  have attempts : ∃ outcome, model.attemptRule policy origin rule = .ok outcome := by
    unfold attemptRule attemptRuleOn
    split
    · exact ⟨_, rfl⟩
    · exact ⟨_, rfl⟩
    · rename_i breach guarded
      exact absurd guarded (sound.guards rule declared policy origin breach)
    · obtain ⟨candidate, concluded⟩ := sound.conclude_ok origin
        (sound.bodies rule declared policy origin)
      exact ⟨.candidate candidate, bind_eq_ok.mpr ⟨origin, rfl,
        bind_eq_ok.mpr ⟨candidate, concluded, rfl⟩⟩⟩
  obtain ⟨outcome, attempted⟩ := attempts
  exact ⟨outcome, attempted, attemptRule_eq_ok attempted⟩

end NeverBreaches
end Model
end StateSpace
