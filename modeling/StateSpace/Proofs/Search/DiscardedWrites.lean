import StateSpace.Proofs.Search.Trail

/-!
# Rules that differ in discarded writes

A candidate is discarded if the body of its rule raises a fault, and if an
assumption on its origin does. What the body has written by then is seen by
nobody: attempts of rules that differ in such writes only come to the same
outcome, and they explain the same traces.
-/

namespace StateSpace

/-- Two computations fail with the same error, or they succeed with related
results. -/
inductive Agree
    {Error Left Right : Type}
    (related : Left → Right → Prop) : Except Error Left → Except Error Right → Prop
  | ok
      {left : Left}
      {right : Right}
      (same : related left right) :
      Agree related (.ok left) (.ok right)
  | error (error : Error) : Agree related (.error error) (.error error)

section

variable
  {Error Left Right NextLeft NextRight : Type}
  {related : Left → Right → Prop}
  {nextRelated : NextLeft → NextRight → Prop}

theorem Agree.bind
    {left : Except Error Left}
    {right : Except Error Right}
    {next : Left → Except Error NextLeft}
    {nextTwin : Right → Except Error NextRight}
    (agree : Agree related left right)
    (goesOn : ∀ result twin, left = .ok result → related result twin →
      Agree nextRelated (next result) (nextTwin twin)) :
    Agree nextRelated (left >>= next) (right >>= nextTwin) := by
  cases agree with
  | ok same => exact goesOn _ _ rfl same
  | error error => exact .error error

theorem Agree.imp
    {left : Except Error Left}
    {right : Except Error Right}
    {otherRelated : Left → Right → Prop}
    (agree : Agree related left right)
    (known : ∀ result twin, related result twin → otherRelated result twin) :
    Agree otherRelated left right := by
  cases agree with
  | ok same => exact .ok (known _ _ same)
  | error error => exact .error error

/-- Computations that begin in the same way go on with the same result. -/
theorem Agree.bind_same
    {attempt : Except Error Left}
    {next : Left → Except Error NextLeft}
    {nextTwin : Left → Except Error NextRight}
    (goesOn : ∀ result, attempt = .ok result →
      Agree nextRelated (next result) (nextTwin result)) :
    Agree nextRelated (attempt >>= next) (attempt >>= nextTwin) := by
  cases attempt with
  | ok result => exact goesOn result rfl
  | error error => exact .error error

/-- Computations that branch on the same condition. -/
theorem Agree.ite
    {condition : Prop}
    [Decidable condition]
    {left other : Except Error Left}
    {right otherTwin : Except Error Right}
    (holds : condition → Agree related left right)
    (fails : ¬condition → Agree related other otherTwin) :
    Agree related (if condition then left else other)
      (if condition then right else otherTwin) := by
  split
  · exact holds ‹_›
  · exact fails ‹_›

theorem Agree.lift
    {left : Except Breach Left}
    {right : Except Breach Right}
    (agree : Agree related left right) :
    Agree related (liftM left : Except RunError Left)
      (liftM right : Except RunError Right) := by
  cases agree with
  | ok same => exact .ok same
  | error breach => exact .error (RunError.breach breach)

end

variable {layout : Layout}

/-! ## Rules -/

/-- Two runs of an action in a block end in the same way. They leave the same
block as well, unless the action or an assumption on the block raises a fault. -/
structure Model.SameUnlessDiscarded
    (model : Model layout)
    (policy : OverflowPolicy)
    (origin : Block layout.bytes)
    (left right : Except Stop Unit × Block layout.bytes) : Prop where
  ended : left.1 = right.1
  kept : (∀ fault, left.1 ≠ .error (.fault fault)) →
    (∀ fault, model.checkAssumptions policy origin ≠ .error (.fault fault)) →
      left.2 = right.2

/-- Two rules differ at most in what their bodies write to candidates that are
discarded. -/
structure Model.SameButDiscarded
    (model : Model layout)
    (policy : OverflowPolicy)
    (rule twin : Rule layout.bytes) : Prop where
  name : rule.name = twin.name
  guard : ∀ block, rule.guard policy block = twin.guard policy block
  body : ∀ origin, rule.guard policy origin = .ok true →
    model.SameUnlessDiscarded policy origin
      ((rule.body policy).runOn origin) ((twin.body policy).runOn origin)

/-- The model with other rules. -/
def Model.withRules
    (model : Model layout)
    (rules : List (Rule layout.bytes)) : Model layout :=
  { model with rules := rules }

section

variable
  {model : Model layout}
  {policy : OverflowPolicy}
  {origin : Block layout.bytes}
  {rule twin : Rule layout.bytes}
  {rules twins : List (Rule layout.bytes)}

/-! ## Attempts -/

/-- Two candidates of a rule in a block: both are rejected with the same fault, or
they are one candidate that the assumptions on the block have passed. -/
inductive Candidate.Twins
    (model : Model layout)
    (policy : OverflowPolicy)
    (origin : Block layout.bytes) :
    Candidate layout.bytes → Candidate layout.bytes → Prop
  | rejected
      {left right : Block layout.bytes}
      (completed : Bool)
      (fault : Fault) :
      Twins model policy origin ⟨left, completed, .rejected fault⟩
        ⟨right, completed, .rejected fault⟩
  | same
      (candidate : Candidate layout.bytes)
      (passed : model.checkAssumptions policy origin = .ok ()) :
      Twins model policy origin candidate candidate

/-- Two outcomes of a rule that have the same consequences. -/
inductive RuleOutcome.Twins
    (model : Model layout)
    (policy : OverflowPolicy)
    (origin : Block layout.bytes) :
    RuleOutcome layout.bytes → RuleOutcome layout.bytes → Prop
  | disabled : Twins model policy origin .disabled .disabled
  | guardFault (fault : Fault) :
    Twins model policy origin (.guardFault fault) (.guardFault fault)
  | candidate
      {left right : Candidate layout.bytes}
      (twins : left.Twins model policy origin right) :
      Twins model policy origin (.candidate left) (.candidate right)

theorem Model.SameUnlessDiscarded.conclude
    {left right : Except Stop Unit × Block layout.bytes}
    (same : model.SameUnlessDiscarded policy origin left right) :
    Agree (Candidate.Twins model policy origin)
      (model.conclude policy origin left)
      ((model.withRules twins).conclude policy origin right) := by
  obtain ⟨stop, block⟩ := left
  obtain ⟨_, other⟩ := right
  obtain ⟨rfl, kept⟩ := same
  have again : (model.withRules twins).checkAssumptions policy origin =
      model.checkAssumptions policy origin := rfl
  rcases stop with (fault | breach) | ⟨⟩
  · exact .ok (.rejected false fault)
  · exact .error breach
  · rw [Model.conclude, Model.conclude, again]
    rcases checked : model.checkAssumptions policy origin with (fault | breach) | ⟨⟩
    · exact .ok (.rejected true fault)
    · exact .error breach
    · obtain rfl : block = other := kept (by simp) (by simp [checked])
      exact .bind_same fun judgement _ => .ok (.same _ checked)

/-- Attempts of rules that differ in discarded writes come to the same outcome, if
they are run on copies of the block that they are fired in. -/
theorem Model.SameButDiscarded.attemptRuleOn
    (same : model.SameButDiscarded policy rule twin)
    {origin : Block layout.bytes}
    {handed : Except Breach (Block layout.bytes)}
    (copies : ∀ block, handed = .ok block → block = origin) :
    Agree (RuleOutcome.Twins model policy origin)
      (model.attemptRuleOn policy origin handed rule)
      ((model.withRules twins).attemptRuleOn policy origin handed twin) := by
  rw [Model.attemptRuleOn, Model.attemptRuleOn, ← same.guard origin]
  rcases guarded : rule.guard policy origin with (fault | breach) | (_ | _)
  · exact .ok (.guardFault fault)
  · exact .error breach
  · exact .ok .disabled
  · refine .bind_same fun block isHanded => ?_
    obtain rfl := copies block isHanded
    exact (same.body block guarded).conclude.bind fun left right _ twins =>
      .ok (.candidate twins)

/-! ## Traces -/

/-- In a block that passes the assumptions, the bodies complete with the same block
or neither does. -/
theorem Model.SameUnlessDiscarded.completed
    {left right : Except Stop Unit × Block layout.bytes}
    (same : model.SameUnlessDiscarded policy origin left right)
    (passed : model.checkAssumptions policy origin = .ok ()) :
    Replay.completed left = Replay.completed right := by
  obtain ⟨stop, block⟩ := left
  obtain ⟨_, other⟩ := right
  obtain ⟨rfl, kept⟩ := same
  rcases stop with (fault | breach) | ⟨⟩
  · rfl
  · rfl
  · obtain rfl : block = other := kept (by simp) (by simp [passed])
    rfl

namespace Replay

/-- What is needed to run a model with other rules again. -/
def withRules
    (replay : Replay layout)
    (rules : List (Rule layout.bytes)) : Replay layout :=
  { replay with model := replay.model.withRules rules }

variable
  {replay : Replay layout}
  (all : List (Rule layout.bytes))

theorem findStart_withRules
    (recorded : Block layout.bytes)
    (starts : List (StartState layout.bytes)) :
    (replay.withRules all).findStart recorded starts =
      replay.findStart recorded starts := by
  induction starts with
  | nil => rfl
  | cons start rest inductionHypothesis =>
      rw [findStart, findStart, inductionHypothesis]
      rfl

/-- The rules that are found to lead on from a block have the same name. -/
theorem findRule_withRules
    (same : List.Forall₂ (replay.model.SameButDiscarded replay.policy) rules twins)
    (passed : replay.model.checkAssumptions replay.policy origin = .ok ())
    (recorded : Block layout.bytes) :
    Agree (fun found other => found.map Rule.name = other.map Rule.name)
      (replay.findRule origin recorded rules)
      ((replay.withRules all).findRule origin recorded twins) := by
  induction same with
  | nil => exact .ok rfl
  | @cons rule twin others otherTwins alike _ inductionHypothesis =>
      have guards : twin.guard replay.policy origin = rule.guard replay.policy origin :=
        (alike.guard origin).symm
      simp only [findRule, isEnabled, withRules, guards]
      rcases guarded : rule.guard replay.policy origin with (fault | breach) | (_ | _)
      · exact inductionHypothesis
      · exact .error breach
      · exact inductionHypothesis
      · rw [← (alike.body origin guarded).completed passed]
        refine Agree.bind_same fun enabled holds => ?_
        cases holds
        refine Agree.bind_same fun left _ => ?_
        cases left with
        | none => exact inductionHypothesis
        | some candidate =>
            refine Agree.bind_same fun matching _ => ?_
            cases matching with
            | true => exact .ok (congrArg some alike.name)
            | false => exact inductionHypothesis

section

variable (same : List.Forall₂ (replay.model.SameButDiscarded replay.policy)
  replay.model.rules all)

include same

/-- A step from a block that passes the assumptions has the same label. -/
theorem ruleStep_withRules
    (passed : replay.model.checkAssumptions replay.policy origin = .ok ())
    (recorded : Block layout.bytes) :
    (replay.withRules all).ruleStep origin recorded =
      replay.ruleStep origin recorded := by
  have found := findRule_withRules all same passed recorded
  have rules : (replay.withRules all).model.rules = all := rfl
  rw [ruleStep, ruleStep, rules]
  generalize replay.findRule origin recorded replay.model.rules = left at found ⊢
  generalize (replay.withRules all).findRule origin recorded all = right at found ⊢
  cases found with
  | error breach => rfl
  | @ok left right names =>
      cases left with
      | none =>
          cases right with
          | none => rfl
          | some twin => cases names
      | some rule =>
          cases right with
          | none => cases names
          | some twin =>
              have name : rule.name = twin.name := Option.some.inj names
              simp only [liftBreach_ok, bind, Except.bind, name]

theorem ruleSteps_withRules
    {path : List (Block layout.bytes)}
    (passed : ∀ block ∈ (origin :: path).dropLast,
      replay.model.checkAssumptions replay.policy block = .ok ()) :
    (replay.withRules all).ruleSteps origin path = replay.ruleSteps origin path := by
  induction path generalizing origin with
  | nil => rfl
  | cons recorded rest inductionHypothesis =>
      rw [List.dropLast_cons_cons, List.forall_mem_cons] at passed
      rw [ruleSteps, ruleSteps, ruleStep_withRules all same passed.1,
        inductionHypothesis passed.2]

/-- The trace to a state is the same if the states on the way to it pass the
assumptions. -/
theorem reconstruct_withRules
    {target : State layout.bytes}
    (passed : ∀ block ∈ target.ancestors,
      replay.model.checkAssumptions replay.policy block = .ok ()) :
    (replay.withRules all).reconstruct target = replay.reconstruct target := by
  have starts (recorded : Block layout.bytes) :
      (replay.withRules all).startStep recorded = replay.startStep recorded := by
    rw [startStep, startStep, findStart_withRules]
    rfl
  have before : target.path.dropLast = target.ancestors.reverse := by
    rw [State.path, List.reverse_cons, List.dropLast_concat]
  rw [reconstruct, reconstruct]
  cases path : target.path with
  | nil => rfl
  | cons first rest =>
      have onTheWay : ∀ block ∈ (first :: rest).dropLast,
          replay.model.checkAssumptions replay.policy block = .ok () := by
        rw [← path, before]
        exact fun block member => passed block (List.mem_reverse.mp member)
      simp only [starts, ruleSteps_withRules all same onTheWay]

end

end Replay

end

end StateSpace
