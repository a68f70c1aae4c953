import StateSpace.Proofs.Layout.Readable
import StateSpace.Proofs.Search.Reachable

/-!
# Trails of recorded states

A recorded state has a trail if its ancestors begin with a block that some
start state yields and every next block is one that some enabled rule yields,
each as it was left or in canonical form. Replay finds every trail again, and
labels its blocks with the first start state and the first rules that lead
along it.
-/

namespace StateSpace

/-! ## The first of a list -/

/-- An item of a list has a property, and no item before it does. -/
def IsFirst
    {Item : Type}
    (holds : Item → Prop)
    (items : List Item)
    (item : Item) : Prop :=
  ∃ earlier later, items = earlier ++ item :: later ∧ holds item ∧
    ∀ other ∈ earlier, ¬holds other

/-- What was found in a list is its first item with a property, or nothing if
there is none. -/
def Finds
    {Item : Type}
    (holds : Item → Prop)
    (items : List Item) : Option Item → Prop
  | some item => IsFirst holds items item
  | none => ∀ item ∈ items, ¬holds item

theorem IsFirst.exists
    {Item : Type}
    {holds : Item → Prop}
    {items : List Item}
    {item : Item}
    (first : IsFirst holds items item) :
    ∃ item ∈ items, holds item := by
  obtain ⟨earlier, later, rfl, present, -⟩ := first
  exact ⟨item, by simp, present⟩

theorem Finds.congr
    {Item : Type}
    {holds other : Item → Prop}
    {items : List Item}
    {found : Option Item}
    (finds : Finds holds items found)
    (same : ∀ item, holds item ↔ other item) :
    Finds other items found := by
  obtain rfl : holds = other := funext fun item => propext (same item)
  exact finds

section

variable
  {ε Item : Type}
  {test : Item → Except ε Bool}
  {items : List Item}

/-- A search that comes to an end finds the first item that passes the test. -/
theorem findM?_finds
    {found : Option Item}
    (ok : items.findM? test = .ok found) :
    Finds (fun item => test item = .ok true) items found := by
  induction items with
  | nil =>
      cases ok
      exact nofun
  | cons item rest inductionHypothesis =>
      obtain ⟨passes, tested, ok⟩ := bind_eq_ok.mp ok
      cases passes with
      | true =>
          cases ok
          exact ⟨[], rest, rfl, tested, nofun⟩
      | false =>
          have fails : ¬test item = .ok true := by simp [tested]
          have later := inductionHypothesis ok
          cases found with
          | none => exact List.forall_mem_cons.mpr ⟨fails, later⟩
          | some first =>
              obtain ⟨earlier, others, split, passes, none⟩ := later
              exact ⟨item :: earlier, others, by rw [split, List.cons_append], passes,
                List.forall_mem_cons.mpr ⟨fails, none⟩⟩

/-- A search comes to an end if every test does. -/
theorem findM?_ok
    (each : ∀ item ∈ items, ∃ passes, test item = .ok passes) :
    ∃ found, items.findM? test = .ok found := by
  induction items with
  | nil => exact ⟨none, rfl⟩
  | cons item rest inductionHypothesis =>
      obtain ⟨passes, tested⟩ := each item (by simp)
      cases passes with
      | true => exact ⟨some item, bind_eq_ok.mpr ⟨true, tested, rfl⟩⟩
      | false =>
          obtain ⟨found, ok⟩ := inductionHypothesis fun other member =>
            each other (by simp [member])
          exact ⟨found, bind_eq_ok.mpr ⟨false, tested, ok⟩⟩

end

/-! ## What an attempt comes to -/

/-- An attempt comes to a result or to an error of which something is known, or
it breaks a precondition, which needs a reason. -/
def ComesTo
    {α : Type}
    (results : α → Prop)
    (errors : CheckError → Prop)
    (broken : Prop) : Except RunError α → Prop
  | .ok result => results result
  | .error (.check error) => errors error
  | .error (.breach _) => broken

section

variable
  {α β : Type}
  {results : α → Prop}
  {errors : CheckError → Prop}
  {broken : Prop}

theorem ComesTo.bind
    {attempt : Except RunError α}
    {next : α → Except RunError β}
    {laterResults : β → Prop}
    {laterErrors : CheckError → Prop}
    (comes : ComesTo results errors broken attempt)
    (goesOn : ∀ result, results result →
      ComesTo laterResults laterErrors broken (next result))
    (stops : ∀ error, errors error → laterErrors error) :
    ComesTo laterResults laterErrors broken (attempt >>= next) := by
  match attempt with
  | .ok result => exact goesOn result comes
  | .error (.check error) => exact stops error comes
  | .error (.breach breach) => exact comes

theorem ComesTo.imp
    {attempt : Except RunError α}
    {otherResults : α → Prop}
    {otherErrors : CheckError → Prop}
    (comes : ComesTo results errors broken attempt)
    (known : ∀ result, results result → otherResults result)
    (knownErrors : ∀ error, errors error → otherErrors error) :
    ComesTo otherResults otherErrors broken attempt := by
  match attempt with
  | .ok result => exact known result comes
  | .error (.check error) => exact knownErrors error comes
  | .error (.breach breach) => exact comes

/-- An attempt that begins with a storage operation goes on with its result. -/
theorem ComesTo.lift_bind
    {attempt : Except Breach α}
    {next : α → Except RunError β}
    {results : β → Prop}
    (ends : ¬broken → ∃ result, attempt = .ok result)
    (goesOn : ∀ result, attempt = .ok result →
      ComesTo results errors broken (next result)) :
    ComesTo results errors broken ((liftM attempt : Except RunError α) >>= next) := by
  match attempt with
  | .ok result => exact goesOn result rfl
  | .error breach =>
    by_contra sound
    obtain ⟨result, ⟨⟩⟩ := ends sound

end

variable {layout : Layout}

namespace Replay

/-- A block that was left by a callable is recorded as it is or in canonical
form. -/
def Records
    (replay : Replay layout)
    (left recorded : Block layout.bytes) : Prop :=
  left = recorded ∨
    ∃ canonicalize ∈ replay.canonicalizer, canonicalize left = .ok recorded

/-- Some start state yields a recorded block. -/
def Starts
    (replay : Replay layout)
    (recorded : Block layout.bytes) : Prop :=
  ∃ start ∈ replay.model.startStates, ∃ left,
    (start.init replay.policy).runOn (.zero layout.bytes) = (.ok (), left) ∧
      replay.Records left recorded

/-- Some enabled rule leads from one recorded block to another. -/
def Links
    (replay : Replay layout)
    (origin recorded : Block layout.bytes) : Prop :=
  ∃ rule ∈ replay.model.rules, ∃ left,
    rule.guard replay.policy origin = .ok true ∧
      (rule.body replay.policy).runOn origin = (.ok (), left) ∧
      replay.Records left recorded

/-- A recorded block has a path from a start state through its ancestors,
nearest first. -/
def Trail
    (replay : Replay layout)
    (recorded : Block layout.bytes) : List (Block layout.bytes) → Prop
  | [] => replay.Starts recorded
  | previous :: ancestors =>
    replay.Links previous recorded ∧ replay.Trail previous ancestors

/-- A path taken from its first block on is linked from block to block. -/
theorem Trail.path
    {replay : Replay layout}
    {recorded : Block layout.bytes}
    {ancestors : List (Block layout.bytes)}
    (trail : replay.Trail recorded ancestors) :
    ∃ first rest, (recorded :: ancestors).reverse = first :: rest ∧
      replay.Starts first ∧ List.IsChain replay.Links (first :: rest) := by
  induction ancestors generalizing recorded with
  | nil => exact ⟨recorded, [], rfl, trail, List.isChain_singleton _⟩
  | cons previous ancestors inductionHypothesis =>
      obtain ⟨links, earlier⟩ := trail
      obtain ⟨first, rest, reversed, starts, chain⟩ := inductionHypothesis earlier
      refine ⟨first, rest ++ [recorded], ?_, starts, ?_⟩
      · rw [List.reverse_cons, reversed, List.cons_append]
      · rw [← List.cons_append]
        refine chain.append (List.isChain_singleton _) ?_
        intro last isLast next isNext
        have last_eq : last = previous := by
          rw [← reversed] at isLast
          simpa [eq_comm] using isLast
        have next_eq : next = recorded := by simpa [eq_comm] using isNext
        rw [last_eq, next_eq]
        exact links

/-! ## Replay finds the first that leads on -/

/-- A start state yields a recorded block. -/
def Yields
    (replay : Replay layout)
    (recorded : Block layout.bytes)
    (start : StartState layout.bytes) : Prop :=
  ∃ left, (start.init replay.policy).runOn (.zero layout.bytes) = (.ok (), left) ∧
    replay.Records left recorded

/-- A rule is enabled in a recorded block and leads to another one. -/
def LeadsOn
    (replay : Replay layout)
    (origin recorded : Block layout.bytes)
    (rule : Rule layout.bytes) : Prop :=
  ∃ left, rule.guard replay.policy origin = .ok true ∧
    (rule.body replay.policy).runOn origin = (.ok (), left) ∧
    replay.Records left recorded

/-- Whether what a callable left is recorded. After a fault nothing is. -/
def leaves?
    (replay : Replay layout)
    (outcome : Except Stop Unit × Block layout.bytes)
    (recorded : Block layout.bytes) : Except Breach Bool := do
  match ← completed outcome with
  | some left => replay.matchesRecorded left recorded
  | none => return false

/-- Whether a rule leads from one recorded block to another. -/
def leadsOn?
    (replay : Replay layout)
    (origin recorded : Block layout.bytes)
    (rule : Rule layout.bytes) : Except Breach Bool := do
  if ← replay.isEnabled origin rule then
    replay.leaves? ((rule.body replay.policy).runOn origin) recorded
  else return false

variable {replay : Replay layout}

theorem matchesRecorded_iff
    {left recorded : Block layout.bytes} :
    replay.matchesRecorded left recorded = .ok true ↔ replay.Records left recorded := by
  unfold matchesRecorded Records
  by_cases same : left = recorded
  · simp [same, pure, Except.pure]
  · rw [if_neg same]
    cases present : replay.canonicalizer with
    | none => simp [same, pure, Except.pure]
    | some canonicalize =>
        cases canonical : canonicalize left <;>
          simp [same, canonical, bind, Except.bind, pure, Except.pure]

theorem leaves?_iff
    {outcome : Except Stop Unit × Block layout.bytes}
    {recorded : Block layout.bytes} :
    replay.leaves? outcome recorded = .ok true ↔
      ∃ left, outcome = (.ok (), left) ∧ replay.Records left recorded := by
  match outcome with
  | (.ok (), left) =>
    refine matchesRecorded_iff.trans ⟨fun records => ⟨left, rfl, records⟩, ?_⟩
    rintro ⟨_, ⟨⟩, records⟩
    exact records
  | (.error (.fault fault), left) => exact ⟨nofun, nofun⟩
  | (.error (.breach breach), left) => exact ⟨nofun, nofun⟩

theorem leadsOn?_iff
    {origin recorded : Block layout.bytes}
    {rule : Rule layout.bytes} :
    replay.leadsOn? origin recorded rule = .ok true ↔
      replay.LeadsOn origin recorded rule := by
  unfold leadsOn? LeadsOn isEnabled
  match guarded : rule.guard replay.policy origin with
  | .ok true =>
    refine leaves?_iff.trans ?_
    simp
  | .ok false => simp [bind, Except.bind, pure, Except.pure]
  | .error (.fault fault) => simp [bind, Except.bind, pure, Except.pure]
  | .error (.breach breach) => simp [bind, Except.bind]

/-- A search for a start state asks one after the other. -/
theorem findStart_eq_findM?
    (recorded : Block layout.bytes)
    (starts : List (StartState layout.bytes)) :
    replay.findStart recorded starts = starts.findM? fun start =>
      replay.leaves? ((start.init replay.policy).runOn (.zero layout.bytes))
        recorded := by
  induction starts with
  | nil => rfl
  | cons start rest inductionHypothesis =>
      simp only [findStart, List.findM?, leaves?, inductionHypothesis]
      rcases completed ((start.init replay.policy).runOn (.zero layout.bytes)) with
        breach | none | left
      · rfl
      · rfl
      · simp only [bind, Except.bind]
        rcases replay.matchesRecorded left recorded with breach | same | same <;> rfl

/-- A search for a rule asks one after the other. -/
theorem findRule_eq_findM?
    (origin recorded : Block layout.bytes)
    (rules : List (Rule layout.bytes)) :
    replay.findRule origin recorded rules =
      rules.findM? (replay.leadsOn? origin recorded) := by
  induction rules with
  | nil => rfl
  | cons rule rest inductionHypothesis =>
      simp only [findRule, List.findM?, leadsOn?, leaves?, inductionHypothesis]
      rcases replay.isEnabled origin rule with breach | disabled | enabled
      · rfl
      · rfl
      · simp only [bind, Except.bind]
        rcases completed ((rule.body replay.policy).runOn origin)
          with breach | none | left
        · rfl
        · rfl
        · simp only [if_true]
          rcases replay.matchesRecorded left recorded with breach | same | same <;> rfl

/-! ## How a path is explained -/

/-- The canonicalizer of a replay, if it has one, answers for every block. -/
def Canonicalizes (replay : Replay layout) : Prop :=
  ∀ canonicalize ∈ replay.canonicalizer, ∀ block,
    ∃ stored, canonicalize block = .ok stored

/-- Nothing that a replay runs breaks a precondition. -/
structure Sound (replay : Replay layout) : Prop where
  callables : replay.model.NeverBreaches
  canonicalizes : replay.Canonicalizes
  built : layout.Built

theorem Sound.leaves?_ok
    (sound : replay.Sound)
    {outcome : Except Stop Unit × Block layout.bytes}
    (ended : ∀ breach, outcome.1 ≠ .error (.breach breach))
    (recorded : Block layout.bytes) :
    ∃ answer, replay.leaves? outcome recorded = .ok answer := by
  match outcome with
  | (.ok (), left) =>
    show ∃ answer, replay.matchesRecorded left recorded = .ok answer
    unfold matchesRecorded
    split
    · exact ⟨true, rfl⟩
    · split
      · rename_i canonicalize present
        obtain ⟨stored, canonical⟩ := sound.canonicalizes canonicalize present left
        exact ⟨_, bind_eq_ok.mpr ⟨stored, canonical, rfl⟩⟩
      · exact ⟨false, rfl⟩
  | (.error (.fault fault), left) => exact ⟨false, rfl⟩
  | (.error (.breach breach), left) => exact absurd rfl (ended breach)

theorem Sound.leadsOn?_ok
    (sound : replay.Sound)
    {rule : Rule layout.bytes}
    (declared : rule ∈ replay.model.rules)
    (origin recorded : Block layout.bytes) :
    ∃ answer, replay.leadsOn? origin recorded rule = .ok answer := by
  unfold leadsOn? isEnabled
  match guarded : rule.guard replay.policy origin with
  | .ok true =>
    exact sound.leaves?_ok
      (sound.callables.bodies rule declared replay.policy origin) recorded
  | .ok false => exact ⟨false, rfl⟩
  | .error (.fault fault) => exact ⟨false, rfl⟩
  | .error (.breach breach) =>
    exact absurd guarded
      (sound.callables.guards rule declared replay.policy origin breach)

/-- A step shows the first recorded block of a path, and names the first start
state that yields it. -/
structure ExplainsStart
    (replay : Replay layout)
    (recorded : Block layout.bytes)
    (step : Step) : Prop where
  leaves : layout.leaves recorded = .ok step.leaves
  label : ∃ start, IsFirst (replay.Yields recorded) replay.model.startStates start ∧
    step.label = "Startstate " ++ start.name

/-- A step shows a recorded block, and names the first rule that leads there
from the block before it. -/
structure ExplainsLink
    (replay : Replay layout)
    (origin recorded : Block layout.bytes)
    (step : Step) : Prop where
  leaves : layout.leaves recorded = .ok step.leaves
  label : ∃ rule, IsFirst (replay.LeadsOn origin recorded) replay.model.rules rule ∧
    step.label = "Rule " ++ rule.name

/-- The steps behind the first block of a path explain its links one by one. -/
structure ExplainsLinks
    (replay : Replay layout)
    (first : Block layout.bytes)
    (rest : List (Block layout.bytes))
    (steps : List Step) : Prop where
  length : steps.length = rest.length
  each : ∀ (position : Nat) (origin recorded : Block layout.bytes) (step : Step),
    (first :: rest)[position]? = some origin → rest[position]? = some recorded →
    steps[position]? = some step → replay.ExplainsLink origin recorded step

/-- No start state yields the first block of a path. -/
def noStart : CheckError :=
  .internal "no start state found to produce a discovered state"

/-- No rule leads from one block of a path to the next. -/
def noLink : CheckError :=
  .internal "no rule found to link two discovered states"

/-- A step is labelled by the first item with a property, or there is none. -/
theorem labelled_comesTo
    {Item : Type}
    {search : Except Breach (Option Item)}
    {next : Option Item → Except RunError Step}
    {recorded : Block layout.bytes}
    (holds : Item → Prop)
    (items : List Item)
    (label : Item → String)
    (error : CheckError)
    (present : ∀ item, next (some item) =
      do return ⟨label item, ← layout.leaves recorded⟩)
    (missing : next none = throw (.check error))
    (finds : ∀ found, search = .ok found → Finds holds items found)
    (ends : replay.Sound → ∃ found, search = .ok found) :
    ComesTo
      (fun step : Step => layout.leaves recorded = .ok step.leaves ∧
        ∃ item, IsFirst holds items item ∧ step.label = label item)
      (fun stopped => stopped = error ∧ ∀ item ∈ items, ¬holds item)
      (¬replay.Sound) ((liftM search : Except RunError (Option Item)) >>= next) := by
  refine .lift_bind (fun sound => ends (not_not.mp sound)) fun found searched => ?_
  have first := finds found searched
  cases found with
  | none =>
      rw [missing]
      exact ⟨rfl, first⟩
  | some item =>
      rw [present]
      refine .lift_bind (fun sound => (not_not.mp sound).built.leaves_ok recorded) ?_
      intro leaves read
      exact ⟨read, item, first, rfl⟩

theorem startStep_comesTo (recorded : Block layout.bytes) :
    ComesTo
      (fun step => replay.Starts recorded ∧ replay.ExplainsStart recorded step)
      (fun error => error = noStart ∧ ¬replay.Starts recorded)
      (¬replay.Sound) (replay.startStep recorded) := by
  refine (labelled_comesTo (replay.Yields recorded) replay.model.startStates
    (fun start => "Startstate " ++ start.name) noStart (fun _ => rfl) rfl ?_
      ?_).imp ?_ ?_
  · intro found ok
    rw [findStart_eq_findM?] at ok
    exact (findM?_finds ok).congr fun start => leaves?_iff
  · intro sound
    rw [findStart_eq_findM?]
    exact findM?_ok fun start declared =>
      sound.leaves?_ok (sound.callables.starts start declared _ _) recorded
  · rintro step ⟨read, start, first, label⟩
    exact ⟨first.exists, read, start, first, label⟩
  · rintro error ⟨rfl, none⟩
    exact ⟨rfl, fun ⟨start, declared, yields⟩ => none start declared yields⟩

theorem ruleStep_comesTo (origin recorded : Block layout.bytes) :
    ComesTo
      (fun step => replay.Links origin recorded ∧
        replay.ExplainsLink origin recorded step)
      (fun error => error = noLink ∧ ¬replay.Links origin recorded)
      (¬replay.Sound) (replay.ruleStep origin recorded) := by
  refine (labelled_comesTo (replay.LeadsOn origin recorded) replay.model.rules
    (fun rule => "Rule " ++ rule.name) noLink (fun _ => rfl) rfl ?_ ?_).imp ?_ ?_
  · intro found ok
    rw [findRule_eq_findM?] at ok
    exact (findM?_finds ok).congr fun rule => leadsOn?_iff
  · intro sound
    rw [findRule_eq_findM?]
    exact findM?_ok fun rule declared => sound.leadsOn?_ok declared origin recorded
  · rintro step ⟨read, rule, first, label⟩
    exact ⟨first.exists, read, rule, first, label⟩
  · rintro error ⟨rfl, none⟩
    exact ⟨rfl, fun ⟨rule, declared, leadsOn⟩ => none rule declared leadsOn⟩

theorem ruleSteps_comesTo
    (first : Block layout.bytes)
    (rest : List (Block layout.bytes)) :
    ComesTo
      (fun steps => List.IsChain replay.Links (first :: rest) ∧
        replay.ExplainsLinks first rest steps)
      (fun error => error = noLink ∧ ¬List.IsChain replay.Links (first :: rest))
      (¬replay.Sound) (replay.ruleSteps first rest) := by
  induction rest generalizing first with
  | nil =>
      exact ⟨List.isChain_singleton first, rfl, nofun⟩
  | cons recorded rest inductionHypothesis =>
      refine (ruleStep_comesTo first recorded).bind ?_ ?_
      · rintro step ⟨links, explains⟩
        refine (inductionHypothesis recorded).bind ?_ ?_
        · rintro steps ⟨chain, others⟩
          refine ⟨List.isChain_cons_cons.mpr ⟨links, chain⟩, by simp [others.length], ?_⟩
          rintro (_ | position) origin next shown
          · rintro ⟨⟩ ⟨⟩ ⟨⟩
            exact explains
          · exact others.each position origin next shown
        · rintro error ⟨rfl, broken⟩
          exact ⟨rfl, fun chain => broken (List.isChain_cons_cons.mp chain).2⟩
      · rintro error ⟨rfl, broken⟩
        exact ⟨rfl, fun chain => broken (List.isChain_cons_cons.mp chain).1⟩

/-- A path is explained if a start state yields its first block and every block
is linked to the next, and else the first of these that fails is to blame. -/
theorem reconstruct_comesTo
    {target : State layout.bytes}
    {first : Block layout.bytes}
    {rest : List (Block layout.bytes)}
    (path : target.path = first :: rest) :
    ComesTo
      (fun steps =>
        (replay.Starts first ∧ List.IsChain replay.Links (first :: rest)) ∧
        ∃ start others, steps = start :: others ∧ replay.ExplainsStart first start ∧
          replay.ExplainsLinks first rest others)
      (fun error =>
        (error = noStart ∧ ¬replay.Starts first) ∨
        (error = noLink ∧ replay.Starts first ∧
          ¬List.IsChain replay.Links (first :: rest)))
      (¬replay.Sound) (replay.reconstruct target) := by
  simp only [reconstruct, path]
  refine (startStep_comesTo first).bind ?_ fun _ => .inl
  rintro start ⟨starts, explains⟩
  refine (ruleSteps_comesTo first rest).bind ?_ fun error ⟨same, broken⟩ =>
    .inr ⟨same, starts, broken⟩
  rintro others ⟨chain, explained⟩
  exact ⟨⟨starts, chain⟩, start, others, rfl, explains, explained⟩

/-- A state with a trail can be explained. -/
theorem reconstruct_ok
    (callables : replay.model.NeverBreaches)
    (canonicalizes : replay.Canonicalizes)
    (built : layout.Built)
    {state : State layout.bytes}
    (trail : replay.Trail state.block state.ancestors) :
    ∃ steps, replay.reconstruct state = .ok steps := by
  obtain ⟨first, rest, path, starts, chain⟩ := trail.path
  have comes := replay.reconstruct_comesTo path
  match outcome : replay.reconstruct state with
  | .ok steps => exact ⟨steps, rfl⟩
  | .error (.check error) =>
    rw [outcome] at comes
    rcases comes with ⟨-, missing⟩ | ⟨-, -, broken⟩
    · exact absurd starts missing
    · exact absurd chain broken
  | .error (.breach breach) =>
    rw [outcome] at comes
    exact absurd ⟨callables, canonicalizes, built⟩ comes

end Replay
end StateSpace
