import StateSpace.Proofs.Search.Outcome
import StateSpace.Proofs.Symmetry.Mirrors
import StateSpace.Proofs.Workers.Ends

/-!
# Symmetry reduction is exact

If a canonicalizer chooses one block of every orbit of a symmetric model then a
run that reduces by symmetry discovers the chosen blocks of what a run without
reduction discovers, and the two report faults of the same kinds. The reduced
run judges a successor as it was left, the assumptions are asked about the chosen
block that it was left from, and only the chosen block of a successor is kept.
All of this goes through because attempts in a moved block mirror those in the
block itself.
-/

namespace StateSpace

section

variable {layout : Layout} {setup : Setup layout}

/-- The setup with symmetry reduction on or off. -/
def Setup.withSymmetry
    (setup : Setup layout)
    (symmetryReduction : Bool) : Setup layout :=
  { setup with config := { setup.config with symmetryReduction } }

/-! ## Runs with and without reduction -/

namespace Setup

variable {group : Subgroup (Equiv.Perm (Block layout.bytes))}

/-- A rule that makes progress in neither of two blocks makes none in the moved
ones. -/
theorem makesProgress_mirrors
    {move : Equiv.Perm (Block layout.bytes)}
    {block moved : Block layout.bytes}
    {rule twin : Rule layout.bytes}
    (same : SameOutcome (RuleOutcome.Mirrors move)
      (setup.model.attemptRule setup.policy block rule)
      (setup.model.attemptRule setup.policy moved twin)) :
    setup.makesProgress block rule = setup.makesProgress moved twin := by
  unfold makesProgress
  generalize setup.model.attemptRule setup.policy block rule = before at same ⊢
  generalize setup.model.attemptRule setup.policy moved twin = after at same ⊢
  cases same with
  | breach => rfl
  | ok mirrors => cases mirrors <;> rfl

/-- A fault of a block is raised in the moved block, up to what is said of it. -/
theorem Raises.move
    (symmetric : setup.model.IsSymmetric setup.policy group)
    {move : Equiv.Perm (Block layout.bytes)}
    (inside : move ∈ group)
    {block : Block layout.bytes}
    {record : FaultRecord}
    (raises : setup.Raises block record) :
    ∃ other, setup.Raises (move block) other ∧ other.kind = record.kind := by
  rcases raises
    with ⟨rule, declared, outcome, attempted, reported⟩ | ⟨wanted, rfl, stuck⟩
  · obtain ⟨twin, present, same⟩ := symmetric.attemptRule inside block declared
    rw [attempted] at same
    generalize answered : setup.model.attemptRule setup.policy (move block) twin =
      answer at same
    cases same with
    | @ok _ moved mirrors =>
        have kinds := mirrors.kind ("rule " ++ rule.name) ("rule " ++ twin.name)
        rw [reported] at kinds
        obtain ⟨other, again, kind⟩ := Option.map_eq_some_iff.mp kinds.symm
        exact ⟨other, .inl ⟨twin, present, moved, answered, again⟩, kind⟩
  · -- A rule that made progress in the moved block would have a twin that does so
    -- in the block.
    refine ⟨deadlockRecord, .inr ⟨wanted, rfl, fun twin present => ?_⟩, rfl⟩
    obtain ⟨rule, declared, same⟩ :=
      symmetric.attemptRule (inv_mem inside) (move block) present
    have back : move⁻¹ (move block) = block := move.symm_apply_apply block
    rw [back] at same
    exact (makesProgress_mirrors same).trans (stuck rule declared)

section

variable
  {canonicalize : Canonicalizer layout.bytes}
  {choose : Block layout.bytes → Block layout.bytes}

theorem canonical_withSymmetry
    (registered : setup.model.canonicalizer = some canonicalize)
    (chooses : Chooses group canonicalize choose)
    (block : Block layout.bytes) :
    (setup.withSymmetry true).canonical block = .ok (choose block) := by
  have applied : (setup.withSymmetry true).canonicalizer = some canonicalize :=
    registered
  rw [canonical, applied]
  exact chooses.answers block

variable
  (registered : setup.model.canonicalizer = some canonicalize)
  (chooses : Chooses group canonicalize choose)
  (symmetric : setup.model.IsSymmetric setup.policy group)
include registered chooses symmetric

/-- With reduction, the chosen block of everything is offered that is offered
without. -/
theorem Offered.reduced
    {block : Block layout.bytes}
    (offered : (setup.withSymmetry false).Offered block) :
    (setup.withSymmetry true).Offered (choose block) := by
  have canonical := canonical_withSymmetry registered chooses
  induction offered with
  | start declared attempted kept same =>
      cases same
      exact .start declared attempted kept (canonical _)
  | @rule origin _ rule candidate _ declared attempted kept same inductionHypothesis =>
      cases same
      obtain ⟨move, inside, chosen⟩ := chooses.orbit origin
      obtain ⟨twin, present, other, again, keeps, moved⟩ :=
        symmetric.leaves inside declared attempted kept
      rw [chosen] at inductionHypothesis
      have stored := canonical other.block
      rw [moved, chooses.constant move inside] at stored
      rw [← moved] at stored
      exact .rule inductionHypothesis present again keeps stored

/-- With reduction, only chosen blocks are offered of what is offered without. -/
theorem Offered.unreduced
    {stored : Block layout.bytes}
    (offered : (setup.withSymmetry true).Offered stored) :
    ∃ block, (setup.withSymmetry false).Offered block ∧ choose block = stored := by
  have canonical := canonical_withSymmetry registered chooses
  induction offered with
  | start declared attempted kept same =>
      cases (canonical _).symm.trans same
      exact ⟨_, .start declared attempted kept rfl, rfl⟩
  | @rule origin _ rule candidate _ declared attempted kept same inductionHypothesis =>
      cases (canonical _).symm.trans same
      obtain ⟨block, offered, rfl⟩ := inductionHypothesis
      obtain ⟨move, inside, back⟩ := chooses.orbit_back block
      obtain ⟨twin, present, other, again, keeps, moved⟩ :=
        symmetric.leaves inside declared attempted kept
      rw [back] at again
      refine ⟨other.block, .rule offered present again keeps rfl, ?_⟩
      rw [moved, chooses.constant move inside]

/-- A run with symmetry reduction and one without, both of which end with room
for faults left, agree: the first discovers the chosen blocks of what the second
discovers, and they report faults of the same kinds. -/
theorem symmetry_reduction_exact
    {reduced full : Board layout}
    (reducedEnds : (setup.withSymmetry true).Ends reduced)
    (fullEnds : (setup.withSymmetry false).Ends full)
    (reducedRoom : reduced.isExhausted setup = false)
    (fullRoom : full.isExhausted setup = false) :
    (∀ stored, reduced.visited.contains stored = true ↔
      ∃ block, full.visited.contains block = true ∧ choose block = stored) ∧
    ∀ kind, (∃ record ∈ reduced.faults, record.kind = kind) ↔
      ∃ record ∈ full.faults, record.kind = kind := by
  obtain ⟨_, reducedRun⟩ := reducedEnds.idle_run reducedRoom
  obtain ⟨_, fullRun⟩ := fullEnds.idle_run fullRoom
  have discoversReduced : ∀ block, reduced.visited.contains block = true ↔
      (setup.withSymmetry true).Offered block :=
    fun _ => reducedRun.offered_iff ⟨rfl, rfl⟩ reducedRoom
  have discoversFull : ∀ block, full.visited.contains block = true ↔
      (setup.withSymmetry false).Offered block :=
    fun _ => fullRun.offered_iff ⟨rfl, rfl⟩ fullRoom
  refine ⟨fun stored => ?_, fun kind => ⟨?_, ?_⟩⟩
  · rw [discoversReduced]
    simp only [discoversFull]
    constructor
    · exact Offered.unreduced registered chooses symmetric
    · rintro ⟨block, offered, rfl⟩
      exact offered.reduced registered chooses symmetric
  · rintro ⟨record, member, rfl⟩
    rcases (reducedRun.recorded_iff ⟨rfl, rfl⟩ reducedRoom).mp member with
      seeded | ⟨stored, offered, raises⟩
    · exact ⟨record, (fullRun.recorded_iff ⟨rfl, rfl⟩ fullRoom).mpr (.inl seeded), rfl⟩
    · obtain ⟨block, unreduced, rfl⟩ := offered.unreduced registered chooses symmetric
      obtain ⟨move, inside, back⟩ := chooses.orbit_back block
      obtain ⟨other, again, kind⟩ := Raises.move symmetric inside raises
      rw [back] at again
      exact ⟨other, (fullRun.recorded_iff ⟨rfl, rfl⟩ fullRoom).mpr
        (.inr ⟨block, unreduced, again⟩), kind⟩
  · rintro ⟨record, member, rfl⟩
    rcases (fullRun.recorded_iff ⟨rfl, rfl⟩ fullRoom).mp member with
      seeded | ⟨block, offered, raises⟩
    · exact ⟨record,
        (reducedRun.recorded_iff ⟨rfl, rfl⟩ reducedRoom).mpr (.inl seeded), rfl⟩
    · obtain ⟨move, inside, chosen⟩ := chooses.orbit block
      obtain ⟨other, again, kind⟩ := Raises.move symmetric inside raises
      rw [← chosen] at again
      exact ⟨other, (reducedRun.recorded_iff ⟨rfl, rfl⟩ reducedRoom).mpr
        (.inr ⟨choose block, offered.reduced registered chooses symmetric, again⟩), kind⟩

end
end Setup
end

/-! ## Two switches -/

namespace Switches

/-- Two Boolean variables. -/
def layout : Layout :=
  ⟨#[⟨"left", .boolean, 0⟩, ⟨"right", .boolean, 1⟩], 2⟩

theorem layout_built : layout.Built := by
  refine ⟨[("left", .boolean), ("right", .boolean)], ?_, ?_⟩
  · simp [Ty.Built.boolean]
  · simp [Layout.of?, Layout.extend, Layout.empty, Layout.maxVariables]
    rfl

/-- The left switch is on. -/
def left : Block layout.bytes :=
  ⟨1⟩

/-- The right switch is on. -/
def right : Block layout.bytes :=
  ⟨2⟩

/-- Both switches change places. -/
def exchange : Equiv.Perm (Block layout.bytes) :=
  Equiv.swap left right

def group : Subgroup (Equiv.Perm (Block layout.bytes)) where
  carrier := {1, exchange}
  one_mem' := by simp
  mul_mem' := by
    rintro _ _ (rfl | rfl) (rfl | rfl) <;> simp [exchange]
  inv_mem' := by
    rintro _ (rfl | rfl) <;> simp [exchange]

/-- The left switch stands for both. -/
def choose (block : Block layout.bytes) : Block layout.bytes :=
  if block = right then left else block

/-- A rule that turns a switch on if both are off. -/
def turnOn
    (name : String)
    (block : Block layout.bytes) : Rule layout.bytes :=
  ⟨name, fun _ origin => .ok (origin = .zero layout.bytes), fun _ => set block⟩

/-- Either switch can be turned on, or else the fuse is missing. -/
def model : Model layout where
  startStates :=
    [⟨"off", fun _ => pure ()⟩, ⟨"broken", fun _ => Update.fault (.model "no fuse")⟩]
  rules := [turnOn "left" left, turnOn "right" right]
  invariants := []
  assumptions := []
  canonicalizer := some fun block => .ok (choose block)
  startStates_ne_nil := by simp

def setup : Setup layout :=
  ⟨model, { deadlockDetection := false, maxErrors := 2 }⟩

theorem chooses : Chooses group (fun block => .ok (choose block)) choose where
  answers := fun _ => rfl
  orbit := by
    intro block
    unfold choose
    split
    · rename_i equal
      exact ⟨exchange, by simp [group], by simp [equal, exchange]⟩
    · exact ⟨1, group.one_mem, rfl⟩
  constant := by
    rintro _ (rfl | rfl) block
    · rfl
    · by_cases isLeft : block = left
      · subst isLeft
        simp [choose, exchange, Equiv.swap_apply_left]
      · by_cases isRight : block = right
        · subst isRight
          simp [choose, exchange, Equiv.swap_apply_right]
        · rw [exchange, Equiv.swap_apply_of_ne_of_ne isLeft isRight]

theorem turnOn_mirrors
    {move : Equiv.Perm (Block layout.bytes)}
    (fixed : move (.zero layout.bytes) = .zero layout.bytes)
    (policy : OverflowPolicy)
    (origin block : Block layout.bytes)
    (name other : String) :
    (turnOn name block).Mirrors policy move origin (turnOn other (move block)) where
  guards := by
    have off : origin = .zero layout.bytes ↔ move origin = .zero layout.bytes := by
      rw [← fixed, move.apply_eq_iff_eq, fixed]
    exact .ok (decide_eq_decide.mpr off)
  bodies := fun _ => .ok rfl

theorem symmetric : setup.model.IsSymmetric setup.policy group where
  rules := by
    intro move inside block rule declared
    have fixed : move (.zero layout.bytes) = .zero layout.bytes := by
      rcases inside with rfl | rfl
      · rfl
      · exact Equiv.swap_apply_of_ne_of_ne (by decide) (by decide)
    have leftMirrors := turnOn_mirrors fixed setup.policy block left "left"
    have rightMirrors := turnOn_mirrors fixed setup.policy block right "right"
    have leftDeclared : turnOn "left" left ∈ setup.model.rules := by simp [setup, model]
    have rightDeclared : turnOn "right" right ∈ setup.model.rules :=
      by simp [setup, model]
    simp only [setup, model, List.mem_cons, List.not_mem_nil, or_false] at declared
    rcases inside with rfl | rfl
    · rcases declared with rfl | rfl
      · exact ⟨_, leftDeclared, leftMirrors "left"⟩
      · exact ⟨_, rightDeclared, rightMirrors "right"⟩
    · rw [exchange, Equiv.swap_apply_left] at leftMirrors
      rw [exchange, Equiv.swap_apply_right] at rightMirrors
      rcases declared with rfl | rfl
      · exact ⟨_, rightDeclared, leftMirrors "right"⟩
      · exact ⟨_, leftDeclared, rightMirrors "left"⟩
  invariants := nofun
  assumptions := nofun

theorem neverBreaches : setup.model.NeverBreaches where
  starts := by
    intro start member policy block breach
    simp only [setup, model, List.mem_cons, List.not_mem_nil, or_false] at member
    rcases member with rfl | rfl <;> rintro ⟨⟩
  guards := by
    intro rule member policy block breach
    simp only [setup, model, List.mem_cons, List.not_mem_nil, or_false] at member
    rcases member with rfl | rfl <;> rintro ⟨⟩
  bodies := by
    intro rule member policy block breach
    simp only [setup, model, List.mem_cons, List.not_mem_nil, or_false] at member
    rcases member with rfl | rfl <;> rintro ⟨⟩
  invariants := nofun
  assumptions := nofun
  canonicalizer := by
    rintro _ ⟨rfl⟩ block
    exact ⟨choose block, rfl⟩

theorem faultTotal_withSymmetry (symmetryReduction : Bool) :
    (setup.withSymmetry symmetryReduction).faultTotal = 1 := by
  have starts : (setup.withSymmetry symmetryReduction).startRecords =
      [⟨.model, "no fuse", some "startstate broken"⟩] := rfl
  have blocks : ∀ block,
      (setup.withSymmetry symmetryReduction).blockRecords block = [] := by
    intro block
    by_cases off : block = .zero layout.bytes
    · subst off
      rfl
    · simp [Setup.blockRecords, Model.ruleRecord?, Setup.withSymmetry, setup, model,
        turnOn, off]
  simp [Setup.faultTotal, starts, blocks]

/-- A search of the switches ends with room for faults left. -/
theorem search_ok (symmetryReduction : Bool) :
    ∃ search, (setup.withSymmetry symmetryReduction).search = .ok search ∧
      search.board.Complete (setup.withSymmetry symmetryReduction) ∧
      search.board.isExhausted setup = false := by
  have sound : (setup.withSymmetry symmetryReduction).model.NeverBreaches :=
    neverBreaches
  have storable : (setup.withSymmetry symmetryReduction).Storable := by
    cases symmetryReduction <;> exact ⟨by decide, by decide⟩
  have few : (setup.withSymmetry symmetryReduction).faultTotal <
      setup.config.maxErrors := by
    rw [faultTotal_withSymmetry]
    decide
  obtain ⟨search, searched, complete, -⟩ :=
    Setup.search_complete sound layout_built storable few
  have size : search.faults.size =
      (setup.withSymmetry symmetryReduction).faultTotal := by
    rw [← Setup.card_allRecords, ← complete.records]
    simp [Search.board]
  refine ⟨search, searched, complete, ?_⟩
  simp only [Board.isExhausted, Search.board, size, decide_eq_false_iff_not, not_le]
  exact few

/-- Both searches find the missing fuse. With reduction the right switch is
never turned on. -/
theorem symmetry_reduction_exact_switches :
    ∃ reduced full,
      (setup.withSymmetry true).search = .ok reduced ∧
      (setup.withSymmetry false).search = .ok full ∧
      full.visited.contains right = true ∧
      reduced.visited.contains left = true ∧
      reduced.visited.contains right = false ∧
      ∃ record ∈ reduced.faults, record.kind = .model := by
  obtain ⟨reduced, reducedSearched, -, reducedRoom⟩ := search_ok true
  obtain ⟨full, fullSearched, complete, fullRoom⟩ := search_ok false
  obtain ⟨discovers, reports⟩ := Setup.symmetry_reduction_exact rfl chooses symmetric
    (Setup.search_ends reducedSearched) (Setup.search_ends fullSearched)
      reducedRoom fullRoom
  have begins :
      model.Begins setup.policy ⟨"off", fun _ => pure ()⟩ (.zero layout.bytes) :=
    ⟨rfl, nofun, nofun⟩
  have leads :
      model.Leads setup.policy (.zero layout.bytes) (turnOn "right" right) right :=
    ⟨rfl, rfl, nofun, nofun⟩
  have off : (setup.withSymmetry false).Reachable (.zero layout.bytes) :=
    .start (List.mem_cons_self ..) begins rfl
  have on : (setup.withSymmetry false).Reachable right :=
    .rule off (by simp [Setup.withSymmetry, setup, model]) leads rfl
  have found : full.visited.contains right = true := (complete.discovered right).mpr on
  have missing : reduced.visited.contains right = false := by
    refine Bool.eq_false_iff.mpr fun stored => ?_
    obtain ⟨block, -, chosen⟩ := (discovers right).mp stored
    unfold choose at chosen
    split at chosen
    · cases chosen
    · contradiction
  have missed : ⟨.model, "no fuse", some "startstate broken"⟩ ∈ full.faults := by
    rw [← Array.mem_toList_iff, ← Multiset.mem_coe]
    refine complete.records ▸ Multiset.mem_add.mpr (.inl ?_)
    exact List.mem_singleton_self _
  exact ⟨reduced, full, reducedSearched, fullSearched, found,
    (discovers left).mpr ⟨right, found, rfl⟩, missing,
    (reports .model).mpr ⟨_, missed, rfl⟩⟩

end Switches

end StateSpace
