import StateSpace.Proofs.Search.Attempts

/-!
# Yields

The attempts in a state yield faults, firings and offered blocks. What they
yield depends on the block of the state alone, so it can be said without a
search. If no callable breaks a precondition then it is what the
specification of reachable states asks for.
-/

namespace StateSpace

variable {layout : Layout}

/-- Faults, firings of rules, and blocks offered to the visited set. -/
abbrev Yield (layout : Layout) : Type :=
  Multiset FaultRecord × Nat × Multiset (Block layout.bytes)

namespace Yield

/-- What reporting a fault yields, if there is one to report. -/
def ofRecord (record? : Option FaultRecord) : Yield layout :=
  (record?.toList, 0, 0)

/-- What one firing yields. -/
def firing : Yield layout :=
  (0, 1, 0)

/-- What offering a block yields. -/
def offer (block : Block layout.bytes) : Yield layout :=
  (0, 0, {block})

@[simp] theorem ofRecord_none : (ofRecord none : Yield layout) = 0 := rfl

end Yield

namespace Setup

/-- What keeping a candidate yields. -/
def keptYield
    (setup : Setup layout)
    (block : Block layout.bytes) : Yield layout :=
  match setup.canonical block with
  | .ok stored => Yield.offer stored
  | .error _ => 0

/-- What going on as a judgement says yields. -/
def judgementYield
    (setup : Setup layout)
    (context : String)
    (block : Block layout.bytes) : Judgement → Yield layout
  | .rejected fault => Yield.ofRecord (FaultRecord.ofFault? fault context)
  | .infeasible => 0
  | .violated record => Yield.ofRecord (some record) + setup.keptYield block
  | .accepted => setup.keptYield block

/-- What a start state yields. -/
def startYield
    (setup : Setup layout)
    (start : StartState layout.bytes) : Yield layout :=
  match setup.model.attemptStart setup.policy start with
  | .ok candidate =>
    setup.judgementYield ("startstate " ++ start.name) candidate.block
      candidate.judgement
  | .error _ => 0

/-- What a rule yields in a block. -/
def ruleYield
    (setup : Setup layout)
    (origin : Block layout.bytes)
    (rule : Rule layout.bytes) : Yield layout :=
  match setup.model.attemptRule setup.policy origin rule with
  | .ok .disabled => 0
  | .ok (.guardFault fault) =>
    Yield.ofRecord (FaultRecord.ofFault? fault ("rule " ++ rule.name))
  | .ok (.candidate candidate) =>
    (if candidate.completed then Yield.firing else 0) +
      setup.judgementYield ("rule " ++ rule.name) candidate.block
        candidate.judgement
  | .error _ => 0

/-- Whether an attempt of a rule keeps a block from being a deadlock. -/
def makesProgress
    (setup : Setup layout)
    (origin : Block layout.bytes)
    (rule : Rule layout.bytes) : Bool :=
  match setup.model.attemptRule setup.policy origin rule with
  | .ok outcome => Search.isProgress outcome
  | .error _ => false

/-- What a state yields as a deadlock, if it is one. -/
def deadlockYield
    (setup : Setup layout)
    (stuck : Bool) : Yield layout :=
  if stuck && setup.config.deadlockDetection then
    Yield.ofRecord (some deadlockRecord)
  else 0

/-- What the rules of an agenda yield in a block. -/
def rulesYield
    (setup : Setup layout)
    (origin : Block layout.bytes)
    (stuck : Bool)
    (rules : List (Rule layout.bytes)) : Yield layout :=
  (rules.map (setup.ruleYield origin)).sum +
    setup.deadlockYield (stuck && rules.all fun rule => !setup.makesProgress origin rule)

/-- What the expansion of a block yields. -/
def blockYield
    (setup : Setup layout)
    (block : Block layout.bytes) : Yield layout :=
  setup.rulesYield block true setup.model.rules

/-- What the start states of a model yield. -/
def seedYield (setup : Setup layout) : Yield layout :=
  (setup.model.startStates.map setup.startYield).sum

variable {setup : Setup layout}

theorem rulesYield_cons
    (origin : Block layout.bytes)
    (stuck : Bool)
    (rule : Rule layout.bytes)
    (rest : List (Rule layout.bytes)) :
    setup.rulesYield origin stuck (rule :: rest) =
      setup.ruleYield origin rule +
        setup.rulesYield origin (stuck && !setup.makesProgress origin rule) rest := by
  simp only [rulesYield, List.map_cons, List.sum_cons, List.all_cons,
    Bool.and_assoc, add_assoc]


/-! ## Yields as specified -/

theorem keptYield_fst
    (block : Block layout.bytes) :
    (setup.keptYield block).1 = 0 := by
  unfold keptYield
  split <;> rfl

theorem keptYield_firings
    (block : Block layout.bytes) :
    (setup.keptYield block).2.1 = 0 := by
  unfold keptYield
  split <;> rfl

theorem mem_keptYield
    {block stored : Block layout.bytes} :
    stored ∈ (setup.keptYield block).2.2 ↔ setup.canonical block = .ok stored := by
  unfold keptYield
  split
  · rename_i canonical
    simp [Yield.offer, canonical, eq_comm]
  · rename_i canonical
    simp [canonical]

/-- Going on as a judgement says yields the fault that it reports, no firing,
and the canonical form of the candidate exactly if it is kept. -/
theorem judgementYield_spec
    (setup : Setup layout)
    (context : String)
    (block : Block layout.bytes)
    (judgement : Judgement) :
    (setup.judgementYield context block judgement).1 =
        (judgement.record? context).toList ∧
      (setup.judgementYield context block judgement).2.1 = 0 ∧
      ∀ stored, stored ∈ (setup.judgementYield context block judgement).2.2 ↔
        judgement.keeps = true ∧ setup.canonical block = .ok stored := by
  cases judgement with
  | rejected fault =>
      simp [judgementYield, Yield.ofRecord, Judgement.record?, Judgement.keeps]
  | infeasible => simp [judgementYield, Judgement.record?, Judgement.keeps]
  | violated record =>
      simp [judgementYield, Yield.ofRecord, Judgement.record?, Judgement.keeps,
        keptYield_fst, keptYield_firings, mem_keptYield]
  | accepted =>
      simp [judgementYield, Judgement.record?, Judgement.keeps,
        keptYield_fst, keptYield_firings, mem_keptYield]

variable (sound : setup.model.NeverBreaches)
include sound

/-- A start state yields its fault and the canonical form of what it leaves. -/
theorem startYield_spec
    {start : StartState layout.bytes}
    (declared : start ∈ setup.model.startStates) :
    (setup.startYield start).1 =
        (setup.model.startRecord? setup.policy start).toList ∧
      (setup.startYield start).2.1 = 0 ∧
      ∀ stored, stored ∈ (setup.startYield start).2.2 ↔
        ∃ block, setup.model.Begins setup.policy start block ∧
          setup.canonical block = .ok stored := by
  obtain ⟨candidate, attempted, recorded, keeps, unique⟩ :=
    sound.attemptStart_spec setup.policy declared
  obtain ⟨records, firings, offered⟩ := setup.judgementYield_spec
    ("startstate " ++ start.name) candidate.block candidate.judgement
  simp only [startYield, attempted]
  refine ⟨by rw [records, recorded], firings, ?_⟩
  intro stored
  rw [offered, keeps]
  constructor
  · rintro ⟨begins, canonical⟩
    exact ⟨candidate.block, begins, canonical⟩
  · rintro ⟨block, begins, canonical⟩
    rw [← unique block begins]
    exact ⟨begins, canonical⟩

/-- A rule yields its fault, its firing, and the canonical form of the block
that it leads to. -/
theorem ruleYield_spec
    (origin : Block layout.bytes)
    {rule : Rule layout.bytes}
    (declared : rule ∈ setup.model.rules) :
    (setup.ruleYield origin rule).1 =
        (setup.model.ruleRecord? setup.policy origin rule).toList ∧
      (setup.ruleYield origin rule).2.1 =
        (Model.fires setup.policy origin rule).toNat ∧
      (∀ stored, stored ∈ (setup.ruleYield origin rule).2.2 ↔
        ∃ block, setup.model.Leads setup.policy origin rule block ∧
          setup.canonical block = .ok stored) ∧
      setup.makesProgress origin rule = isTrue (rule.guard setup.policy origin) := by
  obtain ⟨outcome, attempted, spec⟩ :=
    sound.attemptRule_spec setup.policy origin declared
  simp only [ruleYield, makesProgress, attempted]
  cases outcome with
  | disabled =>
      have closed : rule.guard setup.policy origin = .ok false := spec
      refine ⟨?_, ?_, ?_, ?_⟩
      · simp [Model.ruleRecord?, closed]
      · simp [Model.fires, closed, isTrue]
      · intro stored
        simp only [Prod.snd_zero, Multiset.notMem_zero, false_iff]
        rintro ⟨block, leads, -⟩
        simpa [closed] using leads.enabled
      · simp [closed, isTrue, Search.isProgress]
  | guardFault fault =>
      have failed : rule.guard setup.policy origin = .error (.fault fault) := spec
      refine ⟨?_, ?_, ?_, ?_⟩
      · simp [Model.ruleRecord?, failed, Yield.ofRecord]
      · simp [Model.fires, failed, isTrue, Yield.ofRecord]
      · intro stored
        simp only [Yield.ofRecord, Multiset.notMem_zero, false_iff]
        rintro ⟨block, leads, -⟩
        simpa [failed] using leads.enabled
      · simp [failed, isTrue, Search.isProgress]
  | candidate candidate =>
      obtain ⟨enabled, completed, recorded, keeps, unique⟩ := spec
      obtain ⟨records, firings, offered⟩ := setup.judgementYield_spec
        ("rule " ++ rule.name) candidate.block candidate.judgement
      have counted : ∀ yes : Bool,
          (if yes then Yield.firing else 0 : Yield layout) = (0, yes.toNat, 0) := by
        intro yes
        cases yes <;> rfl
      simp only [counted, Prod.fst_add, Prod.snd_add, zero_add, records,
        firings, add_zero]
      refine ⟨?_, ?_, ?_, ?_⟩
      · rw [recorded]
        simp [Model.ruleRecord?, enabled]
      · rw [completed]
        simp [Model.fires, enabled, isTrue]
      · intro stored
        rw [offered, keeps]
        constructor
        · rintro ⟨leads, canonical⟩
          exact ⟨candidate.block, leads, canonical⟩
        · rintro ⟨block, leads, canonical⟩
          rw [← unique block leads]
          exact ⟨leads, canonical⟩
      · simp [enabled, isTrue, Search.isProgress]

/-- Rules of the model yield their faults, their firings, and the canonical
forms of the blocks that they lead to. -/
theorem ruleYields_spec
    (origin : Block layout.bytes)
    {rules : List (Rule layout.bytes)}
    (declared : ∀ rule ∈ rules, rule ∈ setup.model.rules) :
    (rules.map (setup.ruleYield origin)).sum.1 =
        rules.filterMap (setup.model.ruleRecord? setup.policy origin) ∧
      (rules.map (setup.ruleYield origin)).sum.2.1 =
        rules.countP (Model.fires setup.policy origin) ∧
      (∀ stored, stored ∈ (rules.map (setup.ruleYield origin)).sum.2.2 ↔
        ∃ rule ∈ rules, ∃ block,
          setup.model.Leads setup.policy origin rule block ∧
            setup.canonical block = .ok stored) ∧
      (rules.all fun rule => !setup.makesProgress origin rule) =
        rules.all fun rule => !isTrue (rule.guard setup.policy origin) := by
  induction rules with
  | nil => simp
  | cons rule rest inductionHypothesis =>
      obtain ⟨records, firings, offered, progress⟩ :=
        ruleYield_spec sound origin (declared rule (by simp))
      obtain ⟨restRecords, restFirings, restOffered, restProgress⟩ :=
        inductionHypothesis fun other member => declared other (by simp [member])
      refine ⟨?_, ?_, ?_, ?_⟩
      · rw [List.map_cons, List.sum_cons, Prod.fst_add, records, restRecords,
          List.filterMap_cons]
        cases setup.model.ruleRecord? setup.policy origin rule <;> simp
      · rw [List.map_cons, List.sum_cons, Prod.snd_add, Prod.fst_add, firings,
          restFirings, List.countP_cons]
        cases Model.fires setup.policy origin rule <;> simp [add_comm]
      · intro stored
        rw [List.map_cons, List.sum_cons, Prod.snd_add, Prod.snd_add,
          Multiset.mem_add, offered, restOffered]
        simp
      · rw [List.all_cons, List.all_cons, progress, restProgress]

/-- The expansion of a block yields its faults, its firings, and the canonical
forms of the blocks that rules lead to. -/
theorem blockYield_spec (block : Block layout.bytes) :
    (setup.blockYield block).1 = setup.blockRecords block ∧
      (setup.blockYield block).2.1 = setup.firings block ∧
      ∀ stored, stored ∈ (setup.blockYield block).2.2 ↔
        ∃ rule ∈ setup.model.rules, ∃ left,
          setup.model.Leads setup.policy block rule left ∧
            setup.canonical left = .ok stored := by
  obtain ⟨records, firings, offered, progress⟩ :=
    ruleYields_spec sound block fun _ member => member
  have stuck : (true && setup.model.rules.all fun rule =>
      !setup.makesProgress block rule) = setup.model.isStuck setup.policy block := by
    rw [Bool.true_and, progress, Model.isStuck]
  rw [blockYield, rulesYield, stuck, deadlockYield, Bool.and_comm]
  refine ⟨?_, ?_, ?_⟩
  · rw [Prod.fst_add, records, blockRecords, ← Multiset.coe_add]
    split <;> rfl
  · rw [Prod.snd_add, Prod.fst_add, firings, Setup.firings]
    split <;> rfl
  · intro stored
    rw [Prod.snd_add, Prod.snd_add, Multiset.mem_add, offered]
    split <;> simp [Yield.ofRecord]

/-- Start states of the model yield their faults and the canonical forms of
what they leave. -/
theorem startYields_spec
    {starts : List (StartState layout.bytes)}
    (declared : ∀ start ∈ starts, start ∈ setup.model.startStates) :
    (starts.map setup.startYield).sum.1 =
        starts.filterMap (setup.model.startRecord? setup.policy) ∧
      (starts.map setup.startYield).sum.2.1 = 0 ∧
      ∀ stored, stored ∈ (starts.map setup.startYield).sum.2.2 ↔
        ∃ start ∈ starts, ∃ block, setup.model.Begins setup.policy start block ∧
          setup.canonical block = .ok stored := by
  induction starts with
  | nil => simp
  | cons start rest inductionHypothesis =>
      obtain ⟨records, firings, offered⟩ :=
        startYield_spec sound (declared start (by simp))
      obtain ⟨restRecords, restFirings, restOffered⟩ :=
        inductionHypothesis fun other member => declared other (by simp [member])
      refine ⟨?_, ?_, ?_⟩
      · rw [List.map_cons, List.sum_cons, Prod.fst_add, records, restRecords,
          List.filterMap_cons]
        cases setup.model.startRecord? setup.policy start <;> simp
      · rw [List.map_cons, List.sum_cons, Prod.snd_add, Prod.fst_add, firings,
          restFirings]
      · intro stored
        rw [List.map_cons, List.sum_cons, Prod.snd_add, Prod.snd_add,
          Multiset.mem_add, offered, restOffered]
        simp

/-- The start states yield their faults and the canonical forms of what they
leave. -/
theorem seedYield_spec :
    setup.seedYield.1 = setup.startRecords ∧
      setup.seedYield.2.1 = 0 ∧
      ∀ stored, stored ∈ setup.seedYield.2.2 ↔
        ∃ start ∈ setup.model.startStates, ∃ block,
          setup.model.Begins setup.policy start block ∧
            setup.canonical block = .ok stored :=
  startYields_spec sound fun _ member => member

end Setup
end StateSpace
