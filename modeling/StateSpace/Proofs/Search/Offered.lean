import StateSpace.Proofs.Search.Completeness

/-!
# What runs offer

The blocks that attempts can come to offer are the least set that holds what
start states leave and with every block what rules leave in it. A crew that has
come to its end with room for faults left has discovered exactly these blocks,
and it has recorded what the start states and these blocks yield. Nothing is
assumed about the callables: an attempt that breaks a precondition offers
nothing, and a crew in which there is one never comes to its end.
-/

namespace StateSpace

variable {layout : Layout} {setup : Setup layout}

/-- The fault that the outcome of a rule reports, if it reports one. -/
def RuleOutcome.record?
    {size : Nat}
    (context : String) : RuleOutcome size → Option FaultRecord
  | .disabled => none
  | .guardFault fault => FaultRecord.ofFault? fault context
  | .candidate judged => judged.judgement.record? context

namespace Setup

/-- The blocks that attempts can come to offer. -/
inductive Offered (setup : Setup layout) : Block layout.bytes → Prop
  | start
      {start : StartState layout.bytes}
      {candidate : Candidate layout.bytes}
      {stored : Block layout.bytes}
      (declared : start ∈ setup.model.startStates)
      (attempted : setup.model.attemptStart setup.policy start = .ok candidate)
      (kept : candidate.judgement.keeps = true)
      (canonical : setup.canonical candidate.block = .ok stored) :
      Offered setup stored
  | rule
      {origin stored : Block layout.bytes}
      {rule : Rule layout.bytes}
      {candidate : Candidate layout.bytes}
      (offered : Offered setup origin)
      (declared : rule ∈ setup.model.rules)
      (attempted : setup.model.attemptRule setup.policy origin rule =
        .ok (.candidate candidate))
      (kept : candidate.judgement.keeps = true)
      (canonical : setup.canonical candidate.block = .ok stored) :
      Offered setup stored

/-! ## Parts of yields -/

/-- A part of what some items yield is a part of what one of them yields. -/
theorem mem_yields
    {Item Part : Type}
    (part : Yield layout →+ Multiset Part)
    (yield : Item → Yield layout)
    {items : List Item}
    {found : Part} :
    found ∈ part (items.map yield).sum ↔ ∃ item ∈ items, found ∈ part (yield item) := by
  induction items with
  | nil => simp
  | cons item rest inductionHypothesis => simp [inductionHypothesis]

/-- The offered blocks of a yield. -/
def offersOf : Yield layout →+ Multiset (Block layout.bytes) :=
  (AddMonoidHom.snd _ _).comp (AddMonoidHom.snd _ _)

theorem mem_startYield
    {start : StartState layout.bytes}
    {stored : Block layout.bytes} :
    stored ∈ (setup.startYield start).2.2 ↔
      ∃ candidate, setup.model.attemptStart setup.policy start = .ok candidate ∧
        candidate.judgement.keeps = true ∧
          setup.canonical candidate.block = .ok stored := by
  unfold startYield
  split
  · rename_i candidate attempted
    rw [(setup.judgementYield_spec _ _ _).2.2]
    simp [attempted]
  · rename_i breach attempted
    simp [attempted]

theorem mem_ruleYield
    {origin stored : Block layout.bytes}
    {rule : Rule layout.bytes} :
    stored ∈ (setup.ruleYield origin rule).2.2 ↔
      ∃ candidate,
        setup.model.attemptRule setup.policy origin rule = .ok (.candidate candidate) ∧
          candidate.judgement.keeps = true ∧
            setup.canonical candidate.block = .ok stored := by
  unfold ruleYield
  split
  · rename_i attempted
    simp [attempted]
  · rename_i fault attempted
    simp [attempted, Yield.ofRecord]
  · rename_i candidate attempted
    have counted :
        (if candidate.completed then Yield.firing else 0 : Yield layout).2.2 = 0 := by
      split <;> rfl
    rw [Prod.snd_add, Prod.snd_add, counted, zero_add,
      (setup.judgementYield_spec _ _ _).2.2]
    simp [attempted]
  · rename_i breach attempted
    simp [attempted]

/-- What a block offers is offered by one of the rules in it. -/
theorem mem_blockYield
    {block stored : Block layout.bytes} :
    stored ∈ (setup.blockYield block).2.2 ↔
      ∃ rule ∈ setup.model.rules, stored ∈ (setup.ruleYield block rule).2.2 := by
  have silent : ∀ stuck, (setup.deadlockYield stuck).2.2 = 0 := by
    intro stuck
    unfold deadlockYield
    split <;> rfl
  rw [blockYield, rulesYield, Prod.snd_add, Prod.snd_add, silent, add_zero]
  exact mem_yields offersOf (setup.ruleYield block)

theorem mem_startYield_faults
    {start : StartState layout.bytes}
    {record : FaultRecord} :
    record ∈ (setup.startYield start).1 ↔
      ∃ candidate, setup.model.attemptStart setup.policy start = .ok candidate ∧
        candidate.judgement.record? ("startstate " ++ start.name) = some record := by
  unfold startYield
  split
  · rename_i candidate attempted
    rw [(setup.judgementYield_spec _ _ _).1]
    simp [attempted]
  · rename_i breach attempted
    simp [attempted]

theorem mem_ruleYield_faults
    {origin : Block layout.bytes}
    {rule : Rule layout.bytes}
    {record : FaultRecord} :
    record ∈ (setup.ruleYield origin rule).1 ↔
      ∃ outcome, setup.model.attemptRule setup.policy origin rule = .ok outcome ∧
        outcome.record? ("rule " ++ rule.name) = some record := by
  unfold ruleYield
  split
  · rename_i attempted
    simp [attempted, RuleOutcome.record?]
  · rename_i fault attempted
    simp [attempted, RuleOutcome.record?, Yield.ofRecord]
  · rename_i candidate attempted
    have counted :
        (if candidate.completed then Yield.firing else 0 : Yield layout).1 = 0 := by
      split <;> rfl
    rw [Prod.fst_add, counted, zero_add, (setup.judgementYield_spec _ _ _).1]
    simp [attempted, RuleOutcome.record?]
  · rename_i breach attempted
    simp [attempted]

/-- A fault is raised by a rule in a block, or the block is a deadlock. -/
def Raises
    (setup : Setup layout)
    (block : Block layout.bytes)
    (record : FaultRecord) : Prop :=
  (∃ rule ∈ setup.model.rules, ∃ outcome,
    setup.model.attemptRule setup.policy block rule = .ok outcome ∧
      outcome.record? ("rule " ++ rule.name) = some record) ∨
  (setup.config.deadlockDetection = true ∧ record = deadlockRecord ∧
    ∀ rule ∈ setup.model.rules, setup.makesProgress block rule = false)

theorem mem_blockYield_faults
    {block : Block layout.bytes}
    {record : FaultRecord} :
    record ∈ (setup.blockYield block).1 ↔ setup.Raises block record := by
  rw [blockYield, rulesYield, Prod.fst_add, Multiset.mem_add]
  refine or_congr ?_ ?_
  · simp only [← mem_ruleYield_faults]
    exact mem_yields (AddMonoidHom.fst _ _) (setup.ruleYield block)
  · rw [deadlockYield, Bool.true_and]
    constructor
    · intro member
      split at member
      · rename_i found
        rw [Bool.and_eq_true] at found
        refine ⟨found.2, by simpa [Yield.ofRecord] using member, ?_⟩
        simpa using found.1
      · cases Multiset.notMem_zero record member
    · rintro ⟨wanted, rfl, stuck⟩
      rw [if_pos]
      · simp [Yield.ofRecord]
      · simpa [wanted] using stuck

theorem Offered.of_seed
    {stored : Block layout.bytes}
    (member : stored ∈ setup.seedYield.2.2) :
    setup.Offered stored := by
  obtain ⟨start, declared, left⟩ := (mem_yields offersOf setup.startYield).mp member
  obtain ⟨candidate, attempted, kept, canonical⟩ := mem_startYield.mp left
  exact .start declared attempted kept canonical

theorem Offered.of_block
    {block stored : Block layout.bytes}
    (offered : setup.Offered block)
    (member : stored ∈ (setup.blockYield block).2.2) :
    setup.Offered stored := by
  obtain ⟨rule, declared, left⟩ := mem_blockYield.mp member
  obtain ⟨candidate, attempted, kept, canonical⟩ := mem_ruleYield.mp left
  exact .rule offered declared attempted kept canonical

end Setup

/-! ## Runs discover what is offered -/

/-- What is due offers nothing else if nothing else is discovered. -/
theorem Board.due_offered
    {board : Board layout}
    (offered : ∀ block, board.visited.contains block = true → setup.Offered block)
    {stored : Block layout.bytes}
    (member : stored ∈ (board.due setup).2.2) :
    setup.Offered stored := by
  rw [Board.due, Prod.snd_add, Prod.snd_add, Multiset.mem_add] at member
  rcases member with seeded | left
  · exact .of_seed seeded
  · rw [Prod.snd_sum, Prod.snd_sum, Multiset.mem_sum] at left
    obtain ⟨block, discovered, found⟩ := left
    exact .of_block (offered block (VisitedSet.mem_blocks.mp discovered)) found

/-- A point discovers only what it owes. -/
theorem Point.Advances.discovers_owed
    {queued : Nat}
    {agenda : Agenda layout}
    {recycler : Recycler layout.bytes}
    {board advanced : Board layout}
    {point : Point layout}
    {task : Task layout}
    (advances : point.Advances setup queued agenda recycler board task advanced)
    {block : Block layout.bytes}
    (discovered : advanced.visited.contains block = true) :
    board.visited.contains block = true ∨ block ∈ (point.owed setup agenda).2.2 := by
  cases advances with
  | discover canonical fresh =>
      rw [VisitedSet.contains_insert, Bool.or_eq_true, beq_iff_eq] at discovered
      rcases discovered with rfl | earlier
      · exact .inr (Multiset.mem_add.mpr (.inl (Setup.mem_keptYield.mpr canonical)))
      · exact .inl earlier
  | _ => exact .inl discovered

namespace Crew

/-- Only what is offered is discovered. -/
theorem Step.offered
    {crew next : Crew layout}
    {history events : List (Event layout.bytes)}
    (step : Step setup crew events next)
    (balanced : crew.Balanced setup history)
    (offered : ∀ block, crew.board.visited.contains block = true → setup.Offered block) :
    ∀ block, next.board.visited.contains block = true → setup.Offered block := by
  intro block discovered
  cases step with
  | @advance board advanced waiting tasks agenda recycler point task queued moved =>
      rcases (Point.advances moved).discovers_owed discovered with earlier | owed
      · exact offered block earlier
      · -- A task owes a part of what is due, which the balance shows.
        obtain ⟨lost, balance, -⟩ := balanced
        refine Board.due_offered offered ?_
        rw [← balance, Multiset.map_cons, Multiset.sum_cons]
        have held : (⟨agenda, recycler, .active point⟩ : Task layout).owed setup =
          point.owed setup agenda := rfl
        simp only [held, Prod.snd_add, Multiset.mem_add]
        exact .inl (.inl (.inr (.inl owed)))
  | take => exact offered block discovered
  | push => exact offered block discovered
  | finish => exact offered block discovered

theorem Run.offered
    {recycler : Recycler layout.bytes}
    {last : Crew layout}
    {history : List (Event layout.bytes)}
    (run : Run setup (start setup recycler) history last) :
    ∀ block, last.board.visited.contains block = true → setup.Offered block := by
  have both := run.invariant
    (fun history crew => crew.Balanced setup history ∧
      ∀ block, crew.board.visited.contains block = true → setup.Offered block)
    (fun step before => ⟨step.balanced before.1, step.offered before.1 before.2⟩)
    ⟨start_balanced setup recycler, fun block discovered => by
      simp [start, emptyBoard] at discovered⟩
  exact both.2

/-- A crew that has come to its end with room for faults left has discovered
everything that is offered. -/
theorem Run.offered_iff
    {recycler : Recycler layout.bytes}
    {last : Crew layout}
    {history : List (Event layout.bytes)}
    (run : Run setup (start setup recycler) history last)
    (idle : last.Idle)
    (room : last.board.isExhausted setup = false)
    {block : Block layout.bytes} :
    last.board.visited.contains block = true ↔ setup.Offered block := by
  have account := run.account idle room
  have remembered : ∀ stored, stored ∈ (last.board.due setup).2.2 →
      last.board.visited.contains stored = true := by
    intro stored member
    rw [← account] at member
    exact run.remembers stored (Multiset.mem_coe.mp member)
  refine ⟨run.offered block, fun offered => ?_⟩
  induction offered with
  | start declared attempted kept canonical =>
      refine remembered _ (Board.seed_offered ?_)
      exact (Setup.mem_yields Setup.offersOf setup.startYield).mpr
        ⟨_, declared, Setup.mem_startYield.mpr ⟨_, attempted, kept, canonical⟩⟩
  | rule _ declared attempted kept canonical inductionHypothesis =>
      refine remembered _ (Board.block_offered inductionHypothesis ?_)
      exact Setup.mem_blockYield.mpr
        ⟨_, declared, Setup.mem_ruleYield.mpr ⟨_, attempted, kept, canonical⟩⟩

/-- A crew that has come to its end with room for faults left has recorded the
faults of the start states and of everything that is offered. -/
theorem Run.recorded_iff
    {recycler : Recycler layout.bytes}
    {last : Crew layout}
    {history : List (Event layout.bytes)}
    (run : Run setup (start setup recycler) history last)
    (idle : last.Idle)
    (room : last.board.isExhausted setup = false)
    {record : FaultRecord} :
    record ∈ last.board.faults ↔
      (∃ start ∈ setup.model.startStates, ∃ candidate,
        setup.model.attemptStart setup.policy start = .ok candidate ∧
          candidate.judgement.record? ("startstate " ++ start.name) = some record) ∨
      ∃ block, setup.Offered block ∧ setup.Raises block record := by
  have recorded : (last.board.faults.toList : Multiset FaultRecord) =
      (last.board.due setup).1 := congrArg Prod.fst (run.account idle room)
  rw [← Array.mem_toList_iff, ← Multiset.mem_coe, recorded, Board.due, Prod.fst_add,
    Prod.fst_sum, Multiset.mem_add, Multiset.mem_sum]
  refine or_congr ?_ ?_
  · simp only [← Setup.mem_startYield_faults]
    exact Setup.mem_yields (AddMonoidHom.fst _ _) setup.startYield
  · simp only [VisitedSet.mem_blocks, run.offered_iff idle room,
      Setup.mem_blockYield_faults]

end Crew
end StateSpace
