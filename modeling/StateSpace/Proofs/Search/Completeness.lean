import StateSpace.Proofs.Search.Ledger
import StateSpace.Proofs.Search.Soundness

/-!
# Completeness of expansion

A crew that has come to its end with room for faults left has discovered all
reachable blocks, counted every firing and recorded every fault. How its
steps were interleaved does not matter.
-/

namespace StateSpace

variable {layout : Layout} {setup : Setup layout}

namespace Crew

/-- Every offered block is discovered. -/
def Remembers
    (history : List (Event layout.bytes))
    (crew : Crew layout) : Prop :=
  ∀ block ∈ offers history, crew.board.visited.contains block = true

end Crew

/-- A point keeps what is discovered, and what it offers is discovered then. -/
theorem Point.Advances.visited
    {queued : Nat}
    {agenda : Agenda layout}
    {recycler : Recycler layout.bytes}
    {board advanced : Board layout}
    {point : Point layout}
    {task : Task layout}
    (advances : point.Advances setup queued agenda recycler board task advanced) :
    (∀ block, board.visited.contains block = true →
        advanced.visited.contains block = true) ∧
      ∀ block ∈ offers (point.events setup), advanced.visited.contains block = true := by
  cases advances with
  | attempt _ => exact ⟨fun _ => id, fun _ offered => by cases offered⟩
  | count _ => exact ⟨fun _ => id, fun _ offered => by cases offered⟩
  | forgo _ => exact ⟨fun _ => id, fun _ offered => by cases offered⟩
  | claim _ => exact ⟨fun _ => id, fun _ offered => by cases offered⟩
  | print _ _ => exact ⟨fun _ => id, fun _ offered => by cases offered⟩
  | log => exact ⟨fun _ => id, fun _ offered => by cases offered⟩
  | leave _ => exact ⟨fun _ => id, fun _ offered => by cases offered⟩
  | discard _ _ => exact ⟨fun _ => id, fun _ offered => by cases offered⟩
  | resume _ => exact ⟨fun _ => id, fun _ offered => by cases offered⟩
  | keep _ => exact ⟨fun _ => id, fun _ offered => by cases offered⟩
  | known canonical seen _ =>
      refine ⟨fun _ => id, fun other member => ?_⟩
      rw [Point.events, canonical] at member
      rw [List.mem_singleton.mp member]
      exact seen
  | discover canonical _ =>
      refine ⟨fun other earlier => ?_, fun other member => ?_⟩
      · simp [VisitedSet.contains_insert, earlier]
      · rw [Point.events, canonical] at member
        rw [List.mem_singleton.mp member]
        simp [VisitedSet.contains_insert]
  | progress _ => exact ⟨fun _ => id, fun _ offered => by cases offered⟩
  | quiet _ => exact ⟨fun _ => id, fun _ offered => by cases offered⟩

namespace Crew

theorem Step.remembers
    {crew next : Crew layout}
    {history events : List (Event layout.bytes)}
    (step : Step setup crew events next)
    (remembers : crew.Remembers history) :
    next.Remembers (history ++ events) := by
  intro block member
  rw [offers_append, List.mem_append] at member
  cases step with
  | advance moved =>
      obtain ⟨kept, offered⟩ := (Point.advances moved).visited
      rcases member with earlier | now
      · exact kept block (remembers block earlier)
      · exact offered block now
  | take =>
      rcases member with earlier | now
      · exact remembers block earlier
      · cases now
  | push =>
      rcases member with earlier | now
      · exact remembers block earlier
      · cases now
  | @finish _ _ _ agenda =>
      rcases member with earlier | now
      · exact remembers block earlier
      · cases agenda <;> cases now

theorem Run.remembers
    {recycler : Recycler layout.bytes}
    {last : Crew layout}
    {history : List (Event layout.bytes)}
    (run : Run setup (start setup recycler) history last) :
    last.Remembers history :=
  run.invariant Remembers Step.remembers fun _ => nofun

end Crew

/-! ## The end of a run -/

theorem Board.due_records
    (sound : setup.model.NeverBreaches)
    (board : Board layout) :
    (board.due setup).1 =
      setup.startRecords + ∑ block ∈ board.visited.blocks,
        (setup.blockRecords block : Multiset FaultRecord) := by
  rw [Board.due, Prod.fst_add, Prod.fst_sum, (Setup.seedYield_spec sound).1]
  simp only [(Setup.blockYield_spec sound _).1]

theorem Board.due_firings
    (sound : setup.model.NeverBreaches)
    (board : Board layout) :
    (board.due setup).2.1 = ∑ block ∈ board.visited.blocks, setup.firings block := by
  rw [Board.due, Prod.snd_add, Prod.fst_add, Prod.snd_sum, Prod.fst_sum,
    (Setup.seedYield_spec sound).2.1, zero_add]
  simp only [(Setup.blockYield_spec sound _).2.1]

theorem Board.seed_offered
    {board : Board layout}
    {stored : Block layout.bytes}
    (member : stored ∈ setup.seedYield.2.2) :
    stored ∈ (board.due setup).2.2 := by
  rw [Board.due, Prod.snd_add, Prod.snd_add]
  exact Multiset.mem_add.mpr (.inl member)

theorem Board.block_offered
    {board : Board layout}
    {block stored : Block layout.bytes}
    (discovered : board.visited.contains block = true)
    (member : stored ∈ (setup.blockYield block).2.2) :
    stored ∈ (board.due setup).2.2 := by
  rw [Board.due, Prod.snd_add, Prod.snd_add, Prod.snd_sum, Prod.snd_sum]
  exact Multiset.mem_add.mpr (.inr (Multiset.mem_sum.mpr
    ⟨block, VisitedSet.mem_blocks.mpr discovered, member⟩))

/-- What a run has found: every reachable block and no other, every firing,
and every fault. -/
structure Board.Complete
    (setup : Setup layout)
    (board : Board layout) : Prop where
  discovered : ∀ block, board.visited.contains block = true ↔ setup.Reachable block
  firings : board.rulesFired = setup.firingTotal
  records : (board.faults.toList : Multiset FaultRecord) = setup.allRecords

theorem Board.blocks_eq
    {board : Board layout}
    (discovered : ∀ block, board.visited.contains block = true ↔ setup.Reachable block) :
    board.visited.blocks = setup.reachableBlocks := by
  ext block
  rw [VisitedSet.mem_blocks, Setup.mem_reachableBlocks, discovered]

namespace Crew

/-- The recorded faults are among those of a complete exploration, because the
discovered blocks are reachable. -/
theorem Run.records_le
    (sound : setup.model.NeverBreaches)
    (built : layout.Built)
    {recycler : Recycler layout.bytes}
    {last : Crew layout}
    {history : List (Event layout.bytes)}
    (run : Run setup (start setup recycler) history last) :
    (last.board.faults.toList : Multiset FaultRecord) ≤ setup.allRecords := by
  have grounded := run.grounded sound built (start_grounded setup recycler)
  obtain ⟨lost, balance, -⟩ := run.balanced (start_balanced setup recycler)
  calc
    (last.board.faults.toList : Multiset FaultRecord)
      ≤ (last.board.due setup).1 := by
        rw [← balance, add_assoc, add_assoc]
        exact Multiset.le_add_right _ _
    _ ≤ setup.allRecords := by
        rw [Board.due_records sound, Setup.allRecords]
        refine add_le_add_right (Finset.sum_le_sum_of_subset ?_) _
        intro block member
        exact Setup.mem_reachableBlocks.mpr
          (grounded.board block (VisitedSet.mem_blocks.mp member))

theorem Run.faults_le
    (sound : setup.model.NeverBreaches)
    (built : layout.Built)
    {recycler : Recycler layout.bytes}
    {last : Crew layout}
    {history : List (Event layout.bytes)}
    (run : Run setup (start setup recycler) history last) :
    last.board.faults.size ≤ setup.faultTotal := by
  rw [← Setup.card_allRecords, ← Array.length_toList, ← Multiset.coe_card]
  exact Multiset.card_le_card (run.records_le sound built)

/-- While no task is about to record a fault, there is room for faults left if
a complete exploration leaves some. -/
theorem Run.room
    (sound : setup.model.NeverBreaches)
    (built : layout.Built)
    (few : setup.faultTotal < setup.config.maxErrors)
    {recycler : Recycler layout.bytes}
    {last : Crew layout}
    {history : List (Event layout.bytes)}
    (run : Run setup (start setup recycler) history last)
    (recorded : (last.tasks.map Task.recording).sum = 0) :
    last.board.isExhausted setup = false := by
  have budgeted := run.budgeted (start_budgeted setup recycler)
  have bounded := run.faults_le sound built
  rw [Budgeted, recorded, add_zero] at budgeted
  simp only [Board.isExhausted, decide_eq_false_iff_not]
  omega

/-- Whatever the order of the steps was, a crew that has come to its end with
room for faults left has found everything. -/
theorem Run.complete
    (sound : setup.model.NeverBreaches)
    (built : layout.Built)
    {recycler : Recycler layout.bytes}
    {last : Crew layout}
    {history : List (Event layout.bytes)}
    (run : Run setup (start setup recycler) history last)
    (idle : last.Idle)
    (room : last.board.isExhausted setup = false) :
    last.board.Complete setup := by
  have account := run.account idle room
  have grounded := run.grounded sound built (start_grounded setup recycler)
  -- What is due has been offered, and what was offered is discovered.
  have remembered : ∀ stored, stored ∈ (last.board.due setup).2.2 →
      last.board.visited.contains stored = true := by
    intro stored member
    rw [← account] at member
    exact run.remembers stored (Multiset.mem_coe.mp member)
  have discovered : ∀ block, last.board.visited.contains block = true ↔
      setup.Reachable block := by
    intro block
    refine ⟨grounded.board block, fun reachable => ?_⟩
    induction reachable with
    | start declared begins canonical =>
        refine remembered _ (Board.seed_offered ?_)
        exact ((Setup.seedYield_spec sound).2.2 _).mpr
          ⟨_, declared, _, begins, canonical⟩
    | rule _ declared leads canonical inductionHypothesis =>
        refine remembered _ (Board.block_offered inductionHypothesis ?_)
        exact ((Setup.blockYield_spec sound _).2.2 _).mpr
          ⟨_, declared, _, leads, canonical⟩
  have blocks := Board.blocks_eq discovered
  refine ⟨discovered, ?_, ?_⟩
  · have counted := congrArg (fun yield => yield.2.1) account
    rw [Board.due_firings sound, blocks] at counted
    exact counted
  · have listed := congrArg Prod.fst account
    rw [Board.due_records sound, blocks] at listed
    exact listed

/-- If a complete exploration leaves room for faults, then a crew that has come
to its end has found everything. -/
theorem Run.complete_of_few
    (sound : setup.model.NeverBreaches)
    (built : layout.Built)
    (few : setup.faultTotal < setup.config.maxErrors)
    {recycler : Recycler layout.bytes}
    {last : Crew layout}
    {history : List (Event layout.bytes)}
    (run : Run setup (start setup recycler) history last)
    (idle : last.Idle) :
    last.board.Complete setup := by
  have recorded : (last.tasks.map Task.recording).sum = 0 := by rw [idle.tasks]; rfl
  exact run.complete sound built idle (run.room sound built few recorded)

/-- A crew whose tasks are over, be it for lack of room or because nothing is
left to do, has recorded as many faults as there are and as fit. -/
theorem Run.faults_size
    (sound : setup.model.NeverBreaches)
    (built : layout.Built)
    {recycler : Recycler layout.bytes}
    {last : Crew layout}
    {history : List (Event layout.bytes)}
    (run : Run setup (start setup recycler) history last)
    (tasks : last.tasks = 0)
    (ended : last.board.isExhausted setup = true ∨ last.waiting = 0) :
    last.board.faults.size = min setup.faultTotal setup.config.maxErrors := by
  have budgeted := run.budgeted (start_budgeted setup recycler)
  have bounded := run.faults_le sound built
  rw [Budgeted, tasks, Multiset.map_zero, Multiset.sum_zero, add_zero] at budgeted
  cases room : last.board.isExhausted setup with
  | true =>
      simp only [Board.isExhausted, decide_eq_true_eq] at room
      omega
  | false =>
      have idle : last.Idle := ⟨ended.resolve_left (by simp [room]), tasks⟩
      have complete := run.complete sound built idle room
      have size : last.board.faults.size = setup.faultTotal := by
        rw [← Setup.card_allRecords, ← complete.records, Multiset.coe_card,
          Array.length_toList]
      simp only [Board.isExhausted, decide_eq_false_iff_not] at room
      omega

end Crew
end StateSpace
