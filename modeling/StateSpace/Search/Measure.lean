import StateSpace.Search.Expansion

/-!
# The measure of a search

The work that a search has left is bounded by the blocks that it has not discovered
together with the states that wait in its queue. Recording an attempt leaves this number
as it is, because a state enters the queue exactly when its block is discovered, and
taking a state from the queue decreases it. So a search ends.
-/

namespace StateSpace

/-- The number of blocks of a size. -/
def Block.number (size : Nat) : Nat :=
  Nat.pow 2 (8 * size)

/-- No visited set holds more blocks than there are. -/
theorem VisitedSet.size_le
    {size : Nat}
    (visited : VisitedSet (Block size)) :
    visited.size ≤ Block.number size := by
  let numbers := visited.items.toList.map fun block => block.bits.toNat
  have distinct : numbers.Nodup := by
    refine List.Pairwise.map _ (fun left right apart same => ?_)
      Std.HashSet.distinct_toList
    have equal : left = right := by
      cases left; cases right
      exact congrArg Block.mk (BitVec.eq_of_toNat_eq same)
    simp [equal] at apart
  have bounded : numbers ⊆ List.range (Block.number size) := by
    intro number member
    obtain ⟨block, -, rfl⟩ := List.mem_map.mp member
    exact List.mem_range.mpr block.bits.isLt
  have := distinct.length_le_of_subset bounded
  simpa [numbers, VisitedSet.size, Std.HashSet.length_toList] using this

namespace Search

variable {layout : Layout}

/-- The blocks that are not discovered and the states that wait, counted together. -/
def workLeft (search : Search layout) : Nat :=
  (Block.number layout.bytes - search.visited.size) + search.queue.length

/-- Two searches with the same discovered blocks and waiting states have the same work
left. -/
theorem workLeft_congr
    {left right : Search layout}
    (visited : left.visited = right.visited)
    (queue : left.queue = right.queue) :
    left.workLeft = right.workLeft := by
  simp [workLeft, visited, queue]

theorem workLeft_noteProgress
    (setup : Setup layout)
    (search : Search layout) :
    (search.noteProgress setup).workLeft = search.workLeft := by
  unfold noteProgress
  split <;> rfl

theorem workLeft_addFault
    {setup : Setup layout}
    {record : FaultRecord}
    {state : State layout.bytes}
    {traceable : Bool}
    {search reported : Search layout}
    (ok : search.addFault setup record state traceable = .ok reported) :
    reported.workLeft = search.workLeft := by
  unfold addFault at ok
  split at ok
  · cases ok
    rfl
  · obtain ⟨trace, -, ok⟩ := bind_eq_ok.mp ok
    obtain ⟨dump, -, ok⟩ := bind_eq_ok.mp ok
    cases ok
    rfl

theorem workLeft_addRaised
    {setup : Setup layout}
    {fault : Fault}
    {context : String}
    {state : State layout.bytes}
    {traceable : Bool}
    {search reported : Search layout}
    (ok : search.addRaised setup fault context state traceable = .ok reported) :
    reported.workLeft = search.workLeft := by
  unfold addRaised at ok
  split at ok
  · exact workLeft_addFault ok
  · cases ok
    rfl

theorem workLeft_discard
    {block : Block layout.bytes}
    {search discarded : Search layout}
    (ok : search.discard block = .ok discarded) :
    discarded.workLeft = search.workLeft := by
  obtain ⟨recycler, -, ok⟩ := bind_eq_ok.mp ok
  cases ok
  rfl

/-- A state that is kept leaves the undiscovered blocks and joins the waiting states. -/
theorem workLeft_keep
    {setup : Setup layout}
    {shard : Nat}
    {state : State layout.bytes}
    {search kept : Search layout}
    (ok : search.keep setup shard state = .ok kept) :
    kept.workLeft = search.workLeft := by
  obtain ⟨block, -, ok⟩ := bind_eq_ok.mp ok
  split at ok
  · exact workLeft_discard ok
  · rename_i unseen
    obtain ⟨⟨waiting, queue⟩, pushed, ok⟩ := bind_eq_ok.mp ok
    cases ok
    have longer := WorkQueue.length_push (liftBreach_eq_ok.mp pushed)
    have larger : (search.visited.insert block).size = search.visited.size + 1 := by
      simp [VisitedSet.size_insert, unseen]
    have bound := VisitedSet.size_le (search.visited.insert block)
    rw [workLeft_noteProgress]
    simp only [workLeft]
    omega

theorem workLeft_record
    {setup : Setup layout}
    {shard : Nat}
    {context : String}
    {blamed state : State layout.bytes}
    {blamedTraceable : Bool}
    {judgement : Judgement}
    {search recorded : Search layout}
    (ok : search.record setup shard context blamed state blamedTraceable judgement
      = .ok recorded) :
    recorded.workLeft = search.workLeft := by
  cases judgement with
  | rejected fault =>
      obtain ⟨reported, raised, ok⟩ := bind_eq_ok.mp ok
      exact (workLeft_discard ok).trans (workLeft_addRaised raised)
  | infeasible => exact workLeft_discard ok
  | violated violation =>
      obtain ⟨reported, added, ok⟩ := bind_eq_ok.mp ok
      split at ok
      · exact (workLeft_discard ok).trans (workLeft_addFault added)
      · exact (workLeft_keep ok).trans (workLeft_addFault added)
  | accepted => exact workLeft_keep ok

theorem workLeft_recordRule
    {setup : Setup layout}
    {shard : Nat}
    {origin : State layout.bytes}
    {rule : Rule layout.bytes}
    {outcome : RuleOutcome layout.bytes}
    {search recorded : Search layout}
    (ok : search.recordRule setup shard origin rule outcome = .ok recorded) :
    recorded.workLeft = search.workLeft := by
  cases outcome with
  | disabled =>
      cases ok
      rfl
  | guardFault fault => exact workLeft_addRaised ok
  | candidate candidate => exact (workLeft_record ok).trans (workLeft_congr rfl rfl)

theorem workLeft_addDeadlock
    {setup : Setup layout}
    {origin : State layout.bytes}
    {search reported : Search layout}
    (ok : search.addDeadlock setup origin = .ok reported) :
    reported.workLeft = search.workLeft := by
  unfold addDeadlock at ok
  split at ok
  · exact workLeft_addFault ok
  · cases ok
    rfl

theorem workLeft_fireRules
    {setup : Setup layout}
    {shard : Nat}
    {origin : State layout.bytes}
    {stuck : Bool}
    {search expanded : Search layout}
    {rules : List (Rule layout.bytes)}
    (ok : search.fireRules setup shard origin stuck rules = .ok expanded) :
    expanded.workLeft = search.workLeft := by
  induction rules generalizing stuck search with
  | nil =>
      unfold fireRules at ok
      split at ok
      · exact workLeft_addDeadlock ok
      · cases ok
        rfl
  | cons rule rest inductionHypothesis =>
      obtain ⟨outcome, -, ok⟩ := bind_eq_ok.mp ok
      obtain ⟨recorded, fired, ok⟩ := bind_eq_ok.mp ok
      split at ok
      · cases ok
        exact workLeft_recordRule fired
      · exact (inductionHypothesis ok).trans (workLeft_recordRule fired)

/-- Expansion leaves the work that was left before it. -/
theorem workLeft_expand
    {setup : Setup layout}
    {shard : Nat}
    {origin : State layout.bytes}
    {search expanded : Search layout}
    (ok : search.expand setup shard origin = .ok expanded) :
    expanded.workLeft = search.workLeft :=
  workLeft_fireRules ok

end Search
end StateSpace
