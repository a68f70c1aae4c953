import StateSpace.Proofs.Layout.Built
import StateSpace.Proofs.Search.Attempts

/-!
# Attempts on blocks that are handed out

The storage of a candidate may have been used before. All of it is overwritten when
it is handed out, so what a start state is run on is a zeroed block, and what a rule
is run on is a copy of the block that it is fired in. There is storage for the states
of every layout that declarations make up.
-/

namespace StateSpace

namespace Recycler

variable {size : Nat}

@[simp] theorem cached_allocZeroed
    (recycler : Recycler size) :
    recycler.allocZeroed.2.cached = none := by
  unfold allocZeroed alloc
  split
  · rfl
  · assumption

@[simp] theorem cached_allocCopy
    {originSize : Nat}
    (recycler : Recycler size)
    (origin : Block originSize) :
    (recycler.allocCopy origin).2.cached = none := by
  unfold allocCopy alloc
  split
  · rfl
  · assumption

/-- A block that is handed out zeroed is clear, whatever it held before. -/
theorem allocZeroed_eq_ok
    {recycler : Recycler size}
    {zeroed : Block size}
    (handed : recycler.allocZeroed.1 = .ok zeroed) :
    zeroed = .zero size := by
  unfold allocZeroed at handed
  cases allocated : recycler.alloc.1 with
  | error breach =>
      rw [allocated] at handed
      cases handed
  | ok block =>
      rw [allocated] at handed
      cases handed
      rfl

/-- A block that is handed out as a copy equals what was copied, whatever it held
before. -/
theorem allocCopy_eq_ok
    {recycler : Recycler size}
    {origin copied : Block size}
    (handed : (recycler.allocCopy origin).1 = .ok copied) :
    copied = origin := by
  obtain ⟨block, -, copies⟩ := bind_eq_ok.mp handed
  simp only [dif_pos] at copies
  cases copies
  rfl

/-- Whatever block is handed out again, all of it is overwritten. -/
theorem alloc_overwrites
    (recycler : Recycler size)
    (small : size < Word.allocationLimit) :
    recycler.allocZeroed.1 = .ok (.zero size) ∧
      ∀ origin : Block size, (recycler.allocCopy origin).1 = .ok origin := by
  obtain ⟨block, allocated⟩ : ∃ block, recycler.alloc.1 = .ok block := by
    unfold alloc
    split
    · exact ⟨_, rfl⟩
    · exact ⟨_, if_pos small⟩
  refine ⟨?_, fun origin => ?_⟩
  · rw [allocZeroed, allocated]
    rfl
  · simp only [allocCopy, allocated]
    rfl

end Recycler

variable {layout : Layout}

/-- There is storage for the states of a layout. -/
theorem Layout.Placed.bytes_lt
    (placed : layout.Placed) :
    layout.bytes < Word.allocationLimit := by
  have bounded := placed.bounded
  unfold Word.limit at bounded
  unfold Layout.bytes Word.allocationLimit
  omega

namespace Model

variable {model : Model layout} {policy : OverflowPolicy}

/-- A start state is run on a zeroed block. -/
theorem attemptStartOn_eq_ok
    {recycler : Recycler layout.bytes}
    {start : StartState layout.bytes}
    {candidate : Candidate layout.bytes}
    (attempted : model.attemptStartOn policy recycler.allocZeroed.1 start =
      .ok candidate) :
    model.attemptStart policy start = .ok candidate := by
  obtain ⟨zeroed, handed, concluded⟩ := bind_eq_ok.mp attempted
  cases Recycler.allocZeroed_eq_ok handed
  exact concluded

/-- A rule is run on a copy of the block that it is fired in. -/
theorem attemptRuleOn_eq_ok
    {recycler : Recycler layout.bytes}
    {origin : Block layout.bytes}
    {rule : Rule layout.bytes}
    {outcome : RuleOutcome layout.bytes}
    (attempted : model.attemptRuleOn policy origin (recycler.allocCopy origin).1 rule =
      .ok outcome) :
    model.attemptRule policy origin rule = .ok outcome := by
  unfold attemptRule
  unfold attemptRuleOn at attempted ⊢
  split at attempted
  · exact attempted
  · exact attempted
  · exact attempted
  · obtain ⟨copied, handed, concluded⟩ := bind_eq_ok.mp attempted
    cases Recycler.allocCopy_eq_ok handed
    exact concluded

theorem attemptStartOn_alloc
    (small : layout.bytes < Word.allocationLimit)
    (recycler : Recycler layout.bytes)
    (start : StartState layout.bytes) :
    model.attemptStartOn policy recycler.allocZeroed.1 start =
      model.attemptStart policy start := by
  rw [(recycler.alloc_overwrites small).1]
  rfl

theorem attemptRuleOn_alloc
    (small : layout.bytes < Word.allocationLimit)
    (recycler : Recycler layout.bytes)
    (origin : Block layout.bytes)
    (rule : Rule layout.bytes) :
    model.attemptRuleOn policy origin (recycler.allocCopy origin).1 rule =
      model.attemptRule policy origin rule := by
  rw [(recycler.alloc_overwrites small).2 origin]
  rfl

end Model
end StateSpace
