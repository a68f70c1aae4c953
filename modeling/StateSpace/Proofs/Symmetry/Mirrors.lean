import StateSpace.Proofs.Search.Offered

/-!
# Attempts in moved blocks

A group moves the blocks of a model that treats all blocks of an orbit alike: a
rule does in a block what its twin does in the moved block, and assumptions and
invariants say the same of both. Then every attempt in a block is mirrored by
one in the moved block. Faults agree in their kinds, but not in what is said of
them, which can name a rule or a value.
-/

namespace StateSpace

variable {layout : Layout}

/-! ## Symmetric models -/

/-- Two callables come to the same end: to related results, to faults of the same
kind, or both break a precondition. -/
inductive SameEnd
    {Left Right : Type}
    (related : Left → Right → Prop) : Except Stop Left → Except Stop Right → Prop
  | ok
      {left : Left}
      {right : Right}
      (same : related left right) :
      SameEnd related (.ok left) (.ok right)
  | fault
      {left right : Fault}
      (kind : left.kind? = right.kind?) :
      SameEnd related (.error (.fault left)) (.error (.fault right))
  | breach
      {left right : Breach} :
      SameEnd related (.error (.breach left)) (.error (.breach right))

/-- A rule has the same guard in a block as its twin in the moved block. If it
is enabled then the body of the twin leaves the moved block of what its own body
leaves. -/
structure Rule.Mirrors
    {size : Nat}
    (policy : OverflowPolicy)
    (move : Equiv.Perm (Block size))
    (block : Block size)
    (rule twin : Rule size) : Prop where
  guards : SameEnd (· = ·) (rule.guard policy block) (twin.guard policy (move block))
  bodies : rule.guard policy block = .ok true →
    SameEnd
      (fun _ _ => ((twin.body policy).runOn (move block)).2 =
        move ((rule.body policy).runOn block).2)
      ((rule.body policy).runOn block).1 ((twin.body policy).runOn (move block)).1

/-- A model treats all blocks of an orbit alike. Nothing is asked of its start
states, which a run attempts in the same way whether it reduces or not. -/
structure Model.IsSymmetric
    (model : Model layout)
    (policy : OverflowPolicy)
    (group : Subgroup (Equiv.Perm (Block layout.bytes))) : Prop where
  rules : ∀ move ∈ group, ∀ block, ∀ rule ∈ model.rules, ∃ twin ∈ model.rules,
    rule.Mirrors policy move block twin
  invariants : ∀ move ∈ group, ∀ block, ∀ invariant ∈ model.invariants,
    SameEnd (· = ·) (invariant.holds policy block) (invariant.holds policy (move block))
  assumptions : ∀ move ∈ group, ∀ block, ∀ assumption ∈ model.assumptions,
    SameEnd (· = ·) (assumption.holds policy block)
      (assumption.holds policy (move block))

/-- A canonicalizer answers with the chosen block of every orbit. -/
structure Chooses
    {size : Nat}
    (group : Subgroup (Equiv.Perm (Block size)))
    (canonicalize : Canonicalizer size)
    (choose : Block size → Block size) : Prop where
  answers : ∀ block, canonicalize block = .ok (choose block)
  orbit : ∀ block, ∃ move ∈ group, choose block = move block
  constant : ∀ move ∈ group, ∀ block, choose (move block) = choose block

/-- The chosen block of an orbit can be moved back. -/
theorem Chooses.orbit_back
    {size : Nat}
    {group : Subgroup (Equiv.Perm (Block size))}
    {canonicalize : Canonicalizer size}
    {choose : Block size → Block size}
    (chooses : Chooses group canonicalize choose)
    (block : Block size) :
    ∃ move ∈ group, move (choose block) = block := by
  obtain ⟨move, inside, chosen⟩ := chooses.orbit block
  refine ⟨move⁻¹, inv_mem inside, ?_⟩
  rw [chosen]
  exact move.symm_apply_apply block

/-! ## Attempts in moved blocks -/

/-- Two attempts come to related outcomes, or both break a precondition. -/
inductive SameOutcome
    {Left Right : Type}
    (related : Left → Right → Prop) : Except Breach Left → Except Breach Right → Prop
  | ok
      {left : Left}
      {right : Right}
      (same : related left right) :
      SameOutcome related (.ok left) (.ok right)
  | breach
      {left right : Breach} :
      SameOutcome related (.error left) (.error right)

/-- Two judgements are the same up to what is said of their faults. -/
inductive Judgement.Alike : Judgement → Judgement → Prop
  | rejected
      {left right : Fault}
      (kind : left.kind? = right.kind?) :
      Alike (.rejected left) (.rejected right)
  | infeasible : Alike .infeasible .infeasible
  | violated
      {left right : FaultRecord}
      (kind : left.kind = right.kind) :
      Alike (.violated left) (.violated right)
  | accepted : Alike .accepted .accepted

theorem FaultRecord.kind_ofFault?
    (fault : Fault)
    (context : String) :
    (FaultRecord.ofFault? fault context).map FaultRecord.kind = fault.kind? := by
  cases fault <;> rfl

theorem Judgement.Alike.keeps
    {left right : Judgement}
    (alike : left.Alike right) :
    left.keeps = right.keeps := by
  cases alike <;> rfl

theorem Judgement.Alike.kind
    {left right : Judgement}
    (alike : left.Alike right)
    (context other : String) :
    (left.record? context).map FaultRecord.kind =
      (right.record? other).map FaultRecord.kind := by
  cases alike with
  | rejected kind => simpa only [record?, FaultRecord.kind_ofFault?] using kind
  | infeasible => rfl
  | violated kind => exact congrArg some kind
  | accepted => rfl

/-- What is left of a candidate in a moved block. -/
structure Candidate.Mirrors
    {size : Nat}
    (move : Equiv.Perm (Block size))
    (left right : Candidate size) : Prop where
  judgement : left.judgement.Alike right.judgement
  block : left.judgement.keeps = true → right.block = move left.block

/-- The outcomes of a rule and of its twin in the moved block. -/
inductive RuleOutcome.Mirrors
    {size : Nat}
    (move : Equiv.Perm (Block size)) : RuleOutcome size → RuleOutcome size → Prop
  | disabled : Mirrors move .disabled .disabled
  | guardFault
      {left right : Fault}
      (kind : left.kind? = right.kind?) :
      Mirrors move (.guardFault left) (.guardFault right)
  | candidate
      {left right : Candidate size}
      (mirrors : left.Mirrors move right) :
      Mirrors move (.candidate left) (.candidate right)

theorem RuleOutcome.Mirrors.kind
    {size : Nat}
    {move : Equiv.Perm (Block size)}
    {left right : RuleOutcome size}
    (mirrors : left.Mirrors move right)
    (context other : String) :
    (left.record? context).map FaultRecord.kind =
      (right.record? other).map FaultRecord.kind := by
  cases mirrors with
  | disabled => rfl
  | guardFault kind => simpa only [record?, FaultRecord.kind_ofFault?] using kind
  | candidate mirrors => exact mirrors.judgement.kind context other

namespace Model

variable {model : Model layout} {policy : OverflowPolicy}

theorem judge_alike
    {block moved : Block layout.bytes}
    {invariants : List (Property layout.bytes)}
    (same : ∀ invariant ∈ invariants,
      SameEnd (· = ·) (invariant.holds policy block) (invariant.holds policy moved)) :
    SameOutcome Judgement.Alike (judge policy block invariants)
      (judge policy moved invariants) := by
  induction invariants with
  | nil => exact .ok .accepted
  | cons invariant rest inductionHypothesis =>
      have others :=
        inductionHypothesis fun other member => same other (by simp [member])
      have ends := same invariant (by simp)
      unfold judge
      generalize invariant.holds policy block = left at ends ⊢
      generalize invariant.holds policy moved = right at ends ⊢
      cases ends with
      | @ok answer _ equal =>
          subst equal
          cases answer with
          | true => exact others
          | false => exact .ok (.violated rfl)
      | @fault left right kind =>
          simp only [FaultRecord.ofFault?, kind]
          cases right.kind? with
          | none => exact .ok .infeasible
          | some sort => exact .ok (.violated rfl)
      | breach => exact .breach

theorem assume_alike
    {block moved : Block layout.bytes}
    {assumptions : List (Property layout.bytes)}
    (same : ∀ assumption ∈ assumptions,
      SameEnd (· = ·) (assumption.holds policy block) (assumption.holds policy moved)) :
    SameEnd (· = ·) (assume policy block assumptions)
      (assume policy moved assumptions) := by
  induction assumptions with
  | nil => exact .ok rfl
  | cons assumption rest inductionHypothesis =>
      have others :=
        inductionHypothesis fun other member => same other (by simp [member])
      have ends := same assumption (by simp)
      unfold assume
      generalize assumption.holds policy block = left at ends ⊢
      generalize assumption.holds policy moved = right at ends ⊢
      cases ends with
      | @ok answer _ equal =>
          subst equal
          cases answer with
          | true => exact others
          | false => exact .fault rfl
      | fault kind => exact .fault kind
      | breach => exact .breach

namespace IsSymmetric

variable
  {group : Subgroup (Equiv.Perm (Block layout.bytes))}
  (symmetric : model.IsSymmetric policy group)
  {move : Equiv.Perm (Block layout.bytes)}
  (inside : move ∈ group)
include symmetric inside

/-- What is concluded from moved blocks mirrors what is concluded from the
blocks. -/
theorem conclude
    {block : Block layout.bytes}
    {left right : Except Stop Unit × Block layout.bytes}
    (ends : SameEnd (fun _ _ => right.2 = move left.2) left.1 right.1) :
    SameOutcome (Candidate.Mirrors move) (model.conclude policy block left)
      (model.conclude policy (move block) right) := by
  obtain ⟨leftEnd, leftBlock⟩ := left
  obtain ⟨rightEnd, rightBlock⟩ := right
  cases ends with
  | fault kind => exact .ok ⟨.rejected kind, nofun⟩
  | breach => exact .breach
  | @ok done finished moved =>
      cases done
      cases finished
      simp only at moved
      subst moved
      have assumed := assume_alike (symmetric.assumptions move inside block)
      have judged := judge_alike (symmetric.invariants move inside leftBlock)
      unfold Model.conclude checkAssumptions
      generalize assume policy block model.assumptions = before at assumed ⊢
      generalize assume policy (move block) model.assumptions = after at assumed ⊢
      cases assumed with
      | fault kind => exact .ok ⟨.rejected kind, nofun⟩
      | breach => exact .breach
      | @ok done finished _ =>
          cases done
          cases finished
          simp only
          generalize judge policy leftBlock model.invariants = first at judged ⊢
          generalize judge policy (move leftBlock) model.invariants = second at judged ⊢
          cases judged with
          | ok alike => exact .ok ⟨alike, fun _ => rfl⟩
          | breach => exact .breach

/-- Every attempt of a rule in a block is mirrored by one in the moved block. -/
theorem attemptRule
    (block : Block layout.bytes)
    {rule : Rule layout.bytes}
    (declared : rule ∈ model.rules) :
    ∃ twin ∈ model.rules, SameOutcome (RuleOutcome.Mirrors move)
      (model.attemptRule policy block rule)
        (model.attemptRule policy (move block) twin) := by
  obtain ⟨twin, present, guards, bodies⟩ :=
    symmetric.rules move inside block rule declared
  refine ⟨twin, present, ?_⟩
  unfold Model.attemptRule Model.attemptRuleOn
  generalize rule.guard policy block = before at guards bodies ⊢
  generalize twin.guard policy (move block) = after at guards ⊢
  cases guards with
  | fault kind => exact .ok (.guardFault kind)
  | breach => exact .breach
  | @ok enabled _ equal =>
      subst equal
      cases enabled with
      | false => exact .ok .disabled
      | true =>
          have concluded : SameOutcome (Candidate.Mirrors move)
              (model.conclude policy block _) (model.conclude policy (move block) _) :=
            symmetric.conclude inside (bodies rfl)
          simp only [bind, Except.bind]
          generalize model.conclude policy block _ = first at concluded ⊢
          generalize model.conclude policy (move block) _ = second at concluded ⊢
          cases concluded with
          | ok mirrors => exact .ok (.candidate mirrors)
          | breach => exact .breach

/-- What a rule leaves in a block is left in the moved block by its twin. -/
theorem leaves
    {block : Block layout.bytes}
    {rule : Rule layout.bytes}
    (declared : rule ∈ model.rules)
    {candidate : Candidate layout.bytes}
    (attempted : model.attemptRule policy block rule = .ok (.candidate candidate))
    (kept : candidate.judgement.keeps = true) :
    ∃ twin ∈ model.rules, ∃ other,
      model.attemptRule policy (move block) twin = .ok (.candidate other) ∧
        other.judgement.keeps = true ∧ other.block = move candidate.block := by
  obtain ⟨twin, present, same⟩ := symmetric.attemptRule inside block declared
  rw [attempted] at same
  generalize answered : model.attemptRule policy (move block) twin = answer at same
  cases same with
  | ok mirrors =>
      cases mirrors with
      | @candidate _ other mirrors =>
          exact ⟨twin, present, other, answered, mirrors.judgement.keeps.symm.trans kept,
            mirrors.block kept⟩

end IsSymmetric
end Model

end StateSpace
