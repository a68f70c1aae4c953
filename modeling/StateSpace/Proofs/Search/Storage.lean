import StateSpace.Proofs.Search.Insertions

/-!
# Storage of candidates

Whoever attempts start states or rules has a recycler, from which every candidate
has its storage. A block that was made is stored with a discovered state, is kept
for reuse, or belongs to the candidate in hand. There is at most one candidate in
hand, and nothing is kept then. So a discarded candidate always finds room.
-/

namespace StateSpace

variable {layout : Layout} {setup : Setup layout}

namespace Recycler

variable {size : Nat} {recycler freed : Recycler size} {stored inHand : Nat}

/-- The number of blocks that are kept for reuse. -/
def kept (recycler : Recycler size) : Nat :=
  recycler.cached.isSome.toNat

/-- What became of the blocks that a recycler made, while some are in hand. -/
structure Accounts
    (recycler : Recycler size)
    (stored inHand : Nat) : Prop where
  fresh : recycler.fresh = stored + recycler.kept + inHand
  vacant : inHand ≠ 0 → recycler.cached = none

theorem Accounts.empty : (Recycler.empty size).Accounts 0 0 :=
  ⟨rfl, fun _ => rfl⟩

/-- A block that is handed out is in hand, whether it was kept or is new. -/
theorem Accounts.alloc (accounts : recycler.Accounts stored 0) :
    recycler.alloc.2.Accounts stored 1 := by
  have fresh := accounts.fresh
  unfold Recycler.alloc
  unfold kept at fresh
  cases found : recycler.cached with
  | none =>
      rw [found] at fresh
      exact ⟨congrArg (· + 1) fresh, fun _ => rfl⟩
  | some block =>
      rw [found] at fresh
      exact ⟨fresh, fun _ => rfl⟩

/-- A discarded block is kept. -/
theorem Accounts.free
    {block : Block size}
    (accounts : recycler.Accounts stored 1)
    (given : recycler.free block = .ok freed) :
    freed.Accounts stored 0 := by
  obtain ⟨vacant, rfl⟩ := free_eq_ok given
  have fresh := accounts.fresh
  unfold kept at fresh
  rw [vacant] at fresh
  exact ⟨fresh, fun held => absurd rfl held⟩

/-- The block of a discovered state is out of hand. -/
theorem Accounts.store (accounts : recycler.Accounts stored 1) :
    recycler.Accounts (stored + 1) 0 := by
  refine ⟨?_, fun held => absurd rfl held⟩
  have fresh := accounts.fresh
  omega

end Recycler

/-! ## Candidates in hand -/

/-- The number of candidates that a task has in hand after a reported fault. -/
def Sequel.inHand : Sequel layout → Nat
  | .weigh kept => kept.isSome.toNat
  | .leave => 0

/-- The number of candidates that a task has in hand at a point. -/
def Point.inHand : Point layout → Nat
  | .attempt => 0
  | .count _ => 1
  | .raise _ _ _ sequel => sequel.inHand
  | .print _ _ _ sequel => sequel.inHand
  | .log _ sequel => sequel.inHand
  | .weigh kept => kept.isSome.toNat
  | .offer _ => 1
  | .announce _ => 0

/-- The number of candidates that a task has in hand. -/
def Stage.inHand : Stage layout → Nat
  | .active point => point.inHand
  | .push _ _ => 0
  | .ended => 0

/-- What became of the blocks that the recycler of a task made. -/
def Task.Accounts
    (task : Task layout)
    (stored : Nat) : Prop :=
  task.recycler.Accounts stored task.stage.inHand

/-- The number of states that a change of a board has stored. -/
def Board.gain (board advanced : Board layout) : Nat :=
  advanced.visited.size - board.visited.size

theorem Sequel.inHand_stage
    (sequel : Sequel layout) :
    sequel.stage.inHand = sequel.inHand := by
  cases sequel <;> rfl

theorem Stage.inHand_afterFault
    (record? : Option FaultRecord)
    (blamed : State layout.bytes)
    (traceable : Bool) :
    (Stage.afterFault record? blamed traceable).inHand = 0 := by
  cases record? <;> rfl

/-! ## Moves -/

section

variable {agenda : Agenda layout} {recycler : Recycler layout.bytes} {task : Task layout}
  {stored : Nat}

/-- A judged candidate is discarded, or it stays in hand. -/
theorem Firing.Settles.accounts
    {firing : Firing layout}
    (settles : firing.Settles agenda recycler task)
    (accounts : recycler.Accounts stored 1) :
    task.Accounts stored := by
  unfold Task.Accounts
  cases settles with
  | rejected _ free =>
      rw [Stage.inHand_afterFault]
      exact accounts.free free
  | infeasible _ free => exact accounts.free free
  | violated _ => exact accounts
  | accepted _ => exact accounts

theorem Agenda.Attempts.accounts
    (attempts : agenda.Attempts setup recycler task)
    (accounts : recycler.Accounts stored 0) :
    task.Accounts stored := by
  cases attempts with
  | start _ settles => exact settles.accounts accounts.alloc
  | guardFault _ =>
      unfold Task.Accounts
      rw [Stage.inHand_afterFault]
      exact accounts
  | completed _ _ => exact accounts.alloc
  | faulted _ _ settles => exact settles.accounts accounts.alloc
  | _ => exact accounts

/-- A point stores what its task has in hand, keeps it for reuse, or leaves it in
hand. -/
theorem Point.Advances.accounts
    {queued : Nat}
    {board advanced : Board layout}
    {point : Point layout}
    (advances : point.Advances setup queued agenda recycler board task advanced)
    (accounts : recycler.Accounts stored point.inHand) :
    task.Accounts (stored + board.gain advanced) := by
  have unchanged : ∀ {other : Board layout}, other.visited = board.visited →
      task.Accounts stored → task.Accounts (stored + board.gain other) := by
    intro other visited same
    rwa [Board.gain, visited, Nat.sub_self, Nat.add_zero]
  cases advances with
  | attempt attempts => exact unchanged rfl (attempts.accounts accounts)
  | count settles => exact unchanged rfl (settles.accounts accounts)
  | forgo _ =>
      refine unchanged rfl ?_
      rw [Task.Accounts, Sequel.inHand_stage]
      exact accounts
  | log =>
      refine unchanged rfl ?_
      rw [Task.Accounts, Sequel.inHand_stage]
      exact accounts
  | discard _ free => exact unchanged rfl (accounts.free free)
  | known _ _ free => exact unchanged rfl (accounts.free free)
  | @discover state block _ fresh =>
      have larger :
          board.gain { board with visited := board.visited.insert block } = 1 := by
        simp [Board.gain, VisitedSet.size_insert, fresh]
      rw [larger]
      exact accounts.store
  | _ => exact unchanged rfl accounts

theorem Point.Advances.size_add_gain
    {queued : Nat}
    {board advanced : Board layout}
    {point : Point layout}
    (advances : point.Advances setup queued agenda recycler board task advanced) :
    board.visited.size + board.gain advanced = advanced.visited.size := by
  refine Nat.add_sub_cancel' ?_
  cases advances with
  | discover _ fresh => simp [VisitedSet.size_insert, fresh]
  | _ => exact Nat.le_refl _

end

end StateSpace
