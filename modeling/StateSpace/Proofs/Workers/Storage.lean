import StateSpace.Proofs.Search.Discarded
import StateSpace.Proofs.Search.Seeds
import StateSpace.Proofs.Search.Storage
import StateSpace.Proofs.Workers.Unfailing

/-!
# No storage is lost

Seeding and every worker have recyclers of their own. Whenever one of them is about
to go on with a start state, with a state or with a rule, the blocks that its recycler
made are stored with the states that it discovered, up to one, which is kept for
reuse. A worker that has failed may have lost a block, but no worker fails unless
a callable breaks a precondition.
-/

namespace StateSpace

section

variable {layout : Layout} {setup : Setup layout}

/-! ## Seeding -/

/-- Seeding is about to look at some start states: at all of them, or at those behind
one that it has recorded. -/
inductive Search.SeedHead (setup : Setup layout) :
    Search layout → List (StartState layout.bytes) → Prop
  | first
      {start : Search layout}
      (started : Search.start setup = .ok start) :
      SeedHead setup start setup.model.startStates
  | next
      {search recorded : Search layout}
      {start : StartState layout.bytes}
      {rest : List (StartState layout.bytes)}
      {candidate : Candidate layout.bytes}
      (head : SeedHead setup search (start :: rest))
      (room : search.isExhausted setup = false)
      (attempted : setup.model.attemptStartOn setup.policy
        search.recycler.allocZeroed.1 start = .ok candidate)
      (ok : Search.record setup (search.visited.size % search.queue.shardCount)
        ("startstate " ++ start.name) (.ofBlock candidate.block)
        (.ofBlock candidate.block) false candidate.judgement
        { search with recycler := search.recycler.allocZeroed.2 } = .ok recorded) :
      SeedHead setup recorded rest

/-- Seeding goes on from each of its heads. -/
theorem Search.SeedHead.goes_on
    {search : Search layout}
    {rest : List (StartState layout.bytes)}
    (head : SeedHead setup search rest) :
    ∃ start, Search.start setup = .ok start ∧
      start.seed setup setup.model.startStates = search.seed setup rest := by
  induction head with
  | @first start started => exact ⟨start, started, rfl⟩
  | next _ room attempted ok inductionHypothesis =>
      obtain ⟨start, started, same⟩ := inductionHypothesis
      refine ⟨start, started, same.trans ?_⟩
      rw [Search.seed, if_neg (by simp [room])]
      simp only [attempted, liftBreach_ok, bind, Except.bind, ok]

theorem Lone.Seeding.accounts
    {first last : Lone layout}
    {history : List (Event layout.bytes)}
    (seeding : Seeding setup first history last)
    (accounts : first.task.Accounts first.board.visited.size) :
    last.task.Accounts last.board.visited.size := by
  refine seeding.invariant
    (fun _ lone => lone.task.Accounts lone.board.visited.size)
    (fun {history lone events next} step accounts => ?_) accounts
  obtain ⟨shard, step⟩ := step
  cases step with
  | advance moved =>
      have after := (Point.advances moved).accounts accounts
      rwa [(Point.advances moved).size_add_gain] at after
  | push _ => exact accounts

theorem Search.SeedHead.accounts
    {search : Search layout}
    {rest : List (StartState layout.bytes)}
    (head : SeedHead setup search rest) :
    search.recycler.Accounts search.visited.size 0 := by
  induction head with
  | first started =>
      obtain ⟨queue, -, -, rfl⟩ := Search.start_eq_ok started
      rw [VisitedSet.size_empty]
      exact .empty
  | @next search recorded start rest candidate _ room attempted ok inductionHypothesis =>
      obtain ⟨history, walked⟩ := (recordStart_walks attempted ok room rest).seeding
      have settled : (recorded.proceed setup).inHand = 0 := by
        unfold proceed
        split <;> rfl
      have after : recorded.recycler.Accounts recorded.visited.size
          (recorded.proceed setup).inHand := walked.accounts inductionHypothesis
      rwa [settled] at after

/-! ## Workers -/

/-- The recycler that a worker has its candidates from. -/
def Worker.storage (worker : Worker layout) : Recycler layout.bytes :=
  match worker.place with
  | .expanding task => task.recycler
  | _ => worker.recycler

/-- The number of candidates that a worker has in hand. -/
def Worker.inHand (worker : Worker layout) : Nat :=
  match worker.place with
  | .expanding task => task.stage.inHand
  | _ => 0

/-- A worker is about to look for a state, or for the next rule of its state. -/
def Worker.IsHead (worker : Worker layout) : Prop :=
  worker.place = .arriving ∨
    ∃ agenda recycler, worker.place = .expanding ⟨agenda, recycler, .active .attempt⟩

/-- What became of the blocks that a worker made, unless it has failed. -/
def Worker.Accounts
    (worker : Worker layout)
    (stored : Nat) : Prop :=
  worker.HasFailed ∨ worker.storage.Accounts stored worker.inHand

theorem Worker.IsHead.inHand
    {worker : Worker layout}
    (head : worker.IsHead) :
    worker.inHand = 0 := by
  unfold Worker.inHand
  rcases head with arriving | ⟨agenda, recycler, attempting⟩
  · rw [arriving]
  · rw [attempting]
    rfl

/-- A place without a task does not change what a worker has. -/
theorem Worker.accounts_ite
    {recycler : Recycler layout.bytes}
    {preferred stored : Nat}
    {condition : Prop}
    [Decidable condition]
    {left right : Place layout}
    (first : (⟨recycler, preferred, left⟩ : Worker layout).Accounts stored)
    (second : (⟨recycler, preferred, right⟩ : Worker layout).Accounts stored) :
    (⟨recycler, preferred, if condition then left else right⟩ : Worker layout).Accounts
      stored := by
  split <;> assumption

theorem Move.accounts
    {number stored : Nat}
    {shared changed : Shared layout}
    {worker next : Worker layout}
    {events : List (Event layout.bytes)}
    (move : Move setup number shared worker events changed next)
    (accounts : worker.Accounts stored) :
    next.Accounts (stored + shared.board.gain changed.board) := by
  rcases accounts with failed | accounts
  · exact .inl (move.failed failed)
  · have unchanged : stored + shared.board.gain shared.board = stored := by
      rw [Board.gain, Nat.sub_self, Nat.add_zero]
    cases move with
    | advance _ moved => exact .inr ((Point.advances moved).accounts accounts)
    | fail _ _ => exact .inl trivial
    | unwind _ _ => exact .inl (.inr rfl)
    | finish =>
        rw [unchanged]
        exact Worker.accounts_ite (.inr accounts) (.inr accounts)
    | peek =>
        rw [unchanged]
        exact Worker.accounts_ite (.inr accounts) (.inr accounts)
    | compare =>
        rw [unchanged]
        exact Worker.accounts_ite (.inr accounts) (.inr accounts)
    | abort => exact .inr (unchanged.symm ▸ accounts)
    | alarm => exact .inl (.inl rfl)
    | _ => exact .inr (unchanged.symm ▸ accounts)

namespace Pool

variable {size : Nat}

/-- A move of a worker, with the number of the worker for every state that it
stores. -/
inductive Deposits (setup : Setup layout) :
    Pool layout size → List (Fin size) → Pool layout size → Prop
  | move
      {pool : Pool layout size}
      (number : Fin size)
      {events : List (Event layout.bytes)}
      {shared : Shared layout}
      {worker : Worker layout}
      (moved : Move setup number pool.shared (pool.workers number) events
        shared worker) :
      Deposits setup pool (List.replicate (pool.shared.board.gain shared.board) number)
        ⟨shared, Function.update pool.workers number worker⟩

/-- Any number of moves in any order, with the workers that stored states in it. -/
abbrev Depositing (setup : Setup layout) :
    Pool layout size → List (Fin size) → Pool layout size → Prop :=
  Execution (Deposits setup)

theorem Run.depositing
    {first last : Pool layout size}
    {history : List (Event layout.bytes)}
    (run : Run setup first history last) :
    ∃ depositors, Depositing setup first depositors last := by
  induction run with
  | refl => exact ⟨[], .refl⟩
  | step _ step inductionHypothesis =>
      obtain ⟨depositors, earlier⟩ := inductionHypothesis
      cases step with
      | move number moved => exact ⟨_, earlier.step (.move number moved)⟩

theorem Depositing.run
    {first last : Pool layout size}
    {depositors : List (Fin size)}
    (depositing : Depositing setup first depositors last) :
    ∃ history, Run setup first history last := by
  induction depositing with
  | refl => exact ⟨[], .refl⟩
  | step _ step inductionHypothesis =>
      obtain ⟨history, earlier⟩ := inductionHypothesis
      cases step with
      | move number moved => exact ⟨_, earlier.step (.move number moved)⟩

/-- What a worker has in hand, keeps and stored is what it made, whatever the other
workers do. -/
theorem Depositing.accounts
    {first last : Pool layout size}
    {depositors : List (Fin size)}
    (depositing : Depositing setup first depositors last)
    (initially : ∀ number, (first.workers number).Accounts 0) :
    ∀ number, (last.workers number).Accounts (depositors.count number) := by
  refine depositing.invariant
    (fun depositors pool => ∀ number,
      (pool.workers number).Accounts (depositors.count number))
    (fun {earlier pool events next} step accounts other => ?_) initially
  cases step with
  | @move number _ shared worker moved =>
      rw [List.count_append]
      by_cases same : other = number
      · subst same
        simp only [Function.update_self, List.count_replicate_self]
        exact moved.accounts (accounts other)
      · have none :
            (List.replicate (pool.shared.board.gain shared.board) number).count
              other = 0 :=
          List.count_eq_zero_of_not_mem fun member =>
            same (List.eq_of_mem_replicate member)
        simp only [Function.update_of_ne same, none]
        exact accounts other

theorem newcomer_accounts (number : Nat) : (newcomer layout number).Accounts 0 :=
  Worker.accounts_ite (.inr .empty) (.inr .empty)

end Pool

/-! ## Every recycler -/

theorem Block.toBytes_zero (size : Nat) :
    (Block.zero size).toBytes = List.replicate size 0 := by
  refine List.eq_replicate_iff.mpr ⟨by simp [toBytes], fun byte member => ?_⟩
  obtain ⟨index, -, rfl⟩ := List.mem_map.mp member
  simp [Block.byte, zero]

/-- A kept block has the size of a state, and whatever it holds, a new candidate
holds zeros, or what its origin holds. -/
theorem Recycler.overwrites
    {size : Nat}
    (recycler : Recycler size)
    (small : size < Word.allocationLimit) :
    (∀ block ∈ recycler.cached, block.toBytes.length = size) ∧
      recycler.allocZeroed.1 = .ok (.zero size) ∧
      (Block.zero size).toBytes = List.replicate size 0 ∧
      ∀ origin : State size,
        (recycler.duplicate origin).1 = .ok (origin.successor origin.block) := by
  obtain ⟨zeroed, copied⟩ := recycler.alloc_overwrites small
  refine ⟨fun block _ => by simp [Block.toBytes], zeroed, Block.toBytes_zero size,
    fun origin => ?_⟩
  simp only [duplicate, copied]
  rfl

namespace Setup

/-- Whenever seeding or a worker is about to go on, what its recycler made is stored
with the states that it discovered or kept for reuse, and there is at most one
candidate in hand besides, while nothing is kept. So no block is given back while
another one is kept, and no worker fails. Kept blocks have the size of a state, and
their old content is never seen. -/
theorem storage_accounted
    (sound : setup.model.NeverBreaches)
    (built : layout.Built) :
    (∀ search rest, Search.SeedHead setup search rest →
      search.recycler.fresh = search.visited.size + search.recycler.kept ∧
        ∃ seeded, search.seed setup rest = .ok seeded) ∧
    (∀ start history lone, Search.start setup = .ok start →
      Lone.Seeding setup (start.before setup.model.startStates) history lone →
        lone.task.Accounts lone.board.visited.size) ∧
    (∀ seeded depositors last, Pool.Seeded setup seeded →
      Pool.Depositing setup (Pool.start setup seeded) depositors last →
        ∀ number, ¬(last.workers number).HasFailed ∧
          ((last.workers number).IsHead → (last.workers number).storage.fresh =
            depositors.count number + (last.workers number).storage.kept) ∧
          (last.workers number).storage.Accounts (depositors.count number)
            (last.workers number).inHand ∧
          ∀ agenda recycler point,
            (last.workers number).place = .expanding ⟨agenda, recycler, .active point⟩ →
              ∀ queued, ∃ task advanced,
                point.advance setup queued agenda recycler last.shared.board =
                  .ok (task, advanced)) ∧
    ∀ recycler : Recycler layout.bytes,
      (∀ block ∈ recycler.cached, block.toBytes.length = layout.bytes) ∧
        recycler.allocZeroed.1 = .ok (.zero layout.bytes) ∧
        (Block.zero layout.bytes).toBytes = List.replicate layout.bytes 0 ∧
        ∀ origin : State layout.bytes,
          (recycler.duplicate origin).1 = .ok (origin.successor origin.block) := by
  refine ⟨?_, ?_, ?_, fun recycler => recycler.overwrites built.placed.bytes_lt⟩
  · intro search rest head
    obtain ⟨start, -, same⟩ := head.goes_on
    refine ⟨head.accounts.fresh, ?_⟩
    rw [← same]
    exact seed_ok sound built start
  · intro start history lone started walked
    exact walked.accounts (Search.SeedHead.first started).accounts
  · intro seeded depositors last seeding depositing number
    obtain ⟨history, run⟩ := depositing.run
    have grounded := run.grounded sound built (seeding.start_grounded sound built)
    have unfailed := grounded.unfailed number
    have accounts : (last.workers number).storage.Accounts _ _ :=
      (depositing.accounts (fun number => Pool.newcomer_accounts number)
        number).resolve_left unfailed
    refine ⟨unfailed, fun head => ?_, accounts,
      fun agenda recycler point expanding queued => ?_⟩
    · have fresh := accounts.fresh
      rwa [head.inHand] at fresh
    · have member : ⟨agenda, recycler, .active point⟩ ∈ (last.workers number).tasks := by
        rw [Worker.tasks, expanding]
        exact Multiset.mem_singleton_self _
      have task := grounded.tasks number member
      obtain ⟨next, advanced, moved, -⟩ :=
        Point.Grounded.advance sound built queued task.stage task.agenda
          grounded.crew.board
      exact ⟨next, advanced, moved⟩

end Setup

end

namespace Lamp

/-- Shake the lamp, which comes loose. -/
def shake : Rule layout.bytes where
  name := "shake"
  guard := fun _ _ => .ok true
  body := fun _ => do
    set (⟨1⟩ : Block layout.bytes)
    Update.fault (.model "loose")

/-- A dark lamp that is shaken and then lit. -/
def shaken : Setup layout where
  model :=
    { model with
      startStates := [⟨"dark", fun _ => pure ()⟩]
      rules := shake :: model.rules
      startStates_ne_nil := dark_ne_nil }
  config := { maxErrors := 2, counterexampleTrace := .off }

theorem shaken_neverBreaches : shaken.model.NeverBreaches where
  starts := by
    intro start member policy block breach
    cases List.mem_singleton.mp member
    nofun
  guards := by
    intro rule member
    rcases List.mem_cons.mp member with rfl | member
    · nofun
    · exact model_neverBreaches.guards rule member
  bodies := by
    intro rule member
    rcases List.mem_cons.mp member with rfl | member
    · intro policy block breach
      nofun
    · exact model_neverBreaches.bodies rule member
  invariants := nofun
  assumptions := nofun
  canonicalizer := nofun

theorem shaken_seeded : Pool.Seeded shaken darkSeeded :=
  .of_zero (by decide) (by decide) rfl rfl rfl rfl rfl

/-- The only worker keeps the block of the candidate that came loose, and hands it out
again for the next rule. -/
theorem storage_accounted_shaken :
    ∃ depositors more, ∃ middle last : Pool layout shaken.workers, ∃ number,
      Pool.Depositing shaken (Pool.start shaken darkSeeded) depositors middle ∧
      (middle.workers number).IsHead ∧
      (middle.workers number).storage.cached = some ⟨1⟩ ∧
      (middle.workers number).storage.fresh = depositors.count number + 1 ∧
      Pool.Depositing shaken middle more last ∧
      (last.workers number).inHand = 1 ∧
      (last.workers number).storage.reused = 1 ∧
      (last.workers number).storage.cached = none ∧
      (last.workers number).storage.fresh = (depositors ++ more).count number + 1 := by
  let only : Fin shaken.workers := ⟨0, by decide⟩
  have began : Pool.Depositing shaken (Pool.start shaken darkSeeded) [] _ := .refl
  have checked := began.step (.move only (.check rfl))
  have scanned := checked.step (.move only (.scan rfl))
  have taken := scanned.step (.move only (.take rfl))
  have attempted := taken.step (.move only (.advance 0 rfl))
  have claimed := attempted.step (.move only (.advance 0 rfl))
  have printed := claimed.step (.move only (.advance 0 rfl))
  have logged := printed.step (.move only (.advance 0 rfl))
  have weighed := logged.step (.move only (.advance 0 rfl))
  have reused : Pool.Depositing shaken _ _ _ :=
    weighed.resume.step (.move only (.advance 0 rfl))
  obtain ⟨-, -, workers, -⟩ := Setup.storage_accounted shaken_neverBreaches layout_built
  obtain ⟨-, waits, -, -⟩ := workers _ _ _ shaken_seeded weighed only
  obtain ⟨-, -, accounts, -⟩ := workers _ _ _ shaken_seeded (weighed.trans reused) only
  exact ⟨_, _, _, _, only, weighed, .inr ⟨_, _, rfl⟩, rfl, waits (.inr ⟨_, _, rfl⟩),
    reused, rfl, rfl, accounts.vacant Nat.one_ne_zero, accounts.fresh⟩

end Lamp
end StateSpace
