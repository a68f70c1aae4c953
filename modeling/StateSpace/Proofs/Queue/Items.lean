import Mathlib
import StateSpace.Queue

/-!
# The items of a work queue

Over all shards, a queue holds its items in no particular order. A push adds
an item to them, a pop takes one away, and a pop fails exactly if there is
none.
-/

namespace StateSpace

namespace Fifo

variable {α : Type}

/-- The waiting items in no order. -/
def items (queue : Fifo α) : Multiset α :=
  queue.toList

@[simp] theorem items_empty : (empty : Fifo α).items = 0 := rfl

@[simp] theorem items_push
    (queue : Fifo α)
    (item : α) :
    (queue.push item).items = item ::ₘ queue.items := by
  rw [items, items, toList_push, ← Multiset.coe_add, add_comm]
  rfl

theorem items_of_pop?
    {queue rest : Fifo α}
    {item : α}
    (popped : queue.pop? = some (item, rest)) :
    queue.items = item ::ₘ rest.items := by
  rw [items, pop?_eq_some popped]
  rfl

theorem items_eq_zero
    {queue : Fifo α} :
    queue.items = 0 ↔ queue.pop? = none := by
  rw [pop?_eq_none, items, Multiset.coe_eq_zero]

end Fifo

namespace WorkQueue

variable {α : Type}

/-- The waiting items of all shards in no order. -/
def items (queue : WorkQueue α) : Multiset α :=
  (queue.shards.toList.map Fifo.items).sum

theorem sum_set
    {contents : List (Multiset α)}
    {index : Nat}
    (inside : index < contents.length)
    (content : Multiset α) :
    (contents.set index content).sum + contents[index] = contents.sum + content := by
  induction contents generalizing index with
  | nil => cases inside
  | cons head tail inductionHypothesis =>
      cases index with
      | zero => simp [add_comm, add_left_comm]
      | succ index =>
          have rest := inductionHypothesis (Nat.lt_of_succ_lt_succ inside)
          simp only [List.set_cons_succ, List.sum_cons, List.getElem_cons_succ,
            add_assoc, rest]

/-- Replacing a shard changes the waiting items by what that shard gains or
loses. -/
theorem items_set
    (queue : WorkQueue α)
    {shard : Nat}
    (present : shard < queue.shards.size)
    (waiting : Fifo α)
    (nonempty : 0 < (queue.shards.set shard waiting).size) :
    (⟨queue.shards.set shard waiting, nonempty⟩ : WorkQueue α).items +
        queue.shards[shard].items =
      queue.items + waiting.items := by
  have inside : shard < (queue.shards.toList.map Fifo.items).length :=
    by simpa using present
  have changed := sum_set inside waiting.items
  simpa [items, List.map_set] using changed

theorem card_items (queue : WorkQueue α) :
    queue.items.card = queue.length := by
  rw [items, length]
  induction queue.shards.toList with
  | nil => rfl
  | cons shard others inductionHypothesis =>
      rw [List.map_cons, List.sum_cons, Multiset.card_add, inductionHypothesis,
        Fifo.items, Multiset.coe_card, ← Fifo.length_eq]
      rfl

/-- A queue is empty exactly if nothing waits. -/
theorem isEmpty_iff
    {queue : WorkQueue α} :
    queue.isEmpty = true ↔ queue.items = 0 := by
  rw [← Multiset.card_eq_zero, card_items, isEmpty, decide_eq_true_eq]

theorem items_ofShardCount
    {count : Nat}
    {queue : WorkQueue α}
    (made : ofShardCount count = .ok queue) :
    queue.items = 0 ∧ queue.shardCount = max count 1 := by
  unfold ofShardCount at made
  split at made
  · cases made
    simp [items, shardCount]
  · cases made

/-- A push that succeeds puts its item behind those of its shard. -/
theorem push_eq_ok
    {queue pushed : WorkQueue α}
    {item : α}
    {shard waiting : Nat}
    (ok : queue.push item shard = .ok (waiting, pushed)) :
    ∃ present : shard < queue.shards.size,
      waiting = (queue.shards[shard].push item).length ∧
      pushed = ⟨queue.shards.set shard (queue.shards[shard].push item),
        by simpa using queue.nonempty⟩ := by
  unfold push at ok
  split at ok
  · rename_i present
    cases ok
    exact ⟨present, rfl, rfl⟩
  · cases ok

/-- A push adds its item. -/
theorem items_of_push
    {queue pushed : WorkQueue α}
    {item : α}
    {shard waiting : Nat}
    (ok : queue.push item shard = .ok (waiting, pushed)) :
    pushed.items = item ::ₘ queue.items ∧ pushed.shardCount = queue.shardCount := by
  obtain ⟨present, -, rfl⟩ := push_eq_ok ok
  refine ⟨?_, Array.size_set present⟩
  have changed := queue.items_set present (queue.shards[shard].push item)
    (by simpa using queue.nonempty)
  rw [Fifo.items_push, Multiset.add_cons, ← Multiset.cons_add] at changed
  exact add_right_cancel changed

/-- A push to one of the shards succeeds. -/
theorem push_ok
    (queue : WorkQueue α)
    (item : α)
    {shard : Nat}
    (present : shard < queue.shardCount) :
    ∃ waiting pushed, queue.push item shard = .ok (waiting, pushed) :=
  ⟨_, _, dif_pos present⟩

theorem popFrom_items
    {queue rest : WorkQueue α}
    {order : List (Fin queue.shards.size)}
    {item : α}
    {shard : Nat}
    (popped : queue.popFrom order = some (item, shard, rest)) :
    queue.items = item ::ₘ rest.items ∧ rest.shardCount = queue.shardCount ∧
      shard < queue.shardCount := by
  induction order with
  | nil => cases popped
  | cons first others inductionHypothesis =>
      unfold popFrom at popped
      split at popped
      · rename_i head tail taken
        cases popped
        refine ⟨?_, by simp [shardCount], first.isLt⟩
        have changed := queue.items_set first.isLt tail (by simpa using queue.nonempty)
        have split := Fifo.items_of_pop? taken
        simp only [Fin.getElem_fin] at split
        rw [split, Multiset.add_cons, ← Multiset.cons_add] at changed
        exact (add_right_cancel changed).symm
      · exact inductionHypothesis popped

/-- The items of a shard, of which there are none if there is no such shard. -/
def shardAt
    (queue : WorkQueue α)
    (shard : Nat) : Fifo α :=
  queue.shards[shard]?.getD .empty

theorem shardAt_eq
    {queue : WorkQueue α}
    {shard : Nat}
    (present : shard < queue.shards.size) :
    queue.shardAt shard = queue.shards[shard] := by
  simp [shardAt, present]

/-- A pop finds nothing exactly if the shards that it visits are empty. -/
theorem popFrom_eq_none
    {queue : WorkQueue α}
    {order : List (Fin queue.shards.size)} :
    queue.popFrom order = none ↔ ∀ shard ∈ order, (queue.shardAt shard).items = 0 := by
  induction order with
  | nil => simp [popFrom]
  | cons first others inductionHypothesis =>
      unfold popFrom
      rw [List.forall_mem_cons, shardAt_eq first.isLt, Fifo.items_eq_zero,
        ← inductionHypothesis]
      split
      · rename_i item rest taken
        refine ⟨fun fails => ?_, fun missing => ?_⟩
        · cases fails
        · cases taken.symm.trans missing.1
      · rename_i taken
        exact ⟨fun others => ⟨taken, others⟩, And.right⟩

/-- Every shard is visited by a pop. -/
theorem mem_scanOrder
    (queue : WorkQueue α)
    (preferred : Nat)
    (shard : Fin queue.shards.size) :
    shard ∈ queue.scanOrder preferred := by
  have positive := queue.nonempty
  let first := preferred % queue.shards.size
  have first_lt : first < queue.shards.size := Nat.mod_lt _ positive
  refine List.mem_map.mpr
    ⟨(shard + (queue.shards.size - first)) % queue.shards.size, ?_, ?_⟩
  · exact List.mem_range.mpr (Nat.mod_lt _ positive)
  · refine Fin.ext ?_
    change (first + (shard + (queue.shards.size - first)) % queue.shards.size) %
      queue.shards.size = shard
    have round : first + (shard + (queue.shards.size - first)) =
      shard + queue.shards.size := by omega
    rw [Nat.add_mod_mod, round, Nat.add_mod_right, Nat.mod_eq_of_lt shard.isLt]

theorem pop?_items
    {queue rest : WorkQueue α}
    {preferred shard : Nat}
    {item : α}
    (popped : queue.pop? preferred = some (item, shard, rest)) :
    queue.items = item ::ₘ rest.items ∧ rest.shardCount = queue.shardCount ∧
      shard < queue.shardCount :=
  popFrom_items popped

/-- A pop fails exactly if nothing waits. -/
theorem pop?_eq_none
    {queue : WorkQueue α}
    {preferred : Nat} :
    queue.pop? preferred = none ↔ queue.items = 0 := by
  rw [pop?, popFrom_eq_none, items, List.sum_eq_zero_iff]
  constructor
  · intro missing content member
    obtain ⟨waiting, present, rfl⟩ := List.mem_map.mp member
    obtain ⟨shard, inside, rfl⟩ := List.getElem_of_mem present
    have bound : shard < queue.shards.size := by simpa using inside
    have none := missing ⟨shard, bound⟩ (queue.mem_scanOrder preferred _)
    rwa [shardAt_eq bound] at none
  · intro empty shard _
    rw [shardAt_eq shard.isLt]
    exact empty _ (List.mem_map.mpr ⟨queue.shards[shard.val], by simp, rfl⟩)

end WorkQueue
end StateSpace
