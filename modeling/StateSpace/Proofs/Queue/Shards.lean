import StateSpace.Proofs.Queue.Items

/-!
# Single shards of a work queue

While several workers share a queue, a pop is not one step: it visits one
shard after the other, and the queue may change in between. A visit takes the
front of its shard, and a pop of a queue that nobody else changes is its
visits one by one.
-/

namespace StateSpace
namespace WorkQueue

variable {α : Type}

/-- Take the front of one shard. -/
def visit
    (queue : WorkQueue α)
    (shard : Nat) : Option (α × WorkQueue α) :=
  if present : shard < queue.shards.size then
    match queue.shards[shard].pop? with
    | some (item, rest) =>
      some (item, ⟨queue.shards.set shard rest, by simpa using queue.nonempty⟩)
    | none => none
  else none

/-- The shard that a pop visits at a step. -/
def scanned
    (queue : WorkQueue α)
    (preferred step : Nat) : Nat :=
  (preferred % queue.shardCount + step) % queue.shardCount

/-- A pop that nobody interferes with goes through its visits. -/
theorem popFrom_eq_visits
    (queue : WorkQueue α)
    (order : List (Fin queue.shards.size)) :
    queue.popFrom order =
      order.findSome? fun shard : Fin queue.shards.size =>
        (queue.visit shard).map fun taken => (taken.1, shard.val, taken.2) := by
  induction order with
  | nil => rfl
  | cons first others inductionHypothesis =>
      have visited : queue.visit first = match queue.shards[first].pop? with
          | some (item, rest) =>
            some (item, ⟨queue.shards.set first rest, by simpa using queue.nonempty⟩)
          | none => none := dif_pos first.isLt
      rw [popFrom, List.findSome?_cons, visited, inductionHypothesis]
      cases queue.shards[first].pop? <;> rfl

/-- The visits of a pop are those of its scan, in order. -/
theorem pop?_eq_visits
    (queue : WorkQueue α)
    (preferred : Nat) :
    queue.pop? preferred =
      (List.range queue.shardCount).findSome? fun step =>
        (queue.visit (queue.scanned preferred step)).map fun taken =>
          (taken.1, queue.scanned preferred step, taken.2) := by
  rw [pop?, popFrom_eq_visits, scanOrder, List.findSome?_map]
  rfl

/-! ## Visits -/

theorem shardAt_set
    (queue : WorkQueue α)
    {shard : Nat}
    (present : shard < queue.shards.size)
    (waiting : Fifo α)
    (nonempty : 0 < (queue.shards.set shard waiting).size)
    (other : Nat) :
    (⟨queue.shards.set shard waiting, nonempty⟩ : WorkQueue α).shardAt other =
      if other = shard then waiting else queue.shardAt other := by
  unfold shardAt
  rw [Array.getElem?_set]
  split <;> simp_all [eq_comm]

/-- A visit that comes back with nothing found its shard empty. -/
theorem visit_eq_none
    {queue : WorkQueue α}
    {shard : Nat}
    (missed : queue.visit shard = none) :
    (queue.shardAt shard).items = 0 := by
  unfold visit at missed
  split at missed
  · rename_i present
    rw [shardAt_eq present, Fifo.items_eq_zero]
    split at missed
    · cases missed
    · assumption
  · rename_i absent
    simp [shardAt, absent]

/-- A visit that finds something takes it from its shard. -/
theorem visit_taken
    {queue rest : WorkQueue α}
    {shard : Nat}
    {item : α}
    (taken : queue.visit shard = some (item, rest)) :
    ∃ (present : shard < queue.shards.size) (waiting : Fifo α),
      queue.shards[shard].pop? = some (item, waiting) ∧
      rest = ⟨queue.shards.set shard waiting, by simpa using queue.nonempty⟩ := by
  unfold visit at taken
  split at taken
  · rename_i present
    split at taken
    · rename_i head waiting popped
      cases taken
      exact ⟨present, waiting, popped, rfl⟩
    · cases taken
  · cases taken

/-- A visit takes its item from the items of the queue, and no shard gains
anything by it. -/
theorem visit_eq_some
    {queue rest : WorkQueue α}
    {shard : Nat}
    {item : α}
    (taken : queue.visit shard = some (item, rest)) :
    queue.items = item ::ₘ rest.items ∧ rest.shardCount = queue.shardCount ∧
      ∀ other, (queue.shardAt other).items = 0 → (rest.shardAt other).items = 0 := by
  obtain ⟨present, waiting, popped, rfl⟩ := visit_taken taken
  have split := Fifo.items_of_pop? popped
  refine ⟨?_, Array.size_set present, fun other empty => ?_⟩
  · have changed := queue.items_set present waiting (by simpa using queue.nonempty)
    rw [split, Multiset.add_cons, ← Multiset.cons_add] at changed
    exact (add_right_cancel changed).symm
  · rw [shardAt_set]
    by_cases same : other = shard
    · subst same
      rw [shardAt_eq present, split] at empty
      cases Multiset.cons_ne_zero empty
    · rw [if_neg same]
      exact empty

theorem visit_of_empty
    {queue : WorkQueue α}
    (empty : queue.items = 0)
    (shard : Nat) :
    queue.visit shard = none := by
  cases taken : queue.visit shard with
  | none => rfl
  | some found =>
      have present := (visit_eq_some taken).1
      rw [empty] at present
      exact absurd present.symm (Multiset.cons_ne_zero)

/-- A pop that nobody interferes with finds an item at one of its visits, after
visits that found nothing. -/
theorem exists_visit_of_pop?
    {queue rest : WorkQueue α}
    {preferred source : Nat}
    {item : α}
    (popped : queue.pop? preferred = some (item, source, rest)) :
    ∃ visits < queue.shardCount, queue.scanned preferred visits = source ∧
      queue.visit source = some (item, rest) ∧
      ∀ step < visits, queue.visit (queue.scanned preferred step) = none := by
  rw [pop?_eq_visits, List.findSome?_eq_some_iff] at popped
  obtain ⟨before, visits, after, split, found, missed⟩ := popped
  obtain ⟨⟨taken, waiting⟩, visited, same⟩ := Option.map_eq_some_iff.mp found
  simp only [Prod.mk.injEq] at same
  obtain ⟨rfl, rfl, rfl⟩ := same
  have inside : visits < queue.shardCount := by
    rw [← List.mem_range, split]
    simp
  refine ⟨visits, inside, rfl, visited, fun step earlier => ?_⟩
  have ordered : (before ++ visits :: after).Pairwise (· < ·) := by
    rw [← split]
    exact List.pairwise_lt_range
  have member : step ∈ before ++ visits :: after := by
    rw [← split]
    exact List.mem_range.mpr (earlier.trans inside)
  rcases List.mem_append.mp member with passed | rest
  · simpa using missed step passed
  · rcases List.mem_cons.mp rest with rfl | later
    · omega
    · have follows :=
        List.rel_of_pairwise_cons (List.pairwise_append.mp ordered).2.1 later
      omega

/-- A push leaves the other shards alone. -/
theorem shardAt_push
    {queue pushed : WorkQueue α}
    {item : α}
    {shard waiting : Nat}
    (ok : queue.push item shard = .ok (waiting, pushed))
    {other : Nat}
    (apart : other ≠ shard) :
    pushed.shardAt other = queue.shardAt other := by
  obtain ⟨present, -, rfl⟩ := push_eq_ok ok
  rw [shardAt_set, if_neg apart]

/-- A visit leaves the other shards alone. -/
theorem shardAt_visit
    {queue rest : WorkQueue α}
    {shard : Nat}
    {item : α}
    (taken : queue.visit shard = some (item, rest))
    {other : Nat}
    (apart : other ≠ shard) :
    rest.shardAt other = queue.shardAt other := by
  obtain ⟨present, waiting, -, rfl⟩ := visit_taken taken
  rw [shardAt_set, if_neg apart]

/-! ## Order in a shard -/

/-- A visit takes the first item of its shard. -/
theorem toList_of_visit
    {queue rest : WorkQueue α}
    {shard : Nat}
    {item : α}
    (taken : queue.visit shard = some (item, rest)) :
    (queue.shardAt shard).toList = item :: (rest.shardAt shard).toList := by
  obtain ⟨present, waiting, popped, rfl⟩ := visit_taken taken
  rw [shardAt_eq present, shardAt_set, if_pos rfl]
  exact Fifo.pop?_eq_some popped

/-- A push puts its item behind those of its shard. -/
theorem toList_of_push
    {queue pushed : WorkQueue α}
    {item : α}
    {shard waiting : Nat}
    (ok : queue.push item shard = .ok (waiting, pushed)) :
    (pushed.shardAt shard).toList = (queue.shardAt shard).toList ++ [item] := by
  obtain ⟨present, -, rfl⟩ := push_eq_ok ok
  rw [shardAt_eq present, shardAt_set, if_pos rfl]
  exact Fifo.toList_push _ item

/-- The items of a queue with a single shard are those of that shard. -/
theorem items_of_single
    {queue : WorkQueue α}
    (single : queue.shardCount = 1) :
    queue.items = (queue.shardAt 0).toList := by
  obtain ⟨only, shards⟩ := List.length_eq_one_iff.mp
    (show queue.shards.toList.length = 1 from single)
  have first : queue.shardAt 0 = only := by
    rw [shardAt, ← Array.getElem?_toList, shards]
    rfl
  rw [items, shards, first]
  simp [Fifo.items]

/-- Nothing waits exactly if every shard is empty. -/
theorem items_eq_zero
    {queue : WorkQueue α} :
    queue.items = 0 ↔ ∀ shard < queue.shardCount, (queue.shardAt shard).items = 0 := by
  rw [items, List.sum_eq_zero_iff]
  constructor
  · intro empty shard present
    have inside : shard < queue.shards.size := present
    rw [shardAt_eq inside]
    exact empty _ (List.mem_map.mpr ⟨queue.shards[shard], by simp, rfl⟩)
  · intro empty content member
    obtain ⟨waiting, present, rfl⟩ := List.mem_map.mp member
    obtain ⟨shard, inside, rfl⟩ := List.getElem_of_mem present
    have bound : shard < queue.shards.size := by simpa using inside
    have none := empty shard bound
    rwa [shardAt_eq bound] at none

end WorkQueue
end StateSpace
