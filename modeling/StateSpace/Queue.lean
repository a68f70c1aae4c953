import StateSpace.Breach
import StateSpace.Word

/-!
# Work queues

A work queue is a fixed number of first-in-first-out shards, at least one. A push names
its shard. A pop visits every shard once, in cyclic order from a preferred one, takes
the front of the first that is not empty, and prefers that shard from then on.
-/

namespace StateSpace

/-- A first-in-first-out queue: `front` is next to leave, `back` holds the latest
arrivals first. -/
structure Fifo (α : Type) where
  front : List α
  back : List α

namespace Fifo

variable {α : Type}

def empty : Fifo α :=
  ⟨[], []⟩

instance : Inhabited (Fifo α) :=
  ⟨empty⟩

/-- The waiting items, next to leave first. -/
def toList (queue : Fifo α) : List α :=
  queue.front ++ queue.back.reverse

def length (queue : Fifo α) : Nat :=
  queue.front.length + queue.back.length

def push
    (queue : Fifo α)
    (item : α) : Fifo α :=
  ⟨queue.front, item :: queue.back⟩

def pop? (queue : Fifo α) : Option (α × Fifo α) :=
  match queue.front with
  | item :: rest => some (item, ⟨rest, queue.back⟩)
  | [] =>
    match queue.back.reverse with
    | item :: rest => some (item, ⟨rest, []⟩)
    | [] => none

@[simp] theorem toList_empty : (empty : Fifo α).toList = [] :=
  rfl

@[simp] theorem toList_push
    (queue : Fifo α)
    (item : α) :
    (queue.push item).toList = queue.toList ++ [item] := by
  simp [toList, push]

theorem length_eq (queue : Fifo α) : queue.length = queue.toList.length := by
  simp [length, toList]

/-- A pop splits the waiting items into the first and the rest. -/
theorem pop?_eq_some
    {queue rest : Fifo α}
    {item : α}
    (popped : queue.pop? = some (item, rest)) :
    queue.toList = item :: rest.toList := by
  obtain ⟨front, back⟩ := queue
  cases front with
  | cons head tail =>
      simp only [pop?, Option.some.injEq, Prod.mk.injEq] at popped
      obtain ⟨rfl, rfl⟩ := popped
      rfl
  | nil =>
      simp only [pop?] at popped
      split at popped
      · rename_i head tail reversed
        simp only [Option.some.injEq, Prod.mk.injEq] at popped
        obtain ⟨rfl, rfl⟩ := popped
        simp [toList, reversed]
      · exact absurd popped (by simp)

/-- A pop fails exactly on a queue in which nothing waits. -/
theorem pop?_eq_none {queue : Fifo α} : queue.pop? = none ↔ queue.toList = [] := by
  obtain ⟨front, back⟩ := queue
  cases front with
  | cons head tail => simp [pop?, toList]
  | nil =>
      simp only [pop?, toList, List.nil_append]
      split <;> simp_all

end Fifo

/-- A queue of one or more shards. -/
structure WorkQueue (α : Type) where
  shards : Array (Fifo α)
  nonempty : 0 < shards.size

namespace WorkQueue

variable {α : Type}

/-- The bytes that one shard takes: four words and a lock, rounded up to a word. -/
def shardBytes : Nat := 40

/-- An empty queue of the given number of shards, or of one shard if that is zero. -/
def ofShardCount (count : Nat) : Except Breach (WorkQueue α) :=
  if shardBytes * count < Word.allocationLimit then
    .ok ⟨Array.replicate (max count 1) .empty, by
      rw [Array.size_replicate]; exact Nat.le_max_right count 1⟩
  else .error .storageTooLarge

def shardCount (queue : WorkQueue α) : Nat :=
  queue.shards.size

/-- The sum of a list of lengths. -/
def total (lengths : List Nat) : Nat :=
  lengths.foldr (· + ·) 0

/-- The number of waiting items over all shards. -/
def length (queue : WorkQueue α) : Nat :=
  total (queue.shards.toList.map Fifo.length)

def isEmpty (queue : WorkQueue α) : Bool :=
  queue.length = 0

/-- Append an item to a shard. The result tells how many items then wait there. -/
def push
    (queue : WorkQueue α)
    (item : α)
    (shard : Nat) : Except Breach (Nat × WorkQueue α) :=
  if present : shard < queue.shards.size then
    let waiting := queue.shards[shard].push item
    .ok (waiting.length, ⟨queue.shards.set shard waiting, by simpa using queue.nonempty⟩)
  else .error .shardMissing

/-- The shards in the order in which a pop visits them. -/
def scanOrder
    (queue : WorkQueue α)
    (preferred : Nat) : List (Fin queue.shards.size) :=
  (List.range queue.shards.size).map fun step =>
    ⟨(preferred % queue.shards.size + step) % queue.shards.size,
     Nat.mod_lt _ queue.nonempty⟩

/-- Take the front of the first shard of a list that is not empty, with that shard's
position. -/
def popFrom (queue : WorkQueue α) :
    List (Fin queue.shards.size) → Option (α × Nat × WorkQueue α)
  | [] => none
  | shard :: others =>
    match queue.shards[shard].pop? with
    | some (item, rest) =>
      some (item, shard, ⟨queue.shards.set shard rest, by simpa using queue.nonempty⟩)
    | none => popFrom queue others

/-- Take an item, with the shard that it came from and the queue without it. -/
def pop?
    (queue : WorkQueue α)
    (preferred : Nat) : Option (α × Nat × WorkQueue α) :=
  queue.popFrom (queue.scanOrder preferred)

/-- Replacing a shard changes the number of waiting items by what that shard gains or
loses. -/
theorem total_set
    (lengths : List Nat)
    (index : Nat)
    (inside : index < lengths.length)
    (length : Nat) :
    total (lengths.set index length) + lengths[index] = total lengths + length := by
  induction lengths generalizing index with
  | nil => exact absurd inside (Nat.not_lt_zero index)
  | cons head tail inductionHypothesis =>
      cases index with
      | zero =>
          simp only [total, List.set_cons_zero, List.foldr_cons, List.getElem_cons_zero]
          omega
      | succ index =>
          have := inductionHypothesis index (Nat.lt_of_succ_lt_succ inside)
          simp only [total, List.set_cons_succ, List.foldr_cons,
            List.getElem_cons_succ] at this ⊢
          omega

/-- A push makes the queue longer by one. -/
theorem length_push
    {queue pushed : WorkQueue α}
    {item : α}
    {shard waiting : Nat}
    (ok : queue.push item shard = .ok (waiting, pushed)) :
    pushed.length = queue.length + 1 := by
  unfold push at ok
  split at ok
  · rename_i present
    simp only [Except.ok.injEq, Prod.mk.injEq] at ok
    obtain ⟨-, rfl⟩ := ok
    have := total_set (queue.shards.toList.map Fifo.length) shard
      (by simpa using present)
      (queue.shards[shard].push item).length
    simp only [length, Array.toList_set, List.map_set]
    simp only [List.getElem_map, Array.getElem_toList, Fifo.length_eq, Fifo.toList_push,
      List.length_append, List.length_singleton] at this ⊢
    omega
  · exact absurd ok (by simp)

/-- A pop that yields an item makes the queue shorter by one. -/
theorem length_popFrom
    {queue rest : WorkQueue α}
    {item : α}
    {shard : Nat}
    {order : List (Fin queue.shards.size)}
    (popped : queue.popFrom order = some (item, shard, rest)) :
    rest.length + 1 = queue.length := by
  induction order with
  | nil => exact absurd popped (by simp [popFrom])
  | cons first others inductionHypothesis =>
      unfold popFrom at popped
      split at popped
      · rename_i head tail taken
        simp only [Option.some.injEq, Prod.mk.injEq] at popped
        obtain ⟨-, -, rfl⟩ := popped
        have := total_set (queue.shards.toList.map Fifo.length) first
          (by simp) tail.length
        have shorter := congrArg List.length (Fifo.pop?_eq_some taken)
        simp only [length, Array.toList_set, List.map_set]
        simp only [List.getElem_map, Array.getElem_toList, Fifo.length_eq,
          List.length_cons, Fin.getElem_fin] at this shorter ⊢
        omega
      · exact inductionHypothesis popped

theorem length_pop?
    {queue rest : WorkQueue α}
    {item : α}
    {preferred shard : Nat}
    (popped : queue.pop? preferred = some (item, shard, rest)) :
    rest.length + 1 = queue.length :=
  length_popFrom popped

/-- The number of shards and of waiting items, for a reader of a log. -/
def describe (queue : WorkQueue α) : String :=
  "WorkQueue \x7b shards: " ++ toString queue.shardCount ++ ", len: " ++
    toString queue.length ++ " \x7d"

end WorkQueue
end StateSpace
