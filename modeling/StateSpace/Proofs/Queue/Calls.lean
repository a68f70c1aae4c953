import StateSpace.Error
import StateSpace.Proofs.Execution
import StateSpace.Proofs.Queue.Shards

/-!
# Calls of a work queue

Seen by its callers a queue is a family of lanes, one for each shard. A push puts
its item behind those of a lane. A pop goes through the lanes in cyclic order from
the one that its caller prefers and takes the first item of the first lane in which
something waits, which is the lane that the caller prefers from then on. So every
lane gives its items back in the order in which it got them, and no item is lost
or made up.
-/

namespace StateSpace
namespace WorkQueue

variable {α Caller : Type}

/-! ## Lanes -/

/-- The items that wait in a shard, next to leave first. -/
def lane
    (queue : WorkQueue α)
    (shard : Nat) : List α :=
  (queue.shardAt shard).toList

theorem lane_eq_nil
    {queue : WorkQueue α}
    {shard : Nat} :
    queue.lane shard = [] ↔ (queue.shardAt shard).items = 0 :=
  Multiset.coe_eq_zero _ |>.symm

/-- The items of a queue are those of its lanes. -/
theorem items_eq_sum (queue : WorkQueue α) :
    queue.items = ∑ shard ∈ Finset.range queue.shardCount,
      (queue.lane shard : Multiset α) := by
  have each : queue.shards.toList.map Fifo.items =
      (List.range queue.shardCount).map fun shard =>
        (queue.lane shard : Multiset α) := by
    refine List.ext_getElem (by simp [shardCount]) fun shard inside _ => ?_
    have present : shard < queue.shards.size := by simpa using inside
    simp [lane, Fifo.items, shardAt_eq present]
  rw [items, each]
  rfl

/-- A queue becomes another one by a change of a single lane. -/
structure ChangesAt
    (shard : Nat)
    (before after : WorkQueue α) : Prop where
  present : shard < before.shardCount
  shardCount : after.shardCount = before.shardCount
  others : ∀ other, other ≠ shard → after.lane other = before.lane other

/-- The items change by what the lane gains or loses. -/
theorem ChangesAt.items
    {shard : Nat}
    {before after : WorkQueue α}
    (changes : ChangesAt shard before after) :
    after.items + before.lane shard = before.items + after.lane shard := by
  have member := Finset.mem_range.mpr changes.present
  have others : ∑ other ∈ (Finset.range before.shardCount).erase shard,
        (after.lane other : Multiset α) =
      ∑ other ∈ (Finset.range before.shardCount).erase shard,
        (before.lane other : Multiset α) :=
    Finset.sum_congr rfl fun other away => by
      rw [changes.others other (Finset.ne_of_mem_erase away)]
  rw [items_eq_sum, items_eq_sum, changes.shardCount, ← Finset.add_sum_erase _ _ member,
    ← Finset.add_sum_erase _ _ member, others]
  abel

/-- A push puts its item behind those of its lane and answers how many then wait
there. -/
theorem changesAt_of_push
    {queue pushed : WorkQueue α}
    {item : α}
    {shard waiting : Nat}
    (ok : queue.push item shard = .ok (waiting, pushed)) :
    ChangesAt shard queue pushed ∧ pushed.lane shard = queue.lane shard ++ [item] ∧
      waiting = (pushed.lane shard).length := by
  have behind : pushed.lane shard = queue.lane shard ++ [item] := toList_of_push ok
  obtain ⟨present, rfl, -⟩ := push_eq_ok ok
  refine ⟨⟨present, (items_of_push ok).2, fun other apart => ?_⟩, behind, ?_⟩
  · exact congrArg Fifo.toList (shardAt_push ok apart)
  · rw [behind, Fifo.length_eq, Fifo.toList_push, lane, shardAt_eq present]

/-- A visit takes the first item of its lane. -/
theorem changesAt_of_visit
    {queue rest : WorkQueue α}
    {shard : Nat}
    {item : α}
    (taken : queue.visit shard = some (item, rest)) :
    ChangesAt shard queue rest ∧ queue.lane shard = item :: rest.lane shard := by
  obtain ⟨present, -⟩ := visit_taken taken
  refine ⟨⟨present, (visit_eq_some taken).2.1, fun other apart => ?_⟩,
    toList_of_visit taken⟩
  exact congrArg Fifo.toList (shardAt_visit taken apart)

/-- A shard is the first one in which something waits, in the cyclic order from
the preferred one. -/
def FirstWaiting
    (queue : WorkQueue α)
    (preferred shard : Nat) : Prop :=
  queue.lane shard ≠ [] ∧
    ∃ step < queue.shardCount, queue.scanned preferred step = shard ∧
      ∀ earlier < step, queue.lane (queue.scanned preferred earlier) = []

/-- A pop takes the first item of the first lane in which something waits. -/
theorem changesAt_of_pop?
    {queue rest : WorkQueue α}
    {preferred shard : Nat}
    {item : α}
    (popped : queue.pop? preferred = some (item, shard, rest)) :
    queue.FirstWaiting preferred shard ∧ ChangesAt shard queue rest ∧
      queue.lane shard = item :: rest.lane shard := by
  obtain ⟨step, inside, reached, taken, missed⟩ := exists_visit_of_pop? popped
  obtain ⟨changes, front⟩ := changesAt_of_visit taken
  refine ⟨⟨?_, step, inside, reached, fun earlier before => ?_⟩, changes, front⟩
  · rw [front]
    exact List.cons_ne_nil _ _
  · exact lane_eq_nil.mpr (visit_eq_none (missed earlier before))

/-- A pop finds nothing exactly if all lanes are empty. -/
theorem pop?_eq_none_iff
    (queue : WorkQueue α)
    (preferred : Nat) :
    queue.pop? preferred = none ↔ ∀ shard < queue.shardCount, queue.lane shard = [] := by
  simp only [pop?_eq_none, items_eq_zero, lane_eq_nil]

/-! ## Calls and answers -/

/-- A call of a queue: to append an item to a shard, or to take one for a
caller. -/
inductive Call (α Caller : Type)
  | push (item : α) (shard : Nat)
  | pop (caller : Caller)

/-- The shard that a push names exists. -/
def Call.Present (shardCount : Nat) : Call α Caller → Prop
  | .push _ shard => shard < shardCount
  | .pop _ => True

instance (shardCount : Nat) : (call : Call α Caller) →
    Decidable (call.Present shardCount)
  | .push _ shard => inferInstanceAs (Decidable (shard < shardCount))
  | .pop _ => inferInstanceAs (Decidable True)

/-- What a call came to: an item was appended, with the number of items that then
wait in its shard, or an item was taken, with its shard, or there was nothing to
take. -/
inductive Answer (α Caller : Type)
  | pushed (item : α) (shard waiting : Nat)
  | popped (caller : Caller) (item : α) (shard : Nat)
  | missed (caller : Caller)

namespace Answer

/-- The call that was answered. -/
def call : Answer α Caller → Call α Caller
  | pushed item shard _ => .push item shard
  | popped caller _ _ => .pop caller
  | missed caller => .pop caller

/-- The shard and the item of a push. -/
@[simp] def pushed? : Answer α Caller → Option (Nat × α)
  | pushed item shard _ => some (shard, item)
  | popped _ _ _ => none
  | missed _ => none

/-- The shard and the item of a pop that took one. -/
@[simp] def popped? : Answer α Caller → Option (Nat × α)
  | pushed _ _ _ => none
  | popped _ item shard => some (shard, item)
  | missed _ => none

end Answer

/-- The items that were pushed, in order and with their shards. -/
def pushes (answers : List (Answer α Caller)) : List (Nat × α) :=
  answers.filterMap Answer.pushed?

/-- The items that were popped, in order and with their shards. -/
def pops (answers : List (Answer α Caller)) : List (Nat × α) :=
  answers.filterMap Answer.popped?

/-- The items of one shard. -/
def ofShard
    (shard : Nat)
    (moves : List (Nat × α)) : List α :=
  (moves.filter fun move => move.1 = shard).map Prod.snd

@[simp] theorem pushes_singleton (answer : Answer α Caller) :
    pushes [answer] = answer.pushed?.toList := by
  cases answer <;> rfl

@[simp] theorem pops_singleton (answer : Answer α Caller) :
    pops [answer] = answer.popped?.toList := by
  cases answer <;> rfl

@[simp] theorem pushes_append (earlier later : List (Answer α Caller)) :
    pushes (earlier ++ later) = pushes earlier ++ pushes later :=
  List.filterMap_append ..

@[simp] theorem pops_append (earlier later : List (Answer α Caller)) :
    pops (earlier ++ later) = pops earlier ++ pops later :=
  List.filterMap_append ..

@[simp] theorem ofShard_append
    (shard : Nat)
    (earlier later : List (Nat × α)) :
    ofShard shard (earlier ++ later) = ofShard shard earlier ++ ofShard shard later := by
  simp [ofShard]

/-- A queue and the shard that each of its callers prefers. -/
structure Usage (α Caller : Type) where
  queue : WorkQueue α
  preferred : Caller → Nat

namespace Usage

section Answering

variable [DecidableEq Caller]

/-- Answer a call. A caller prefers the shard from which its item came. -/
def answer (usage : Usage α Caller) :
    Call α Caller → Except Breach (Answer α Caller × Usage α Caller)
  | .push item shard => do
    let (waiting, pushed) ← usage.queue.push item shard
    return (.pushed item shard waiting, ⟨pushed, usage.preferred⟩)
  | .pop caller =>
    match usage.queue.pop? (usage.preferred caller) with
    | some (item, shard, rest) =>
      return (.popped caller item shard,
        ⟨rest, Function.update usage.preferred caller shard⟩)
    | none => return (.missed caller, usage)

/-- Answer calls one after the other. -/
def answerAll (usage : Usage α Caller) :
    List (Call α Caller) → Except Breach (List (Answer α Caller) × Usage α Caller)
  | [] => return ([], usage)
  | call :: calls => do
    let (answer, next) ← usage.answer call
    let (answers, last) ← next.answerAll calls
    return (answer :: answers, last)

/-- What a call may come to, in terms of lanes. -/
inductive Step : Usage α Caller → List (Answer α Caller) → Usage α Caller → Prop
  | pushed
      {usage : Usage α Caller}
      {queue : WorkQueue α}
      {item : α}
      {shard : Nat}
      (changes : ChangesAt shard usage.queue queue)
      (behind : queue.lane shard = usage.queue.lane shard ++ [item]) :
      Step usage [.pushed item shard (queue.lane shard).length] ⟨queue, usage.preferred⟩
  | popped
      {usage : Usage α Caller}
      {queue : WorkQueue α}
      {caller : Caller}
      {item : α}
      {shard : Nat}
      (first : usage.queue.FirstWaiting (usage.preferred caller) shard)
      (changes : ChangesAt shard usage.queue queue)
      (front : usage.queue.lane shard = item :: queue.lane shard) :
      Step usage [.popped caller item shard]
        ⟨queue, Function.update usage.preferred caller shard⟩
  | missed
      {usage : Usage α Caller}
      {caller : Caller}
      (empty : ∀ shard < usage.queue.shardCount, usage.queue.lane shard = []) :
      Step usage [.missed caller] usage

variable {before after : Usage α Caller} {answers : List (Answer α Caller)}

/-! ## What one call keeps -/

theorem Step.shardCount (step : Step before answers after) :
    after.queue.shardCount = before.queue.shardCount := by
  cases step with
  | pushed changes behind => exact changes.shardCount
  | popped first changes front => exact changes.shardCount
  | missed empty => rfl

/-- What waits in a lane and what is pushed to it is popped from it or waits
afterwards, in the same order. -/
theorem Step.lane
    (step : Step before answers after)
    (shard : Nat) :
    before.queue.lane shard ++ ofShard shard (pushes answers) =
      ofShard shard (pops answers) ++ after.queue.lane shard := by
  cases step with
  | @pushed queue item changed changes behind =>
      by_cases same : changed = shard
      · subst same
        simp [ofShard, behind]
      · simp [ofShard, same, changes.others shard (Ne.symm same)]
  | @popped queue caller item changed first changes front =>
      by_cases same : changed = shard
      · subst same
        simp [ofShard, front]
      · simp [ofShard, same, changes.others shard (Ne.symm same)]
  | missed empty => simp [ofShard]

/-- What waits and what is pushed is popped or waits afterwards. -/
theorem Step.items (step : Step before answers after) :
    before.queue.items + ((pushes answers).map Prod.snd : Multiset α) =
      ((pops answers).map Prod.snd : Multiset α) + after.queue.items := by
  cases step with
  | @pushed queue item shard changes behind =>
      have items := changes.items
      rw [behind, ← Multiset.coe_add, add_comm (before.queue.lane shard : Multiset α),
        ← add_assoc] at items
      simpa using (add_right_cancel items).symm
  | @popped queue caller item shard first changes front =>
      have items := changes.items
      rw [front, ← Multiset.cons_coe, ← Multiset.singleton_add, ← add_assoc] at items
      simpa [add_comm] using (add_right_cancel items).symm
  | missed empty => simp

/-- A call of a shard that exists is answered. -/
theorem answer_ok
    (usage : Usage α Caller)
    {call : Call α Caller}
    (present : call.Present usage.queue.shardCount) :
    ∃ answer next, usage.answer call = .ok (answer, next) ∧ answer.call = call ∧
      Step usage [answer] next := by
  cases call with
  | push item shard =>
      obtain ⟨waiting, pushed, ok⟩ := usage.queue.push_ok item present
      obtain ⟨changes, behind, rfl⟩ := changesAt_of_push ok
      refine ⟨_, _, ?_, rfl, .pushed changes behind⟩
      rw [answer, ok]
      rfl
  | pop caller =>
      cases taken : usage.queue.pop? (usage.preferred caller) with
      | some found =>
          obtain ⟨item, shard, rest⟩ := found
          obtain ⟨first, changes, front⟩ := changesAt_of_pop? taken
          refine ⟨_, _, ?_, rfl, .popped first changes front⟩
          rw [answer, taken]
          rfl
      | none =>
          refine ⟨_, _, ?_, rfl, .missed ((pop?_eq_none_iff ..).mp taken)⟩
          rw [answer, taken]
          rfl

/-- A pop comes to nothing exactly if all lanes are empty, and then changes
nothing. -/
theorem answer_pop_eq_missed
    {usage : Usage α Caller}
    {caller : Caller} :
    usage.answer (.pop caller) = .ok (.missed caller, usage) ↔
      ∀ shard < usage.queue.shardCount, usage.queue.lane shard = [] := by
  rw [← pop?_eq_none_iff _ (usage.preferred caller), answer]
  cases usage.queue.pop? (usage.preferred caller) with
  | some found => exact ⟨nofun, nofun⟩
  | none => exact ⟨fun _ => rfl, fun _ => rfl⟩

/-! ## What all calls keep -/

theorem shardCount_eq (run : Execution Step before answers after) :
    after.queue.shardCount = before.queue.shardCount := by
  induction run with
  | refl => rfl
  | step _ last inductionHypothesis => exact last.shardCount.trans inductionHypothesis

theorem lane_eq
    (run : Execution Step before answers after)
    (shard : Nat) :
    before.queue.lane shard ++ ofShard shard (pushes answers) =
      ofShard shard (pops answers) ++ after.queue.lane shard := by
  induction run with
  | refl => simp [pushes, pops, ofShard]
  | step _ last inductionHypothesis =>
      rw [pushes_append, pops_append, ofShard_append, ofShard_append,
        ← List.append_assoc, inductionHypothesis, List.append_assoc,
        last.lane shard, List.append_assoc]

theorem items_eq (run : Execution Step before answers after) :
    before.queue.items + ((pushes answers).map Prod.snd : Multiset α) =
      ((pops answers).map Prod.snd : Multiset α) + after.queue.items := by
  induction run with
  | refl => simp [pushes, pops]
  | step _ last inductionHypothesis =>
      rw [pushes_append, pops_append, List.map_append, List.map_append,
        ← Multiset.coe_add,
        ← Multiset.coe_add, ← add_assoc, inductionHypothesis, add_assoc,
        last.items, add_assoc]

/-- Calls of shards that exist are answered one after the other. -/
theorem answerAll_ok
    (usage : Usage α Caller)
    {calls : List (Call α Caller)}
    (present : ∀ call ∈ calls, call.Present usage.queue.shardCount) :
    ∃ answers last, usage.answerAll calls = .ok (answers, last) ∧
      answers.map Answer.call = calls ∧ Execution Step usage answers last := by
  induction calls generalizing usage with
  | nil => exact ⟨[], usage, rfl, rfl, .refl⟩
  | cons call calls inductionHypothesis =>
      obtain ⟨presentFirst, presentRest⟩ := List.forall_mem_cons.mp present
      obtain ⟨answer, next, answered, rfl, step⟩ := usage.answer_ok presentFirst
      rw [← step.shardCount] at presentRest
      obtain ⟨answers, last, done, rfl, run⟩ := inductionHypothesis next presentRest
      refine ⟨answer :: answers, last, ?_, rfl, (Execution.single step).trans run⟩
      exact bind_eq_ok.mpr ⟨_, answered, bind_eq_ok.mpr ⟨_, done, rfl⟩⟩

end Answering
end Usage

/-- A new queue answers all calls of its shards, of any number of callers with any
preferences. Every answer is the one that the lanes ask for. What was popped and
what still waits is what was pushed, a lane gives its items back in the order in
which it got them, and the length of the queue is the number of pushes less that
of the pops that took an item. A further pop comes to nothing exactly if all lanes
are empty, and then changes no preference. -/
theorem calls_exact
    [DecidableEq Caller]
    {count : Nat}
    {queue : WorkQueue α}
    (made : ofShardCount count = .ok queue)
    (preferred : Caller → Nat)
    {calls : List (Call α Caller)}
    (present : ∀ call ∈ calls, call.Present queue.shardCount) :
    queue.shardCount = max count 1 ∧
    ∃ answers last, Usage.answerAll ⟨queue, preferred⟩ calls = .ok (answers, last) ∧
      answers.map Answer.call = calls ∧
      Execution Usage.Step ⟨queue, preferred⟩ answers last ∧
      ((pops answers).map Prod.snd : Multiset α) + last.queue.items =
        ((pushes answers).map Prod.snd : Multiset α) ∧
      (∀ shard, ofShard shard (pops answers) ++ last.queue.lane shard =
        ofShard shard (pushes answers)) ∧
      last.queue.length + (pops answers).length = (pushes answers).length ∧
      ∀ caller, last.answer (.pop caller) = .ok (.missed caller, last) ↔
        ∀ shard < queue.shardCount, last.queue.lane shard = [] := by
  obtain ⟨empty, shards⟩ := items_ofShardCount made
  obtain ⟨answers, last, done, asked, run⟩ :=
    Usage.answerAll_ok ⟨queue, preferred⟩ present
  have items := Usage.items_eq run
  rw [empty, zero_add] at items
  refine ⟨shards, answers, last, done, asked, run, items.symm, fun shard => ?_, ?_,
    fun caller => ?_⟩
  · have vacant : queue.lane shard = [] :=
      lane_eq_nil.mpr (visit_eq_none (visit_of_empty empty shard))
    have lane := Usage.lane_eq run shard
    rw [vacant] at lane
    exact lane.symm
  · have lengths := congrArg Multiset.card items
    rw [Multiset.card_add, card_items, Multiset.coe_card, Multiset.coe_card,
      List.length_map, List.length_map] at lengths
    omega
  · rw [Usage.answer_pop_eq_missed, Usage.shardCount_eq run]

namespace Counter

/-- Three shards in which nothing waits. -/
def queue : WorkQueue Nat :=
  ⟨Array.replicate 3 .empty, by decide⟩

/-- One caller begins with the second of three shards, and the other with the
first. -/
def preferred : Bool → Nat
  | true => 7
  | false => 0

/-- Three numbers are pushed, and one caller comes more often than there are
numbers. -/
def calls : List (Call Nat Bool) :=
  [.push 10 0, .push 20 2, .pop true, .push 21 2, .pop true, .pop true,
   .pop false, .pop true]

/-- The caller falls back to the third shard, stays there, and falls back to the
first one. Then nothing is left. -/
def answers : List (Answer Nat Bool) :=
  [.pushed 10 0 1, .pushed 20 2 1, .popped true 20 2, .pushed 21 2 1, .popped true 21 2,
    .popped true 10 0, .missed false, .missed true]

theorem calls_exact_counter :
    ∃ last, Usage.answerAll ⟨queue, preferred⟩ calls = .ok (answers, last) ∧
      Execution Usage.Step ⟨queue, preferred⟩ answers last ∧
      last.queue.length = 0 ∧ last.preferred true = 0 := by
  have made : ofShardCount 3 = .ok queue := rfl
  have present : ∀ call ∈ calls, call.Present queue.shardCount := by
    decide
  obtain ⟨-, given, last, done, -, run, -, -, lengths, -⟩ :=
    calls_exact made preferred present
  have outcome : Usage.answerAll ⟨queue, preferred⟩ calls =
      .ok (answers, ⟨queue, Function.update (Function.update (Function.update preferred
        true 2) true 2) true 0⟩) := by
    rfl
  cases done.symm.trans outcome
  exact ⟨_, done, run, Nat.add_right_cancel (lengths.trans (Nat.zero_add 3).symm), rfl⟩

end Counter

end WorkQueue
end StateSpace
