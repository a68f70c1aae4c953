import StateSpace.Proofs.Search.Moves

/-!
# Insertions

An insertion into a visited set is answered with the number of items that the set
holds then, and with whether the item was new. Of all insertions of one item the
first is answered that it is new, and the others hand the item back. The numbers
in the answers for new items count up from one.
-/

namespace StateSpace

/-- Whether an inserted item was new: it is stored, or handed back. -/
inductive Answer (α : Type)
  | new (stored : α)
  | seen (returned : α)

/-- An insertion with the number of items behind it, and its answer. -/
structure Insertion (α : Type) where
  offered : α
  size : Nat
  answer : Answer α

def Answer.isNew {α : Type} : Answer α → Bool
  | .new _ => true
  | .seen _ => false

namespace VisitedSet

variable {α : Type} [BEq α] [Hashable α]

/-- Insert an item unless it is there. -/
def offer
    (visited : VisitedSet α)
    (item : α) : Insertion α × VisitedSet α :=
  if visited.contains item then (⟨item, visited.size, .seen item⟩, visited)
  else (⟨item, (visited.insert item).size, .new item⟩, visited.insert item)

/-- Insert items in order. -/
def offerAll (visited : VisitedSet α) : List α → List (Insertion α) × VisitedSet α
  | [] => ([], visited)
  | item :: items =>
    let others := (visited.offer item).2.offerAll items
    ((visited.offer item).1 :: others.1, others.2)

/-- The insertions of items are answered as one after the other. -/
structure Answered
    (items : List α)
    (insertions : List (Insertion α))
    (visited : VisitedSet α) : Prop where
  offered : insertions.map Insertion.offered = items
  /-- What is stored or handed back is the item itself. -/
  own : ∀ insertion ∈ insertions, insertion.answer = .new insertion.offered ∨
    insertion.answer = .seen insertion.offered
  once : ∀ item ∈ items,
    (insertions.filter fun insertion => insertion.offered == item).countP
      (fun insertion => insertion.answer.isNew) = 1
  counted : (insertions.filter fun insertion => insertion.answer.isNew).map
    Insertion.size = List.range' 1 visited.size
  contains_iff : ∀ item, visited.contains item = true ↔ item ∈ items

/-! ## One insertion -/

section

variable (visited : VisitedSet α) (item : α)

theorem offer_of_contains (seen : visited.contains item = true) :
    visited.offer item = (⟨item, visited.size, .seen item⟩, visited) :=
  if_pos seen

theorem offer_of_not_contains (fresh : visited.contains item = false) :
    visited.offer item =
      (⟨item, (visited.insert item).size, .new item⟩, visited.insert item) :=
  if_neg (by simp [fresh])

theorem offer_offered : (visited.offer item).1.offered = item := by
  unfold offer
  split <;> rfl

theorem offer_own :
    (visited.offer item).1.answer = .new (visited.offer item).1.offered ∨
      (visited.offer item).1.answer = .seen (visited.offer item).1.offered := by
  unfold offer
  split
  · exact .inr rfl
  · exact .inl rfl

theorem contains_offer
    [LawfulBEq α]
    (other : α) :
    (visited.offer item).2.contains other =
      (item == other || visited.contains other) := by
  cases found : visited.contains item with
  | false => rw [offer_of_not_contains visited item found, contains_insert]
  | true =>
      rw [offer_of_contains visited item found]
      cases same : item == other with
      | false => rfl
      | true => rw [← LawfulBEq.eq_of_beq same, found]; rfl

end

/-! ## Insertions in order -/

theorem offerAll_append
    (visited : VisitedSet α)
    (earlier later : List α) :
    visited.offerAll (earlier ++ later) =
      ((visited.offerAll earlier).1 ++ ((visited.offerAll earlier).2.offerAll later).1,
        ((visited.offerAll earlier).2.offerAll later).2) := by
  induction earlier generalizing visited with
  | nil => rfl
  | cons item earlier inductionHypothesis =>
      rw [List.cons_append, offerAll, inductionHypothesis]
      rfl

theorem offerAll_offered
    (visited : VisitedSet α)
    (items : List α) :
    (visited.offerAll items).1.map Insertion.offered = items := by
  induction items generalizing visited with
  | nil => rfl
  | cons item items inductionHypothesis =>
      simp only [offerAll, List.map_cons, offer_offered, inductionHypothesis]

theorem offerAll_own
    (visited : VisitedSet α)
    (items : List α) :
    ∀ insertion ∈ (visited.offerAll items).1, insertion.answer = .new insertion.offered ∨
      insertion.answer = .seen insertion.offered := by
  induction items generalizing visited with
  | nil => nofun
  | cons item items inductionHypothesis =>
      intro insertion member
      rcases List.mem_cons.mp member with rfl | later
      · exact visited.offer_own item
      · exact inductionHypothesis _ insertion later

variable [LawfulBEq α]

theorem contains_offerAll
    (visited : VisitedSet α)
    (items : List α)
    (other : α) :
    (visited.offerAll items).2.contains other = true ↔
      other ∈ items ∨ visited.contains other = true := by
  induction items generalizing visited with
  | nil => simp [offerAll]
  | cons item items inductionHypothesis =>
      simp only [offerAll, inductionHypothesis, contains_offer,
        Bool.or_eq_true, beq_iff_eq, List.mem_cons]
      tauto

/-- The answers for new items count on from the number of items. -/
theorem offerAll_counted
    (visited : VisitedSet α)
    (items : List α) :
    ∃ count, (visited.offerAll items).2.size = visited.size + count ∧
      ((visited.offerAll items).1.filter fun insertion => insertion.answer.isNew).map
        Insertion.size = List.range' (visited.size + 1) count := by
  induction items generalizing visited with
  | nil => exact ⟨0, rfl, rfl⟩
  | cons item items inductionHypothesis =>
      simp only [offerAll]
      cases found : visited.contains item with
      | true =>
          rw [offer_of_contains visited item found]
          obtain ⟨count, size, counted⟩ := inductionHypothesis visited
          exact ⟨count, size, counted⟩
      | false =>
          rw [offer_of_not_contains visited item found]
          have larger : (visited.insert item).size = visited.size + 1 := by
            simp [size_insert, found]
          obtain ⟨count, size, counted⟩ := inductionHypothesis (visited.insert item)
          rw [larger] at size counted
          refine ⟨count + 1, size.trans (by omega), ?_⟩
          rw [List.filter_cons_of_pos rfl, List.map_cons, counted, larger,
            List.range'_succ]

/-- One of the insertions of an item is answered that it is new, unless it was
there before. -/
theorem offerAll_once
    (visited : VisitedSet α)
    (items : List α)
    (item : α) :
    ((visited.offerAll items).1.filter fun insertion => insertion.offered == item).countP
      (fun insertion => insertion.answer.isNew) =
        if item ∈ items ∧ visited.contains item = false then 1 else 0 := by
  induction items generalizing visited with
  | nil => rfl
  | cons first items inductionHypothesis =>
      simp only [offerAll, List.filter_cons]
      cases found : visited.contains first with
      | true =>
          rw [offer_of_contains visited first found]
          split
          · rename_i same
            obtain rfl : first = item := LawfulBEq.eq_of_beq same
            rw [List.countP_cons_of_neg (by simp [Answer.isNew]), inductionHypothesis]
            simp [found]
          · rename_i apart
            have other : item ≠ first := fun same => apart (by simp [same])
            rw [inductionHypothesis]
            simp [other]
      | false =>
          rw [offer_of_not_contains visited first found]
          split
          · rename_i same
            obtain rfl : first = item := LawfulBEq.eq_of_beq same
            rw [List.countP_cons_of_pos rfl, inductionHypothesis]
            simp [found, contains_insert]
          · rename_i apart
            have other : first ≠ item := fun same => apart (by simp [same])
            rw [inductionHypothesis, contains_insert]
            simp [other, other.symm]

theorem answered (items : List α) :
    Answered items ((empty : VisitedSet α).offerAll items).1
      ((empty : VisitedSet α).offerAll items).2 where
  offered := offerAll_offered _ _
  own := offerAll_own _ _
  once := fun item member => by
    rw [offerAll_once, if_pos ⟨member, contains_empty item⟩]
  counted := by
    obtain ⟨count, size, counted⟩ := offerAll_counted (empty : VisitedSet α) items
    rw [size_empty, Nat.zero_add] at size counted
    rw [counted, size]
  contains_iff := fun item => by
    rw [contains_offerAll, contains_empty]
    simp

end VisitedSet

/-! ## Insertions of tasks -/

variable {layout : Layout} {setup : Setup layout}

/-- The blocks that were offered in a history, in order. -/
def offeredBlocks
    {size : Nat}
    (history : List (Event size)) : List (Block size) :=
  history.filterMap fun
    | .offered block => some block
    | _ => none

theorem offeredBlocks_append
    {size : Nat}
    (earlier later : List (Event size)) :
    offeredBlocks (earlier ++ later) = offeredBlocks earlier ++ offeredBlocks later :=
  List.filterMap_append

/-- An execution inserts what it offers, if each of its steps does. -/
theorem Execution.inserts
    {size : Nat}
    {System : Type}
    {step : System → List (Event size) → System → Prop}
    (visited : System → VisitedSet (Block size))
    (each : ∀ {system events next}, step system events next →
      visited next = ((visited system).offerAll (offeredBlocks events)).2)
    {first last : System}
    {history : List (Event size)}
    (execution : Execution step first history last) :
    visited last = ((visited first).offerAll (offeredBlocks history)).2 := by
  refine execution.invariant
    (fun history system =>
      visited system = ((visited first).offerAll (offeredBlocks history)).2)
    (fun {history system events next} step inserted => ?_) rfl
  rw [offeredBlocks_append, VisitedSet.offerAll_append, ← inserted]
  exact each step

/-- A task goes on as the answer to its insertion says: it is about to push what
was stored, or it has taken back what was handed back. -/
def Task.Heeds
    (insertion : Insertion (Block layout.bytes))
    (task : Task layout) : Prop :=
  match insertion.answer with
  | .new stored => ∃ ancestors, task.stage = .push ⟨stored, ancestors⟩ insertion.size
  | .seen returned =>
    task.stage = .active .attempt ∧ task.recycler.cached = some returned

theorem Recycler.free_eq_ok
    {size : Nat}
    {recycler freed : Recycler size}
    {block : Block size}
    (given : recycler.free block = .ok freed) :
    recycler.cached = none ∧ freed = { recycler with cached := some block } := by
  unfold free at given
  split at given
  · cases given
  · rename_i empty
    rw [dif_pos rfl] at given
    cases given
    exact ⟨empty, rfl⟩

section

variable {queued : Nat} {agenda : Agenda layout} {recycler : Recycler layout.bytes}
  {board advanced : Board layout} {task : Task layout}

/-- A task that offers a state inserts its canonical form and heeds the answer. -/
theorem Point.offer_heeds
    {state : State layout.bytes}
    (moved : (Point.offer state).advance setup queued agenda recycler board =
      .ok (task, advanced)) :
    ∃ block, setup.canonical state.block = .ok block ∧
      advanced.visited = (board.visited.offer block).2 ∧
      task.Heeds (board.visited.offer block).1 := by
  cases Point.advances moved with
  | @known _ block freed canonical seen free =>
      refine ⟨block, canonical, ?_⟩
      rw [board.visited.offer_of_contains block seen]
      obtain ⟨-, rfl⟩ := Recycler.free_eq_ok free
      exact ⟨rfl, rfl, rfl⟩
  | @discover _ block canonical fresh =>
      refine ⟨block, canonical, ?_⟩
      rw [board.visited.offer_of_not_contains block fresh]
      exact ⟨rfl, state.ancestors, rfl⟩

/-- What a point remembers to have offered is what it inserts. -/
theorem Point.advance_visited
    {point : Point layout}
    (moved : point.advance setup queued agenda recycler board = .ok (task, advanced)) :
    advanced.visited =
      (board.visited.offerAll (offeredBlocks (point.events setup))).2 := by
  cases point with
  | offer state =>
      obtain ⟨block, canonical, inserted, -⟩ := offer_heeds moved
      have events : (Point.offer state).events setup = [.offered block] := by
        simp only [Point.events, canonical]
      rw [inserted, events]
      rfl
  | _ =>
      cases Point.advances moved
      all_goals rfl

end

end StateSpace
