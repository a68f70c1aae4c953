import StateSpace.Proofs.Symmetry.Exchanges
import StateSpace.Proofs.Symmetry.Relabelling

/-!
# The two loops compute the relabelling

Each step of the loops over members and over elements paints a run of bits with
those of the block that the pass is to end with. Steps of that kind may come
in any order and more than once: when they are done, the runs of all of them
are painted. The member loop also skips fields, but only those that the pass
leaves as they are.
-/

namespace StateSpace

open Equiv

variable {size : Nat}

/-- A block in which the covered bits are those of a goal and the others have
stayed. -/
def Painted
    (covered : Nat → Prop)
    (goal before after : Block size) : Prop :=
  ∀ index, (covered index → after.bit index = goal.bit index) ∧
    (¬ covered index → after.bit index = before.bit index)

/-- A block each of whose bits is an original one or one of a goal. -/
def Between (source goal block : Block size) : Prop :=
  ∀ index, block.bit index = source.bit index ∨ block.bit index = goal.bit index

theorem Painted.between
    {covered : Nat → Prop}
    {source goal before after : Block size}
    (painted : Painted covered goal before after)
    (between : Between source goal before) :
    Between source goal after := by
  intro index
  by_cases inside : covered index
  · exact .inr ((painted index).1 inside)
  · rw [(painted index).2 inside]
    exact between index

/-- Steps that paint their runs together paint all of the runs. -/
theorem foldlM_painted
    {ε Item : Type}
    {step : Block size → Item → Except ε (Block size)}
    {covered : Item → Nat → Prop}
    {source goal : Block size}
    {items : List Item}
    (each : ∀ item ∈ items, ∀ before, Between source goal before →
      ∃ after, step before item = .ok after ∧ Painted (covered item) goal before after)
    {before : Block size}
    (between : Between source goal before) :
    ∃ after, items.foldlM step before = .ok after ∧
      Painted (fun index => ∃ item ∈ items, covered item index) goal before after := by
  induction items generalizing before with
  | nil => exact ⟨before, rfl, by simp [Painted]⟩
  | cons item rest inductionHypothesis =>
      obtain ⟨middle, stepped, painted⟩ := each item (by simp) before between
      obtain ⟨after, finished, restPainted⟩ :=
        inductionHypothesis
          (fun item present => each item (List.mem_cons_of_mem _ present))
          (painted.between between)
      refine ⟨after, ?_, ?_⟩
      · rw [List.foldlM_cons, stepped]
        exact finished
      intro index
      by_cases later : ∃ item ∈ rest, covered item index
      · refine ⟨fun _ => (restPainted index).1 later, fun free => ?_⟩
        obtain ⟨item, present, inside⟩ := later
        exact absurd ⟨item, List.mem_cons_of_mem _ present, inside⟩ free
      · rw [(restPainted index).2 later]
        constructor
        · rintro ⟨other, present, inside⟩
          rcases List.mem_cons.mp present with rfl | present
          · exact (painted index).1 inside
          · exact absurd ⟨other, present, inside⟩ later
        · intro free
          exact (painted index).2 fun inside => free ⟨item, by simp, inside⟩

/-- A block is done when everything that differs from the goal is painted. -/
theorem Painted.eq_goal
    {covered : Nat → Prop}
    {goal before after : Block size}
    (painted : Painted covered goal before after)
    (rest : ∀ index, ¬ covered index → before.bit index = goal.bit index) :
    after = goal := by
  ext index _
  by_cases inside : covered index
  · exact (painted index).1 inside
  · rw [(painted index).2 inside, rest index inside]

namespace PermutationSymmetry

section Passes

variable
  {symmetry : PermutationSymmetry}
  {permutation : Perm (Fin symmetry.size)}
  {source goal : Block size}

/-! ## Members -/

/-- One step of the member loop paints the member. -/
theorem relabelMember_painted
    (regular : symmetry.Regular size)
    (renames : symmetry.Renames permutation source goal)
    {member : Nat × Nat}
    (present : member ∈ symmetry.members)
    {before : Block size}
    (between : Between source goal before) :
    ∃ after,
      symmetry.relabelMember (Heap.listing symmetry.size (image permutation))
        source before member = .ok after ∧
      Painted (Covers member.1 member.2) goal before after := by
  have fits := regular.membersFit member present
  have narrow := regular.narrow member present
  have held := renames.members member present
  obtain ⟨offset, width⟩ := member
  have read := source.read_eq fits narrow
  by_cases identity : source.extract offset width < symmetry.size
  · refine ⟨before.deposit offset width (goal.extract offset width), ?_, ?_⟩
    · apply bind_eq_ok.mpr
      refine ⟨_, read, ?_⟩
      rw [if_pos identity, Heap.getElem_listing _ identity, Option.getD_some, ← held]
      exact before.write_eq fits narrow (goal.extract_lt offset width)
    · obtain ⟨inside, outside⟩ := Block.copied_deposit goal offset before fits
      intro index
      refine ⟨?_, outside index⟩
      rintro ⟨low, high⟩
      have bit := inside (index - offset) (by omega)
      rwa [Nat.add_sub_cancel' low] at bit
  · -- The field keeps its number, so the goal has the original bits there.
    refine ⟨before, ?_, ?_⟩
    · apply bind_eq_ok.mpr
      exact ⟨_, read, if_neg identity⟩
    · intro index
      refine ⟨fun covers => ?_, fun _ => rfl⟩
      have kept : goal.bit index = source.bit index := by
        rw [goal.bit_eq_testBit covers, held, image_of_le _ (Nat.not_lt.mp identity),
          source.bit_eq_testBit covers]
      rcases between index with same | same
      · rw [same, kept]
      · exact same

theorem foldlM_relabelMember
    (regular : symmetry.Regular size)
    (renames : symmetry.Renames permutation source goal) :
    symmetry.members.foldlM
      (symmetry.relabelMember (Heap.listing symmetry.size (image permutation)) source)
        source = .ok goal := by
  obtain ⟨after, finished, painted⟩ := foldlM_painted
    (fun member present before => relabelMember_painted regular renames present)
    (fun _ => .inl rfl)
  rw [finished, painted.eq_goal]
  intro index free
  exact (renames.others index fun member present covers =>
    free ⟨member, present, covers⟩).symm

/-! ## Elements -/

/-- One step of the element loop paints the image of the element. -/
theorem copyElement_painted
    (regular : symmetry.Regular size)
    (moves : symmetry.Moves permutation source goal)
    {array : Nat × Nat}
    (present : array ∈ symmetry.arrays)
    {position : Nat}
    (inside : position < symmetry.size)
    (before : Block size) :
    ∃ after,
      Block.copyBits source (array.1 + position * array.2) before
        (array.1 + image permutation position * array.2) array.2 = .ok after ∧
      Painted (Covers (array.1 + image permutation position * array.2) array.2) goal
        before after := by
  have fits := regular.arraysFit array present
  obtain ⟨after, done, copied, kept⟩ := source.copyBits_ok before
    (fits.part (element_within _ inside))
    (fits.part (element_within _ (image_lt permutation inside)))
  refine ⟨after, done, fun index => ⟨?_, kept index⟩⟩
  rintro ⟨low, high⟩
  have bit := copied
    (index - (array.1 + image permutation position * array.2)) (by omega)
  rw [← moves.elements array present position inside _ (by omega),
    Nat.add_sub_cancel' low] at bit
  exact bit

/-- The element loop goes through the positions, each with its image. -/
theorem mem_zipIdx_listing
    {count : Nat}
    {placed : Perm Nat}
    {item : Nat × Nat} :
    item ∈ (Heap.listing count placed).toList.zipIdx ↔
      item.2 < count ∧ item.1 = placed item.2 := by
  rw [List.mem_zipIdx_iff_getElem?, Array.getElem?_toList]
  rcases Nat.lt_or_ge item.2 count with inside | outside
  · rw [Heap.getElem_listing placed inside, Option.some_inj]
    simp only [inside, true_and]
    exact eq_comm
  · rw [Array.getElem?_eq_none (by rw [Heap.size_listing]; exact outside)]
    simp only [reduceCtorEq, false_iff, not_and]
    omega

/-- The element loop of an array paints the array. -/
theorem moveElements_painted
    (regular : symmetry.Regular size)
    (moves : symmetry.Moves permutation source goal)
    {array : Nat × Nat}
    (present : array ∈ symmetry.arrays)
    {start : Block size}
    (before : Block size)
    (between : Between start goal before) :
    ∃ after,
      moveElements (Heap.listing symmetry.size (image permutation)) source before array =
        .ok after ∧
      Painted (Covers array.1 (symmetry.size * array.2)) goal before after := by
  have each : ∀ item ∈ (Heap.listing symmetry.size (image permutation)).toList.zipIdx,
      ∀ before, Between start goal before → ∃ after,
        Block.copyBits source (array.1 + item.2 * array.2) before
          (array.1 + item.1 * array.2) array.2 = .ok after ∧
        Painted (Covers (array.1 + item.1 * array.2) array.2) goal before after := by
    intro item member before _
    obtain ⟨inside, same⟩ := mem_zipIdx_listing.mp member
    rw [same]
    exact copyElement_painted regular moves present inside before
  obtain ⟨after, finished, painted⟩ := foldlM_painted each between
  refine ⟨after, finished, ?_⟩
  -- Every position is the image of one, so the elements make up the array.
  have whole : (fun index => ∃ item ∈
        (Heap.listing symmetry.size (image permutation)).toList.zipIdx,
        Covers (array.1 + item.1 * array.2) array.2 index) =
      Covers array.1 (symmetry.size * array.2) := by
    funext index
    apply propext
    constructor
    · rintro ⟨item, member, low, high⟩
      obtain ⟨inside, same⟩ := mem_zipIdx_listing.mp member
      have step := element_within array.2 (image_lt permutation inside)
      rw [same] at low high
      unfold Covers
      omega
    · intro covers
      obtain ⟨position, inside, relative, within, rfl⟩ := exists_position covers
      refine ⟨(position, image permutation⁻¹ position), mem_zipIdx_listing.mpr ?_, ?_⟩
      · exact ⟨image_lt _ inside, by simp [image_inv]⟩
      · change Covers (array.1 + position * array.2) array.2 _
        unfold Covers
        omega
  rwa [whole] at painted

theorem foldlM_moveElements
    (regular : symmetry.Regular size)
    (moves : symmetry.Moves permutation source goal) :
    symmetry.arrays.foldlM
      (moveElements (Heap.listing symmetry.size (image permutation)) source) source =
        .ok goal := by
  obtain ⟨after, finished, painted⟩ := foldlM_painted
    (fun array present before => moveElements_painted regular moves present before)
    (fun _ => .inl rfl)
  rw [finished, painted.eq_goal]
  intro index free
  exact (moves.others index fun array present covers =>
    free ⟨array, present, covers⟩).symm

/-- The loops end with the relabelled block. -/
theorem relabel_ok
    (regular : symmetry.Regular size)
    (relabels : symmetry.Relabels permutation source goal) :
    symmetry.relabel (Heap.listing symmetry.size (image permutation)) source =
      .ok goal := by
  obtain ⟨renamed, renames, moves⟩ := relabels
  apply bind_eq_ok.mpr
  exact ⟨renamed, foldlM_relabelMember regular renames,
    foldlM_moveElements regular moves⟩

end Passes

end PermutationSymmetry
end StateSpace
