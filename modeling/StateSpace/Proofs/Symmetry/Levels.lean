import StateSpace.Proofs.Symmetry.Overlap

/-!
# Relabelling arrays inside arrays

An array inside an element of another one has narrower elements, so the arrays
with elements of one width make up a level. A relabelling of nested arrays
moves the elements on all levels: a bit goes to the images of its positions in
all arrays that have it. A move on one level leaves the positions on the others
alone, provided that what is registered in one element of an array is registered
in all of them.
-/

namespace StateSpace

open Equiv

namespace PermutationSymmetry

variable
  {size : Nat}
  (symmetry : PermutationSymmetry)

/-- What is registered inside one element of a registered array is registered in
all of its elements. -/
structure Complete : Prop where
  arrays : ∀ array ∈ symmetry.arrays, ∀ width relative,
    relative + symmetry.size * width ≤ array.2 → ∀ position < symmetry.size,
      (array.1 + position * array.2 + relative, width) ∈ symmetry.arrays →
        ∀ other < symmetry.size,
          (array.1 + other * array.2 + relative, width) ∈ symmetry.arrays
  members : ∀ array ∈ symmetry.arrays, ∀ width relative, relative + width ≤ array.2 →
    ∀ position < symmetry.size,
      (array.1 + position * array.2 + relative, width) ∈ symmetry.members →
        ∀ other < symmetry.size,
          (array.1 + other * array.2 + relative, width) ∈ symmetry.members

/-- An array that lies inside an element of another one. -/
def Inside (inner outer : Nat × Nat) : Prop :=
  ∃ position < symmetry.size, ∃ relative,
    inner.1 = outer.1 + position * outer.2 + relative ∧
      relative + symmetry.size * inner.2 ≤ outer.2

/-- The array with elements of a width that has a bit. -/
def level (width index : Nat) : Option (Nat × Nat) :=
  symmetry.arrays.find? fun array =>
    array.2 = width ∧ Covers array.1 (symmetry.size * array.2) index

/-- The position of the element of a width that has a bit. -/
def position (width index : Nat) : Option Nat :=
  (symmetry.level width index).map fun array => (index - array.1) / array.2

/-- The place from which a move on one level takes a bit. -/
def movedFrom
    (permutation : Perm (Fin symmetry.size))
    (width index : Nat) : Nat :=
  match symmetry.level width index with
  | some array => symmetry.preimage permutation array index
  | none => index

/-- The place from which a move on all levels takes a bit. -/
def origin
    (permutation : Perm (Fin symmetry.size))
    (index : Nat) : Nat :=
  (symmetry.arrays.map Prod.snd).dedup.foldl
    (fun place width => symmetry.movedFrom permutation width place) index

/-- A block relabelled by a permutation: its members, and its arrays on all
levels. -/
def RelabelsNested
    (permutation : Perm (Fin symmetry.size))
    (source target : Block size) : Prop :=
  ∃ renamed, symmetry.Renames permutation source renamed ∧
    ∀ index, target.bit index = renamed.bit (symmetry.origin permutation index)

/-- The place of a bit in the member that has it. -/
def memberPlace (index : Nat) : Option Nat :=
  (symmetry.members.find? fun member => Covers member.1 member.2 index).map
    fun member => index - member.1

section Levels

variable
  {symmetry}
  {layout : Layout}

theorem level_eq_some
    {width index : Nat}
    {array : Nat × Nat}
    (found : symmetry.level width index = some array) :
    array ∈ symmetry.arrays ∧ array.2 = width ∧
      Covers array.1 (symmetry.size * array.2) index := by
  have holds := List.find?_some found
  exact ⟨List.mem_of_find?_eq_some found, of_decide_eq_true holds⟩

theorem level_of_free
    {index : Nat}
    (free : ∀ array ∈ symmetry.arrays, ¬ Covers array.1 (symmetry.size * array.2) index)
    (width : Nat) :
    symmetry.level width index = none := by
  cases found : symmetry.level width index with
  | none => rfl
  | some array =>
      obtain ⟨present, -, covers⟩ := level_eq_some found
      exact absurd covers (free array present)

theorem position_of_notMem
    {width : Nat}
    (noLevel : width ∉ symmetry.arrays.map Prod.snd)
    (index : Nat) :
    symmetry.position width index = none := by
  have nowhere : symmetry.level width index = none := by
    cases found : symmetry.level width index with
    | none => rfl
    | some array =>
        obtain ⟨present, rfl, -⟩ := level_eq_some found
        exact absurd (List.mem_map_of_mem present) noLevel
  rw [position, nowhere, Option.map_none]

theorem memberPlace_of_free
    {index : Nat}
    (free : ∀ member ∈ symmetry.members, ¬ Covers member.1 member.2 index) :
    symmetry.memberPlace index = none := by
  have missing :
      symmetry.members.find? (fun member => Covers member.1 member.2 index) = none :=
    List.find?_eq_none.mpr fun member present holds =>
      free member present (of_decide_eq_true holds)
  rw [memberPlace, missing, Option.map_none]

/-! ## Where arrays lie -/

/-- No array reaches beyond the block. -/
theorem OfLayout.free_beyond
    (placed : layout.Placed)
    (registered : OfLayout layout symmetry)
    {index : Nat}
    (beyond : 8 * layout.bytes ≤ index) :
    ∀ array ∈ symmetry.arrays, ¬ Covers array.1 (symmetry.size * array.2) index := by
  intro array present covers
  have fits := ((registered.single_regular placed present).arraysFit array
    (List.mem_singleton_self array)).inside
  simp only [single] at fits
  unfold Covers at covers
  omega

/-- Two registered arrays are nested, or they share no bit. -/
theorem OfLayout.arrays_nested
    (placed : layout.Placed)
    (registered : OfLayout layout symmetry)
    {first second : Nat × Nat}
    (firstPresent : first ∈ symmetry.arrays)
    (secondPresent : second ∈ symmetry.arrays) :
    first = second ∨ symmetry.Inside first second ∨ symmetry.Inside second first ∨
      ShareNoBit first.1 (symmetry.size * first.2) second.1
        (symmetry.size * second.2) := by
  obtain ⟨firstIndex, firstElement, firstOffset, firstViewed, firstSized, rfl⟩ :=
    registered.arrays first firstPresent
  obtain ⟨secondIndex, secondElement, secondOffset, secondViewed, secondSized, rfl⟩ :=
    registered.arrays second secondPresent
  have inside {outer inner : Scalar} {outerElement innerElement : Ty} {start place : Nat}
      (outerSized : outer.count = symmetry.size)
      (innerSized : inner.count = symmetry.size)
      (nested : Ty.Contains (.array outer outerElement) start
        (.array inner innerElement) place) :
      (place, innerElement.width) = (start, outerElement.width) ∨
        symmetry.Inside (place, innerElement.width) (start, outerElement.width) := by
    cases nested with
    | whole => exact .inl rfl
    | @element _ _ _ _ position _ below within =>
        have bounds := within.within
        simp only [Ty.width, innerSized] at bounds
        refine .inr ⟨position, outerSized ▸ below,
          place - (start + position * outerElement.width), ?_, ?_⟩
        · simp only
          omega
        · simp only
          omega
  rcases placed.nested_or_apart firstViewed secondViewed with nested | nested | apart
  · rcases inside firstSized secondSized nested with same | within
    · exact .inl same.symm
    · exact .inr (.inr (.inl within))
  · rcases inside secondSized firstSized nested with same | within
    · exact .inl same
    · exact .inr (.inl within)
  · simp only [View.width, Ty.width, firstSized, secondSized] at apart
    exact .inr (.inr (.inr apart.shareNoBit))

/-- An array inside an element has narrower elements. -/
theorem Inside.narrower
    (several : 2 ≤ symmetry.size)
    {inner outer : Nat × Nat}
    (inside : symmetry.Inside inner outer)
    (nonempty : 0 < inner.2) :
    inner.2 < outer.2 := by
  obtain ⟨_, _, relative, _, within⟩ := inside
  have twice := Nat.mul_le_mul_right inner.2 several
  omega

/-- A bit belongs to one array on each level. -/
theorem OfLayout.level_unique
    (placed : layout.Placed)
    (registered : OfLayout layout symmetry)
    (several : 2 ≤ symmetry.size)
    {first second : Nat × Nat}
    {index : Nat}
    (firstPresent : first ∈ symmetry.arrays)
    (secondPresent : second ∈ symmetry.arrays)
    (firstCovers : Covers first.1 (symmetry.size * first.2) index)
    (secondCovers : Covers second.1 (symmetry.size * second.2) index)
    (sameWidth : first.2 = second.2) :
    first = second := by
  have nonempty : 0 < first.2 := by
    rcases Nat.eq_zero_or_pos first.2 with empty | nonempty
    · rw [empty, Nat.mul_zero] at firstCovers
      unfold Covers at firstCovers
      omega
    · exact nonempty
  rcases registered.arrays_nested placed firstPresent secondPresent with
    same | inside | inside | apart
  · exact same
  · have narrower := inside.narrower several nonempty
    omega
  · have narrower := inside.narrower several (by omega)
    omega
  · exact absurd secondCovers (apart index firstCovers)

theorem OfLayout.level_of_covers
    (placed : layout.Placed)
    (registered : OfLayout layout symmetry)
    (several : 2 ≤ symmetry.size)
    {array : Nat × Nat}
    {index : Nat}
    (present : array ∈ symmetry.arrays)
    (covers : Covers array.1 (symmetry.size * array.2) index) :
    symmetry.level array.2 index = some array := by
  cases found : symmetry.level array.2 index with
  | none =>
    exact absurd (decide_eq_true ⟨rfl, covers⟩)
      (List.find?_eq_none.mp found array present)
  | some other =>
      obtain ⟨otherPresent, sameWidth, otherCovers⟩ := level_eq_some found
      rw [registered.level_unique placed several otherPresent present otherCovers
        covers sameWidth]

/-- A bit has a position on a level if it lies in the element there of one of
the arrays. -/
theorem OfLayout.position_eq_some
    (placed : layout.Placed)
    (registered : OfLayout layout symmetry)
    (several : 2 ≤ symmetry.size)
    {width index place : Nat} :
    symmetry.position width index = some place ↔
      place < symmetry.size ∧ ∃ start, (start, width) ∈ symmetry.arrays ∧
        ∃ relative < width, index = start + place * width + relative := by
  constructor
  · intro found
    obtain ⟨⟨start, sameWidth⟩, onLevel, rfl⟩ := Option.map_eq_some_iff.mp found
    obtain ⟨present, rfl, covers⟩ := level_eq_some onLevel
    obtain ⟨other, inside, relative, within, rfl⟩ := exists_position covers
    rw [position_element within]
    exact ⟨inside, start, present, relative, within, rfl⟩
  · rintro ⟨inside, start, present, relative, within, rfl⟩
    have covers := covers_element start inside within
    rw [position, registered.level_of_covers placed several present covers,
      Option.map_some, position_element within]

/-- A bit of an array has a position on the level of the array. -/
theorem OfLayout.position_of_covers
    (placed : layout.Placed)
    (registered : OfLayout layout symmetry)
    (several : 2 ≤ symmetry.size)
    {array : Nat × Nat}
    {index : Nat}
    (present : array ∈ symmetry.arrays)
    (covers : Covers array.1 (symmetry.size * array.2) index) :
    ∃ place < symmetry.size, symmetry.position array.2 index = some place := by
  obtain ⟨place, inside, relative, within, rfl⟩ := exists_position covers
  exact ⟨place, inside, (registered.position_eq_some placed several).mpr
    ⟨inside, array.1, present, relative, within, rfl⟩⟩

/-- A bit has a place in a member if a member has it. -/
theorem OfLayout.memberPlace_eq_some
    (placed : layout.Placed)
    (registered : OfLayout layout symmetry)
    {index place : Nat} :
    symmetry.memberPlace index = some place ↔
      ∃ member ∈ symmetry.members, Covers member.1 member.2 index ∧
        index = member.1 + place := by
  constructor
  · intro found
    obtain ⟨member, here, rfl⟩ := Option.map_eq_some_iff.mp found
    have holds := List.find?_some here
    have covers : Covers member.1 member.2 index := of_decide_eq_true holds
    exact ⟨member, List.mem_of_find?_eq_some here, covers,
      (Nat.add_sub_cancel' covers.1).symm⟩
  · rintro ⟨member, present, covers, rfl⟩
    rw [memberPlace]
    cases found : symmetry.members.find? fun member =>
      Covers member.1 member.2 (_ + place) with
    | none =>
      exact absurd (decide_eq_true covers) (List.find?_eq_none.mp found member present)
    | some other =>
        have holds := List.find?_some found
        have otherCovers : Covers other.1 other.2 (member.1 + place) :=
          of_decide_eq_true holds
        -- Two members that share a bit lie in one place.
        obtain ⟨leaf, offset, viewed, rfl⟩ := registered.members member present
        obtain ⟨otherLeaf, otherOffset, otherViewed, rfl⟩ :=
          registered.members other (List.mem_of_find?_eq_some found)
        rcases placed.scalars viewed otherViewed with ⟨rfl, rfl⟩ | apart
        · simp
        · exact absurd otherCovers (apart.shareNoBit _ covers)

/-- All bits of a scalar have the same positions. -/
theorem OfLayout.position_scalar
    (placed : layout.Placed)
    (registered : OfLayout layout symmetry)
    {leaf : Scalar}
    {offset index : Nat}
    (viewed : layout.HasView ⟨.scalar leaf, offset⟩)
    (inside : index < leaf.width)
    (width : Nat) :
    symmetry.position width (offset + index) = symmetry.position width offset := by
  have sameLevel : symmetry.level width (offset + index) =
      symmetry.level width offset := by
    refine List.find?_congr fun array present => ?_
    rw [decide_eq_decide, (registered.covers_scalar placed viewed inside present).1]
  rw [position, position, sameLevel]
  cases found : symmetry.level width offset with
  | none => rfl
  | some array =>
      obtain ⟨present, -, covers⟩ := level_eq_some found
      rw [Option.map_some, Option.map_some,
        (registered.covers_scalar placed viewed inside present).2 covers]

/-! ## Moves inside one array -/

/-- A part of an element that has a bit of an element is a part of that one. -/
theorem element_unique
    {offset width first second start length relative : Nat}
    (part : start + length ≤ width)
    (within : relative < width)
    (covers : Covers (offset + first * width + start) length
      (offset + second * width + relative)) :
    first = second := by
  unfold Covers at covers
  refine @position_unique offset width first second
    (offset + second * width + relative) ?_ ?_
  · unfold Covers
    omega
  · unfold Covers
    omega

section Moves

variable
  (placed : layout.Placed)
  (registered : OfLayout layout symmetry)
  (complete : symmetry.Complete)
  (several : 2 ≤ symmetry.size)
  {array : Nat × Nat}
  (present : array ∈ symmetry.arrays)
  {home other relative : Nat}
  (inside : home < symmetry.size)
  (otherInside : other < symmetry.size)
  (within : relative < array.2)

include placed registered complete present inside otherInside within

include several in
/-- On another level a bit has the position of its sibling in another element. -/
theorem OfLayout.position_sibling
    {width place : Nat}
    (otherLevel : width ≠ array.2)
    (found : symmetry.position width (array.1 + home * array.2 + relative) =
      some place) :
    symmetry.position width (array.1 + other * array.2 + relative) = some place := by
  rw [registered.position_eq_some placed several] at found ⊢
  obtain ⟨placeInside, start, onLevel, distance, distanceWithin, same⟩ := found
  have covers := covers_element array.1 inside within
  rcases registered.arrays_nested placed onLevel present
    with equal | inner | outer | apart
  · exact absurd (congrArg Prod.snd equal) otherLevel
  · -- The array on the level lies inside one of the elements, and so does its sibling.
    obtain ⟨position, below, offset, rfl, innerWithin⟩ := inner
    simp only at innerWithin same
    have onLevelCovers := covers_element (array.1 + position * array.2 + offset)
      placeInside distanceWithin
    rw [← same] at onLevelCovers
    obtain rfl := element_unique innerWithin within onLevelCovers
    refine ⟨placeInside, _,
      complete.arrays array present width offset innerWithin position below
      onLevel other otherInside, distance, distanceWithin, ?_⟩
    omega
  · -- All of the array lies inside one element of the array on the level.
    obtain ⟨position, below, offset, arrayStart, arrayWithin⟩ := outer
    simp only at arrayStart arrayWithin
    have otherStep := element_within array.2 otherInside
    rw [arrayStart] at covers same
    rw [same] at covers
    obtain rfl := element_unique arrayWithin distanceWithin covers
    refine ⟨placeInside, start, onLevel,
      offset + other * array.2 + relative, by omega, by omega⟩
  · refine absurd covers (apart _ ?_)
    rw [same]
    exact covers_element start placeInside distanceWithin

/-- A bit has the same place in its member as its sibling in another element. -/
theorem OfLayout.memberPlace_sibling
    {place : Nat}
    (found : symmetry.memberPlace (array.1 + home * array.2 + relative) = some place) :
    symmetry.memberPlace (array.1 + other * array.2 + relative) = some place := by
  rw [registered.memberPlace_eq_some placed] at found ⊢
  obtain ⟨⟨start, width⟩, isMember, covers, same⟩ := found
  obtain ⟨leaf, _, leafViewed, equal⟩ := registered.members _ isMember
  cases equal
  obtain ⟨_, element, _, arrayViewed, sized, rfl⟩ := registered.arrays array present
  rcases placed.scalar_array leafViewed arrayViewed with
    ⟨position, below, offset, rfl, memberWithin⟩ | apart
  · rw [sized] at below
    obtain rfl := element_unique memberWithin within covers
    have sibling :=
      complete.members _ present leaf.width offset memberWithin position below
      isMember other otherInside
    simp only at same within covers sibling ⊢
    unfold Covers at covers
    refine ⟨_, sibling, ?_, by omega⟩
    unfold Covers
    omega
  · rw [sized] at apart
    exact absurd (covers_element _ inside within) (apart.shareNoBit _ covers)

include several in
/-- A move inside one array changes the position on the level of the array, and
no other one. -/
theorem OfLayout.position_moved (width : Nat) :
    symmetry.position width (array.1 + other * array.2 + relative) =
      if width = array.2 then some other
      else symmetry.position width (array.1 + home * array.2 + relative) := by
  split
  · rename_i sameLevel
    subst sameLevel
    exact (registered.position_eq_some placed several).mpr
      ⟨otherInside, array.1, present, relative, within, rfl⟩
  · rename_i otherLevel
    apply Option.ext
    intro place
    exact ⟨
      registered.position_sibling placed complete several present otherInside inside
        within otherLevel,
      registered.position_sibling placed complete several present inside otherInside
        within otherLevel⟩

/-- A move inside one array does not change the place in a member. -/
theorem OfLayout.memberPlace_moved :
    symmetry.memberPlace (array.1 + other * array.2 + relative) =
      symmetry.memberPlace (array.1 + home * array.2 + relative) := by
  apply Option.ext
  intro place
  exact ⟨
    registered.memberPlace_sibling placed complete present otherInside inside within,
    registered.memberPlace_sibling placed complete present inside otherInside within⟩

end Moves

/-! ## Moves on levels -/

section Origins

variable
  {permutation : Perm (Fin symmetry.size)}
  (placed : layout.Placed)
  (registered : OfLayout layout symmetry)
  (complete : symmetry.Complete)
  (several : 2 ≤ symmetry.size)

include placed registered complete

include several in
/-- What is taken from the preimage in an array has the position there on the
level of the array, and its own position on the others. -/
theorem OfLayout.position_preimage
    {array : Nat × Nat}
    {index : Nat}
    (present : array ∈ symmetry.arrays)
    (covers : Covers array.1 (symmetry.size * array.2) index)
    (width : Nat) :
    symmetry.position width (symmetry.preimage permutation array index) =
      if width = array.2 then (symmetry.position width index).map (image permutation⁻¹)
      else symmetry.position width index := by
  obtain ⟨home, inside, relative, within, rfl⟩ := exists_position covers
  rw [preimage_element within,
    registered.position_moved placed complete several present inside
    (image_lt _ inside) within]
  split
  · rename_i sameLevel
    rw [registered.position_moved placed complete several present inside inside within,
      if_pos sameLevel, Option.map_some]
  · rfl

theorem OfLayout.memberPlace_preimage
    {array : Nat × Nat}
    {index : Nat}
    (present : array ∈ symmetry.arrays)
    (covers : Covers array.1 (symmetry.size * array.2) index) :
    symmetry.memberPlace (symmetry.preimage permutation array index) =
      symmetry.memberPlace index := by
  obtain ⟨home, inside, relative, within, rfl⟩ := exists_position covers
  rw [preimage_element within]
  exact registered.memberPlace_moved placed complete present inside
    (image_lt _ inside) within

include several in
theorem OfLayout.position_movedFrom (width level index : Nat) :
    symmetry.position width (symmetry.movedFrom permutation level index) =
      if width = level then (symmetry.position width index).map (image permutation⁻¹)
      else symmetry.position width index := by
  unfold movedFrom
  cases found : symmetry.level level index with
  | none =>
      simp only
      split
      · rename_i sameLevel
        simp [position, sameLevel, found]
      · rfl
  | some array =>
      obtain ⟨present, rfl, covers⟩ := level_eq_some found
      exact registered.position_preimage placed complete several present covers width

theorem OfLayout.memberPlace_movedFrom (level index : Nat) :
    symmetry.memberPlace (symmetry.movedFrom permutation level index) =
      symmetry.memberPlace index := by
  unfold movedFrom
  cases found : symmetry.level level index with
  | none => rfl
  | some array =>
      obtain ⟨present, -, covers⟩ := level_eq_some found
      exact registered.memberPlace_preimage placed complete present covers

include several in
/-- Moves on different levels change the positions on these levels. -/
theorem OfLayout.position_foldl
    {levels : List Nat}
    (different : levels.Nodup)
    (width index : Nat) :
    symmetry.position width
        (levels.foldl
          (fun place level => symmetry.movedFrom permutation level place) index) =
      if width ∈ levels then (symmetry.position width index).map (image permutation⁻¹)
      else symmetry.position width index := by
  induction levels generalizing index with
  | nil => simp
  | cons level rest inductionHypothesis =>
      obtain ⟨notLater, restDifferent⟩ := List.nodup_cons.mp different
      rw [List.foldl_cons, inductionHypothesis restDifferent,
        registered.position_movedFrom placed complete several]
      by_cases sameLevel : width = level
      · subst sameLevel
        simp [notLater]
      · simp [sameLevel]

include several in
/-- The place from which a bit is taken has the preimages of all positions of
the bit. -/
theorem OfLayout.position_origin (width index : Nat) :
    symmetry.position width (symmetry.origin permutation index) =
      (symmetry.position width index).map (image permutation⁻¹) := by
  rw [origin, registered.position_foldl placed complete several (List.nodup_dedup _)]
  split
  · rfl
  · rename_i noLevel
    rw [position_of_notMem fun isLevel => noLevel (List.mem_dedup.mpr isLevel),
      Option.map_none]

include several in
/-- A bit has a sibling with one position on given levels and its own positions
on the others. -/
theorem OfLayout.exists_sibling
    {place : Nat}
    (inside : place < symmetry.size)
    (levels : List Nat)
    (index : Nat) :
    ∃ sibling, symmetry.memberPlace sibling = symmetry.memberPlace index ∧ ∀ width,
      symmetry.position width sibling =
        if width ∈ levels then (symmetry.position width index).map fun _ => place
        else symmetry.position width index := by
  induction levels with
  | nil => exact ⟨index, rfl, by simp⟩
  | cons level rest inductionHypothesis =>
      obtain ⟨earlier, sameMember, positions⟩ := inductionHypothesis
      obtain ⟨permutation, moved⟩ : ∃ permutation : Perm (Fin symmetry.size),
          (symmetry.position level earlier).map (image permutation⁻¹) =
            (symmetry.position level earlier).map fun _ => place := by
        cases found : symmetry.position level earlier with
        | none => exact ⟨1, rfl⟩
        | some home =>
            have homeInside := ((registered.position_eq_some placed several).mp found).1
            refine ⟨swap ⟨home, homeInside⟩ ⟨place, inside⟩, ?_⟩
            rw [Option.map_some, Option.map_some,
              image_fin _ ⟨home, homeInside⟩, swap_inv, swap_apply_left]
      refine ⟨symmetry.movedFrom permutation level earlier, ?_, fun width => ?_⟩
      · rw [registered.memberPlace_movedFrom placed complete, sameMember]
      · rw [registered.position_movedFrom placed complete several]
        by_cases sameLevel : width = level
        · subst sameLevel
          rw [if_pos rfl, moved, positions]
          split <;> simp [Function.comp_def]
        · simp [sameLevel, positions]

include several in
/-- A bit has a sibling with one position on all its levels. -/
theorem OfLayout.exists_diagonal
    {place : Nat}
    (inside : place < symmetry.size)
    (index : Nat) :
    ∃ sibling, symmetry.memberPlace sibling = symmetry.memberPlace index ∧ ∀ width,
      symmetry.position width sibling =
        (symmetry.position width index).map fun _ => place := by
  obtain ⟨sibling, sameMember, positions⟩ :=
    registered.exists_sibling placed complete several
    inside (symmetry.arrays.map Prod.snd) index
  refine ⟨sibling, sameMember, fun width => (positions width).trans ?_⟩
  split
  · rfl
  · rename_i noLevel
    rw [position_of_notMem noLevel, Option.map_none]

theorem OfLayout.memberPlace_origin (index : Nat) :
    symmetry.memberPlace (symmetry.origin permutation index) =
      symmetry.memberPlace index := by
  unfold origin
  induction (symmetry.arrays.map Prod.snd).dedup generalizing index with
  | nil => rfl
  | cons level rest inductionHypothesis =>
      rw [List.foldl_cons, inductionHypothesis,
        registered.memberPlace_movedFrom placed complete]

end Origins

/-! ## Relabelling on all levels -/

section Nested

variable
  {permutation : Perm (Fin symmetry.size)}
  {source target : Block size}

/-- A bit that no move on a level takes from elsewhere stays. -/
theorem origin_eq_self
    {index : Nat}
    (stays : ∀ width, symmetry.movedFrom permutation width index = index) :
    symmetry.origin permutation index = index := by
  unfold origin
  induction (symmetry.arrays.map Prod.snd).dedup with
  | nil => rfl
  | cons width rest inductionHypothesis =>
      rw [List.foldl_cons, stays]
      exact inductionHypothesis

/-- Bits outside all arrays stay where they are. -/
theorem origin_of_free
    {index : Nat}
    (free : ∀ array ∈ symmetry.arrays,
      ¬ Covers array.1 (symmetry.size * array.2) index) :
    symmetry.origin permutation index = index := by
  refine origin_eq_self fun width => ?_
  rw [movedFrom, level_of_free free]

/-- The identity relabels every block to itself. -/
theorem RelabelsNested.refl (source : Block size) :
    symmetry.RelabelsNested 1 source source := by
  refine ⟨source, ⟨fun _ _ => by simp, fun _ _ => rfl⟩, fun index => ?_⟩
  rw [origin_eq_self]
  intro width
  unfold movedFrom
  cases found : symmetry.level width index with
  | none => rfl
  | some array =>
      obtain ⟨-, -, covers⟩ := level_eq_some found
      obtain ⟨position, inside, relative, within, rfl⟩ := exists_position covers
      simp only [preimage_element within, inv_one, image_one, Perm.one_apply]

/-- Every permutation relabels every block to exactly one block. -/
theorem OfLayout.existsUnique_relabelsNested
    (placed : layout.Placed)
    (registered : OfLayout layout symmetry)
    (wide : symmetry.Wide)
    (permutation : Perm (Fin symmetry.size))
    (source : Block layout.bytes) :
    ∃! target, symmetry.RelabelsNested permutation source target := by
  have regular := registered.fields_regular placed wide
  obtain ⟨renamed, renames⟩ : ∃ renamed,
      symmetry.fields.Renames permutation source renamed :=
    regular.exists_renames _ source
  refine ⟨.ofBits layout.bytes fun index =>
    renamed.bit (symmetry.origin permutation index),
    ⟨renamed, ⟨renames.members, renames.others⟩, fun index => ?_⟩, ?_⟩
  · rcases Nat.lt_or_ge index (8 * layout.bytes) with inside | beyond
    · exact Block.bit_ofBits _ inside
    · rw [origin_of_free (registered.free_beyond placed beyond),
        Block.bit_eq_false _ beyond, Block.bit_eq_false _ beyond]
  · rintro other ⟨otherRenamed, otherRenames, bits⟩
    obtain rfl := otherRenames.unique ⟨renames.members, renames.others⟩
    ext index inside
    rw [bits, Block.bit_ofBits _ inside]

/-- Arrays that do not overlap: any two are the same or share no bit. -/
def ArraysApart (symmetry : PermutationSymmetry) : Prop :=
  ∀ first ∈ symmetry.arrays, ∀ second ∈ symmetry.arrays, first = second ∨
    ShareNoBit first.1 (symmetry.size * first.2) second.1 (symmetry.size * second.2)

/-- Arrays that do not overlap make up one level each. -/
theorem movedFrom_of_apart
    (apart : symmetry.ArraysApart)
    {array : Nat × Nat}
    (present : array ∈ symmetry.arrays)
    {index : Nat}
    (covers : Covers array.1 (symmetry.size * array.2) index)
    (width : Nat) :
    symmetry.movedFrom permutation width index =
      if array.2 = width then symmetry.preimage permutation array index else index := by
  unfold movedFrom
  cases found : symmetry.level width index with
  | none =>
      refine (if_neg fun sameWidth => ?_).symm
      exact List.find?_eq_none.mp found array present
        (decide_eq_true ⟨sameWidth, covers⟩)
  | some other =>
      obtain ⟨otherPresent, rfl, otherCovers⟩ := level_eq_some found
      rcases apart array present other otherPresent with rfl | free
      · exact (if_pos rfl).symm
      · exact absurd otherCovers (free index covers)

theorem covers_preimage
    {array : Nat × Nat}
    {index : Nat}
    (covers : Covers array.1 (symmetry.size * array.2) index) :
    Covers array.1 (symmetry.size * array.2)
      (symmetry.preimage permutation array index) := by
  obtain ⟨position, inside, relative, within, rfl⟩ := exists_position covers
  rw [preimage_element within]
  exact covers_element _ (image_lt _ inside) within

theorem origin_of_apart
    (apart : symmetry.ArraysApart)
    {array : Nat × Nat}
    (present : array ∈ symmetry.arrays)
    {index : Nat}
    (covers : Covers array.1 (symmetry.size * array.2) index) :
    symmetry.origin permutation index = symmetry.preimage permutation array index := by
  have fold {levels : List Nat} (different : levels.Nodup) (index : Nat)
      (covers : Covers array.1 (symmetry.size * array.2) index) :
      levels.foldl
        (fun place width => symmetry.movedFrom permutation width place) index =
        if array.2 ∈ levels then symmetry.preimage permutation array index
          else index := by
    induction levels generalizing index with
    | nil => simp
    | cons width rest inductionHypothesis =>
        obtain ⟨notLater, restDifferent⟩ := List.nodup_cons.mp different
        rw [List.foldl_cons, movedFrom_of_apart apart present covers]
        split
        · rename_i sameWidth
          subst sameWidth
          rw [inductionHypothesis restDifferent _ (covers_preimage covers),
            if_neg notLater, if_pos (List.mem_cons_self ..)]
        · rename_i otherWidth
          rw [inductionHypothesis restDifferent _ covers]
          simp [otherWidth]
  rw [origin, fold (List.nodup_dedup _) index covers,
    if_pos (List.mem_dedup.mpr (List.mem_map_of_mem present))]

/-- If no arrays overlap, there is nothing to a relabelling on all levels but the
moves of the arrays. -/
theorem Regular.relabelsNested_iff
    (regular : symmetry.Regular size) :
    symmetry.RelabelsNested permutation source target ↔
      symmetry.Relabels permutation source target := by
  have bit_origin {renamed moved : Block size}
      (moves : symmetry.Moves permutation renamed moved) (index : Nat) :
      moved.bit index = renamed.bit (symmetry.origin permutation index) := by
    by_cases covered : ∃ array ∈ symmetry.arrays,
      Covers array.1 (symmetry.size * array.2) index
    · obtain ⟨array, present, covers⟩ := covered
      rw [origin_of_apart regular.arraysApart present covers,
        moves.bit_preimage present covers]
    · have free : ∀ array ∈ symmetry.arrays,
          ¬ Covers array.1 (symmetry.size * array.2) index :=
        fun array present covers => covered ⟨array, present, covers⟩
      rw [origin_of_free free, moves.others index free]
  constructor
  · rintro ⟨renamed, renames, bits⟩
    obtain ⟨moved, moves⟩ := regular.exists_moves permutation renamed
    have same : target = moved := by
      ext index _
      rw [bits, bit_origin moves]
    rw [same]
    exact ⟨renamed, renames, moves⟩
  · rintro ⟨renamed, renames, moves⟩
    exact ⟨renamed, renames, bit_origin moves⟩

end Nested

end Levels

end PermutationSymmetry
end StateSpace
