import StateSpace.Proofs.Bits.Bitwise
import StateSpace.Symmetry.Permutation

/-!
# Relabellings form a group action

A permutation of the identities relabels a state in two passes: every member
field that holds an identity takes its image, and the elements of every array
then move to the images of their positions. For places that do not cut into
one another, each pass has one result. The passes commute as long as a member
inside an element has its siblings in the other elements, so permutations act
on states as a group.
-/

namespace StateSpace

open Equiv

/-- A permutation of identities as one of all numbers, which leaves every
number alone that is no identity. -/
def image
    {count : Nat}
    (permutation : Perm (Fin count)) : Perm Nat :=
  permutation.extendDomain Fin.equivSubtype

section Image

variable
  {count : Nat}
  (permutation : Perm (Fin count))

theorem image_fin (identity : Fin count) :
    image permutation identity = permutation identity :=
  Perm.extendDomain_apply_image permutation Fin.equivSubtype identity

theorem image_lt
    {identity : Nat}
    (inside : identity < count) :
    image permutation identity < count := by
  have moved := image_fin permutation ⟨identity, inside⟩
  rw [moved]
  exact (permutation _).isLt

theorem image_of_le
    {value : Nat}
    (outside : count ≤ value) :
    image permutation value = value :=
  Perm.extendDomain_apply_not_subtype permutation Fin.equivSubtype
    (Nat.not_lt.mpr outside)

@[simp] theorem image_one :
    image (1 : Perm (Fin count)) = 1 :=
  Perm.extendDomain_one Fin.equivSubtype

theorem image_mul (later earlier : Perm (Fin count)) :
    image (later * earlier) = image later * image earlier :=
  (Perm.extendDomain_mul Fin.equivSubtype later earlier).symm

theorem image_inv :
    image permutation⁻¹ = (image permutation)⁻¹ :=
  (Perm.extendDomain_inv permutation Fin.equivSubtype).symm

theorem image_inv_eq_iff {moved value : Nat} :
    image permutation⁻¹ moved = value ↔ moved = image permutation value := by
  rw [image_inv]
  exact Perm.inv_eq_iff_eq

/-- The image of a number fits the fields that are wide enough for both the
number and all identities. -/
theorem image_lt_pow
    {value width : Nat}
    (wide : count ≤ 2 ^ width)
    (small : value < 2 ^ width) :
    image permutation value < 2 ^ width := by
  rcases Nat.lt_or_ge value count with inside | outside
  · exact Nat.lt_of_lt_of_le (image_lt permutation inside) wide
  · rw [image_of_le permutation outside]
    exact small

/-- A permutation of all numbers that moves identities only is the image of one
of the identities. -/
theorem exists_image_eq
    {placed : Perm Nat}
    (fixed : ∀ value, count ≤ value → placed value = value) :
    ∃ permutation : Perm (Fin count), image permutation = placed := by
  have inside : ∀ value, placed value < count ↔ value < count := by
    intro value
    constructor
    · intro below
      by_contra above
      rw [fixed value (Nat.not_lt.mp above)] at below
      exact above below
    · intro below
      by_contra above
      have stays := placed.injective (fixed (placed value) (Nat.not_lt.mp above))
      rw [stays] at above
      exact above below
  refine ⟨(Fin.equivSubtype.symm).permCongr (placed.subtypePerm inside), ?_⟩
  ext value
  rcases Nat.lt_or_ge value count with below | above
  · have moved := image_fin
      ((Fin.equivSubtype.symm).permCongr (placed.subtypePerm inside)) ⟨value, below⟩
    rw [moved]
    rfl
  · rw [image_of_le _ above, fixed value above]

end Image

namespace PermutationSymmetry

variable
  {blockSize : Nat}
  (symmetry : PermutationSymmetry)

/-! ## What a relabelling is -/

/-- A block whose members hold the images of what they held. -/
structure Renames
    (permutation : Perm (Fin symmetry.size))
    (source renamed : Block blockSize) : Prop where
  members : ∀ member ∈ symmetry.members,
    renamed.extract member.1 member.2 =
      image permutation (source.extract member.1 member.2)
  others : ∀ index,
    (∀ member ∈ symmetry.members, ¬ Covers member.1 member.2 index) →
      renamed.bit index = source.bit index

/-- A block where the element of an array at a position is the former element
at the position's preimage. -/
structure Moves
    (permutation : Perm (Fin symmetry.size))
    (source moved : Block blockSize) : Prop where
  elements : ∀ array ∈ symmetry.arrays, ∀ position < symmetry.size, ∀ index < array.2,
    moved.bit (array.1 + image permutation position * array.2 + index) =
      source.bit (array.1 + position * array.2 + index)
  others : ∀ index,
    (∀ array ∈ symmetry.arrays, ¬ Covers array.1 (symmetry.size * array.2) index) →
      moved.bit index = source.bit index

/-- A block relabelled by a permutation: first its members, then its arrays. -/
def Relabels
    (permutation : Perm (Fin symmetry.size))
    (source target : Block blockSize) : Prop :=
  ∃ renamed, symmetry.Renames permutation source renamed ∧
    symmetry.Moves permutation renamed target

/-- Places that a relabelling can go by: fields that have room for every
identity, and fields and arrays that do not cut into one another. -/
structure Regular (blockSize : Nat) : Prop where
  narrow : ∀ member ∈ symmetry.members, member.2 ≤ 64
  wide : ∀ member ∈ symmetry.members, symmetry.size ≤ 2 ^ member.2
  membersFit : ∀ member ∈ symmetry.members, Fits blockSize member.1 member.2
  arraysFit : ∀ array ∈ symmetry.arrays,
    Fits blockSize array.1 (symmetry.size * array.2)
  membersApart : ∀ first ∈ symmetry.members, ∀ second ∈ symmetry.members,
    first = second ∨ ShareNoBit first.1 first.2 second.1 second.2
  arraysApart : ∀ first ∈ symmetry.arrays, ∀ second ∈ symmetry.arrays,
    first = second ∨
      ShareNoBit first.1 (symmetry.size * first.2) second.1 (symmetry.size * second.2)
  inElement : ∀ member ∈ symmetry.members, ∀ array ∈ symmetry.arrays,
    (∃ position < symmetry.size, ∃ relative,
      member.1 = array.1 + position * array.2 + relative ∧
        relative + member.2 ≤ array.2) ∨
      ShareNoBit member.1 member.2 array.1 (symmetry.size * array.2)
  siblings : ∀ array ∈ symmetry.arrays, ∀ width relative, relative + width ≤ array.2 →
    ∀ position < symmetry.size,
      (array.1 + position * array.2 + relative, width) ∈ symmetry.members →
        ∀ other < symmetry.size,
          (array.1 + other * array.2 + relative, width) ∈ symmetry.members

/-! ## Places inside arrays -/

/-- A bit of an array is a bit of one of its elements. -/
theorem exists_position
    {offset count width index : Nat}
    (covers : Covers offset (count * width) index) :
    ∃ position < count, ∃ relative < width,
      index = offset + position * width + relative := by
  obtain ⟨low, high⟩ := covers
  have positive : 0 < width := by
    rcases Nat.eq_zero_or_pos width with empty | positive
    · rw [empty, Nat.mul_zero] at high
      omega
    · exact positive
  refine ⟨(index - offset) / width, ?_, (index - offset) % width,
    Nat.mod_lt _ positive, ?_⟩
  · apply (Nat.div_lt_iff_lt_mul positive).mpr
    omega
  · have whole := Nat.div_add_mod' (index - offset) width
    omega

/-- A bit of an element is a bit of the array. -/
theorem covers_element
    (offset : Nat)
    {count width position relative : Nat}
    (inside : position < count)
    (within : relative < width) :
    Covers offset (count * width) (offset + position * width + relative) := by
  have step := element_within width inside
  unfold Covers
  omega

/-- No bit belongs to two elements of an array. -/
theorem position_unique
    {offset width first second index : Nat}
    (firstCovers : Covers (offset + first * width) width index)
    (secondCovers : Covers (offset + second * width) width index) :
    first = second := by
  by_contra different
  exact (elements_apart different).shareNoBit index firstCovers secondCovers

/-! ## Each pass has one result -/

section Passes

variable
  {symmetry}
  {permutation : Perm (Fin symmetry.size)}
  {source : Block blockSize}

theorem Renames.unique
    {first second : Block blockSize}
    (firstRenames : symmetry.Renames permutation source first)
    (secondRenames : symmetry.Renames permutation source second) :
    first = second := by
  ext index _
  by_cases covered : ∃ member ∈ symmetry.members, Covers member.1 member.2 index
  · obtain ⟨member, present, covers⟩ := covered
    rw [first.bit_eq_testBit covers, second.bit_eq_testBit covers,
      firstRenames.members member present, secondRenames.members member present]
  · have free : ∀ member ∈ symmetry.members, ¬ Covers member.1 member.2 index :=
      fun member present covers => covered ⟨member, present, covers⟩
    rw [firstRenames.others index free, secondRenames.others index free]

/-- The element that a move puts at a position comes from the preimage of the
position. -/
theorem Moves.element
    {moved : Block blockSize}
    (moves : symmetry.Moves permutation source moved)
    {array : Nat × Nat}
    (present : array ∈ symmetry.arrays)
    {position index : Nat}
    (inside : position < symmetry.size)
    (within : index < array.2) :
    moved.bit (array.1 + position * array.2 + index) =
      source.bit (array.1 + image permutation⁻¹ position * array.2 + index) := by
  have back := moves.elements array present (image permutation⁻¹ position)
    (image_lt _ inside) index within
  have undone : image permutation (image permutation⁻¹ position) = position := by
    simp [image_inv]
  rw [undone] at back
  exact back

theorem Moves.unique
    {first second : Block blockSize}
    (firstMoves : symmetry.Moves permutation source first)
    (secondMoves : symmetry.Moves permutation source second) :
    first = second := by
  ext index _
  by_cases covered :
      ∃ array ∈ symmetry.arrays, Covers array.1 (symmetry.size * array.2) index
  · obtain ⟨array, present, covers⟩ := covered
    obtain ⟨position, inside, relative, within, rfl⟩ := exists_position covers
    rw [firstMoves.element present inside within,
      secondMoves.element present inside within]
  · have free : ∀ array ∈ symmetry.arrays,
        ¬ Covers array.1 (symmetry.size * array.2) index :=
      fun array present covers => covered ⟨array, present, covers⟩
    rw [firstMoves.others index free, secondMoves.others index free]

theorem Relabels.unique
    {first second : Block blockSize}
    (firstRelabels : symmetry.Relabels permutation source first)
    (secondRelabels : symmetry.Relabels permutation source second) :
    first = second := by
  obtain ⟨firstRenamed, firstRenames, firstMoves⟩ := firstRelabels
  obtain ⟨secondRenamed, secondRenames, secondMoves⟩ := secondRelabels
  obtain rfl := firstRenames.unique secondRenames
  exact firstMoves.unique secondMoves

end Passes

/-! ## Each pass has a result -/

section Results

variable
  {symmetry}
  (permutation : Perm (Fin symmetry.size))
  (source : Block blockSize)

theorem Regular.exists_renames
    (regular : symmetry.Regular blockSize) :
    ∃ renamed, symmetry.Renames permutation source renamed := by
  refine ⟨.patchwork symmetry.members (fun member => member) (fun member index =>
    (image permutation (source.extract member.1 member.2)).testBit (index - member.1))
      source,
    ?_, fun index free => Block.bit_patchwork_of_free free⟩
  intro member present
  apply Block.extract_eq
    (image_lt_pow permutation (regular.wide member present) (source.extract_lt _ _))
  intro index within
  have fits := (regular.membersFit member present).inside
  have covers : Covers member.1 member.2 (member.1 + index) := by
    unfold Covers
    omega
  rw [Block.bit_patchwork regular.membersApart present covers (by omega),
    Nat.add_sub_cancel_left]

theorem Regular.exists_moves
    (regular : symmetry.Regular blockSize) :
    ∃ moved, symmetry.Moves permutation source moved := by
  refine ⟨.patchwork symmetry.arrays (fun array => (array.1, symmetry.size * array.2))
    (fun array index => source.bit
      (array.1 + image permutation⁻¹ ((index - array.1) / array.2) * array.2
        + (index - array.1) % array.2)) source,
    ?_, fun index free => Block.bit_patchwork_of_free free⟩
  intro array present position inside index within
  have fits := (regular.arraysFit array present).inside
  have covers := covers_element array.1 (image_lt permutation inside) within
  have flat : array.1 + image permutation position * array.2 + index - array.1 =
      image permutation position * array.2 + index := by omega
  have quotient : (image permutation position * array.2 + index) / array.2 =
      image permutation position := by
    rw [Nat.mul_comm, Nat.mul_add_div (by omega), Nat.div_eq_of_lt within, Nat.add_zero]
  have undone : image permutation⁻¹ (image permutation position) = position := by
    simp [image_inv]
  rw [Block.bit_patchwork regular.arraysApart present covers
    (by unfold Covers at covers; omega),
    flat, quotient, undone, Nat.mul_add_mod_of_lt within]

/-- Every permutation relabels every block to exactly one block. -/
theorem Regular.existsUnique_relabels
    (regular : symmetry.Regular blockSize) :
    ∃! target, symmetry.Relabels permutation source target := by
  obtain ⟨renamed, renames⟩ := regular.exists_renames permutation source
  obtain ⟨moved, moves⟩ := regular.exists_moves permutation renamed
  exact ⟨moved, ⟨renamed, renames, moves⟩, fun _ other =>
    other.unique ⟨renamed, renames, moves⟩⟩

end Results

/-! ## The action of permutations -/

section Action

variable
  {symmetry}
  {earlier later permutation : Perm (Fin symmetry.size)}
  {source middle target : Block blockSize}

theorem Renames.trans
    (first : symmetry.Renames earlier source middle)
    (second : symmetry.Renames later middle target) :
    symmetry.Renames (later * earlier) source target where
  members := by
    intro member present
    rw [second.members member present, first.members member present, image_mul,
      Perm.mul_apply]
  others := by
    intro index free
    rw [second.others index free, first.others index free]

theorem Moves.trans
    (first : symmetry.Moves earlier source middle)
    (second : symmetry.Moves later middle target) :
    symmetry.Moves (later * earlier) source target where
  elements := by
    intro array present position inside index within
    rw [image_mul, Perm.mul_apply,
      second.elements array present _ (image_lt earlier inside) index within,
      first.elements array present position inside index within]
  others := by
    intro index free
    rw [second.others index free, first.others index free]

/-- A field inside an element comes from its sibling in the preimage. -/
theorem Moves.extract_element
    (moves : symmetry.Moves permutation source target)
    {array : Nat × Nat}
    (present : array ∈ symmetry.arrays)
    {position relative width : Nat}
    (inside : position < symmetry.size)
    (within : relative + width ≤ array.2) :
    target.extract (array.1 + position * array.2 + relative) width =
      source.extract
        (array.1 + image permutation⁻¹ position * array.2 + relative) width := by
  apply Block.extract_congr
  intro index inField
  rw [Nat.add_assoc, Nat.add_assoc (array.1 + _)]
  exact moves.element present inside (by omega)

/-- A field outside all arrays stays. -/
theorem Moves.extract_outside
    (moves : symmetry.Moves permutation source target)
    {offset width : Nat}
    (outside : ∀ array ∈ symmetry.arrays,
      ShareNoBit offset width array.1 (symmetry.size * array.2)) :
    target.extract offset width = source.extract offset width := by
  apply Block.extract_congr
  intro index inField
  apply moves.others
  intro array present
  exact outside array present _ (by unfold Covers; omega)

/-- A bit that no member has in one element of an array is one that no member
has in any other element. -/
theorem Regular.free_sibling
    (regular : symmetry.Regular blockSize)
    {array : Nat × Nat}
    (arrayPresent : array ∈ symmetry.arrays)
    {position other relative : Nat}
    (inside : position < symmetry.size)
    (otherInside : other < symmetry.size)
    (within : relative < array.2)
    (free : ∀ member ∈ symmetry.members,
      ¬ Covers member.1 member.2 (array.1 + position * array.2 + relative)) :
    ∀ member ∈ symmetry.members,
      ¬ Covers member.1 member.2 (array.1 + other * array.2 + relative) := by
  intro member present covers
  rcases regular.inElement member present array arrayPresent with inElement | apart
  · obtain ⟨home, homeInside, start, place, memberWithin⟩ := inElement
    obtain ⟨offset, width⟩ := member
    simp only at place memberWithin covers
    subst place
    obtain ⟨low, high⟩ := covers
    have inHome : Covers (array.1 + home * array.2) array.2
        (array.1 + other * array.2 + relative) := by
      unfold Covers
      omega
    have inOther : Covers (array.1 + other * array.2) array.2
        (array.1 + other * array.2 + relative) := by
      unfold Covers
      omega
    obtain rfl := position_unique inHome inOther
    apply free _
      (regular.siblings array arrayPresent width start memberWithin _ homeInside
      present position inside)
    unfold Covers
    omega
  · exact apart _ covers (covers_element _ otherInside within)

/-- The passes of two permutations commute: renaming what has been moved gives
what moving the renamed gives. -/
theorem Moves.comm
    {moved : Block blockSize}
    (regular : symmetry.Regular blockSize)
    (moves : symmetry.Moves earlier source moved)
    (renames : symmetry.Renames later moved target) :
    ∃ renamed, symmetry.Renames later source renamed ∧
      symmetry.Moves earlier renamed target := by
  obtain ⟨renamed, sourceRenames⟩ := regular.exists_renames later source
  obtain ⟨result, renamedMoves⟩ := regular.exists_moves earlier renamed
  suffices same : symmetry.Renames later moved result by
    rw [renames.unique same]
    exact ⟨renamed, sourceRenames, renamedMoves⟩
  constructor
  · intro member present
    by_cases inArray : ∃ array ∈ symmetry.arrays, ∃ position < symmetry.size, ∃ relative,
        member.1 = array.1 + position * array.2 + relative ∧
          relative + member.2 ≤ array.2
    · -- The member is read where its sibling in the element's preimage was.
      obtain ⟨array, arrayPresent, position, inside, relative, place, within⟩ := inArray
      have sibling :=
        regular.siblings array arrayPresent member.2 relative within position inside
        (by rw [← place]; exact present) (image earlier⁻¹ position) (image_lt _ inside)
      rw [place, renamedMoves.extract_element arrayPresent inside within,
        moves.extract_element arrayPresent inside within]
      exact sourceRenames.members _ sibling
    · have outside : ∀ array ∈ symmetry.arrays,
          ShareNoBit member.1 member.2 array.1 (symmetry.size * array.2) := by
        intro array arrayPresent
        rcases regular.inElement member present array arrayPresent with inElement | apart
        · exact absurd ⟨array, arrayPresent, inElement⟩ inArray
        · exact apart
      rw [renamedMoves.extract_outside outside, moves.extract_outside outside]
      exact sourceRenames.members member present
  · intro index free
    by_cases covered :
        ∃ array ∈ symmetry.arrays, Covers array.1 (symmetry.size * array.2) index
    · obtain ⟨array, arrayPresent, covers⟩ := covered
      obtain ⟨position, inside, relative, within, rfl⟩ := exists_position covers
      rw [renamedMoves.element arrayPresent inside within,
        moves.element arrayPresent inside within]
      apply sourceRenames.others
      exact regular.free_sibling arrayPresent inside (image_lt _ inside) within free
    · have outside : ∀ array ∈ symmetry.arrays,
          ¬ Covers array.1 (symmetry.size * array.2) index :=
        fun array present covers => covered ⟨array, present, covers⟩
      rw [renamedMoves.others index outside, moves.others index outside]
      exact sourceRenames.others index free

/-- Relabelling twice is relabelling by the product. -/
theorem Relabels.trans
    (regular : symmetry.Regular blockSize)
    (first : symmetry.Relabels earlier source middle)
    (second : symmetry.Relabels later middle target) :
    symmetry.Relabels (later * earlier) source target := by
  obtain ⟨renamed, renames, moves⟩ := first
  obtain ⟨renamedAgain, renamesAgain, movesAgain⟩ := second
  obtain ⟨between, betweenRenames, betweenMoves⟩ := moves.comm regular renamesAgain
  exact ⟨between, renames.trans betweenRenames, betweenMoves.trans movesAgain⟩

/-- The identity relabels every block to itself. -/
theorem Relabels.refl (source : Block blockSize) :
    symmetry.Relabels 1 source source :=
  ⟨source,
    ⟨fun _ _ => by simp, fun _ _ => rfl⟩,
    ⟨fun _ _ _ _ _ _ => by simp, fun _ _ => rfl⟩⟩

/-- The inverse takes a relabelling back. -/
theorem Relabels.symm
    (regular : symmetry.Regular blockSize)
    (relabels : symmetry.Relabels permutation source target) :
    symmetry.Relabels permutation⁻¹ target source := by
  obtain ⟨back, backRelabels, -⟩ := regular.existsUnique_relabels permutation⁻¹ target
  have round := relabels.trans regular backRelabels
  rw [inv_mul_cancel] at round
  rw [Relabels.unique (Relabels.refl source) round]
  exact backRelabels

/-- A relabelling leaves the bits alone that belong neither to a member nor to
an array. -/
theorem Relabels.bit_eq
    (relabels : symmetry.Relabels permutation source target)
    {index : Nat}
    (noMember : ∀ member ∈ symmetry.members, ¬ Covers member.1 member.2 index)
    (noArray : ∀ array ∈ symmetry.arrays,
      ¬ Covers array.1 (symmetry.size * array.2) index) :
    target.bit index = source.bit index := by
  obtain ⟨renamed, renames, moves⟩ := relabels
  rw [moves.others index noArray, renames.others index noMember]

end Action

end PermutationSymmetry
end StateSpace
