import StateSpace.Proofs.Symmetry.Levels

/-!
# Arrays inside arrays have no canonical form

A canonical form is to be a relabelling of the state that all relabellings of
the state share. With arrays that do not overlap it is. With arrays inside
arrays it is not: the relabelling that is computed takes a bit from its preimage
in one array only, so it does not move the positions of a bit in several arrays
together. A canonical form has to be computed from all relabellings of it, and
there are patterns of which no relabelling is.
-/

namespace StateSpace

open Equiv

namespace PermutationSymmetry

variable
  {size : Nat}
  (symmetry : PermutationSymmetry)

/-- The canonical form of every state is a relabelling of it, and relabellings of
one another have the same one. -/
def Represents (size : Nat) : Prop :=
  ∀ source : Block size,
    (∀ permutation target, symmetry.RelabelsNested permutation source target →
      symmetry.canonicalize target = symmetry.canonicalize source) ∧
    ∃ permutation canonical, symmetry.canonicalize source = .ok canonical ∧
      symmetry.RelabelsNested permutation source canonical

/-! ## Patterns -/

/-- A bit is on the diagonal if it has one position on all its levels. -/
def Diagonal (index : Nat) : Prop :=
  ∃ place, ∀ width, ∀ position ∈ symmetry.position width index, position = place

open Classical in
/-- The identity that the members of a pattern hold, one on the diagonal and one
elsewhere. -/
noncomputable def patternIdentity (diagonal elsewhere index : Nat) : Nat :=
  if symmetry.Diagonal index then diagonal else elsewhere

/-- A bit of a pattern. A bit of no member is set if it has the marked position
on a level. -/
noncomputable def patternBit (width mark diagonal elsewhere index : Nat) : Bool :=
  match symmetry.memberPlace index with
  | some place => (symmetry.patternIdentity diagonal elsewhere index).testBit place
  | none => symmetry.position width index == some mark

/-- A block that consists of a pattern. -/
def Patterned
    (width mark diagonal elsewhere : Nat)
    (block : Block size) : Prop :=
  ∀ index, block.bit index = symmetry.patternBit width mark diagonal elsewhere index

section Patterns

variable
  {symmetry}
  {layout : Layout}
  {permutation : Perm (Fin symmetry.size)}
  {width mark diagonal elsewhere : Nat}

theorem diagonal_congr
    {first second : Nat}
    (same : ∀ width, symmetry.position width first = symmetry.position width second) :
    symmetry.Diagonal first ↔ symmetry.Diagonal second := by
  simp only [Diagonal, same]

theorem patternIdentity_congr
    {first second : Nat}
    (same : symmetry.Diagonal first ↔ symmetry.Diagonal second) :
    symmetry.patternIdentity diagonal elsewhere first =
      symmetry.patternIdentity diagonal elsewhere second := by
  by_cases here : symmetry.Diagonal first
  · rw [patternIdentity, patternIdentity, if_pos here, if_pos (same.mp here)]
  · rw [patternIdentity, patternIdentity, if_neg here, if_neg (mt same.mpr here)]

theorem patternIdentity_lt
    (diagonalInside : diagonal < symmetry.size)
    (elsewhereInside : elsewhere < symmetry.size)
    (index : Nat) :
    symmetry.patternIdentity diagonal elsewhere index < symmetry.size := by
  unfold patternIdentity
  split
  · exact diagonalInside
  · exact elsewhereInside

theorem image_patternIdentity (index : Nat) :
    image permutation (symmetry.patternIdentity diagonal elsewhere index) =
      symmetry.patternIdentity (image permutation diagonal) (image permutation elsewhere)
        index := by
  by_cases here : symmetry.Diagonal index
  · rw [patternIdentity, patternIdentity, if_pos here, if_pos here]
  · rw [patternIdentity, patternIdentity, if_neg here, if_neg here]

/-- Some permutation takes an identity to another one exactly if they differ. -/
theorem exists_exchange
    {count first place : Nat}
    (several : 2 ≤ count)
    (firstInside : first < count)
    (placeInside : place < count) :
    ∃ moved : Perm (Fin count), image moved first = place ↔ first ≠ place := by
  by_cases same : first = place
  · obtain ⟨other, otherInside, different⟩ : ∃ other < count, other ≠ first := by
      by_cases zero : first = 0
      · exact ⟨1, by omega, by omega⟩
      · exact ⟨0, by omega, by omega⟩
    refine ⟨swap ⟨first, firstInside⟩ ⟨other, otherInside⟩, ?_⟩
    rw [image_fin _ ⟨first, firstInside⟩, swap_apply_left]
    simp only
    omega
  · refine ⟨swap ⟨first, firstInside⟩ ⟨place, placeInside⟩, ?_⟩
    rw [image_fin _ ⟨first, firstInside⟩, swap_apply_left]
    simp only [true_iff]
    exact same

section Placed

variable
  (placed : layout.Placed)
  (registered : OfLayout layout symmetry)

include placed registered

theorem OfLayout.exists_patterned (width mark diagonal elsewhere : Nat) :
    ∃ block : Block layout.bytes,
      symmetry.Patterned width mark diagonal elsewhere block := by
  refine ⟨.ofBits layout.bytes (symmetry.patternBit width mark diagonal elsewhere),
    fun index => ?_⟩
  rcases Nat.lt_or_ge index (8 * layout.bytes) with inside | beyond
  · exact Block.bit_ofBits _ inside
  · have noMember : symmetry.memberPlace index = none := by
      refine memberPlace_of_free fun member present covers => ?_
      obtain ⟨leaf, offset, viewed, rfl⟩ := registered.members member present
      have fits := (placed.shaped_fits viewed).2.inside
      simp only [View.width, Ty.width] at fits
      unfold Covers at covers
      omega
    have noLevel := level_of_free (registered.free_beyond placed beyond)
    rw [Block.bit_eq_false _ beyond, patternBit, noMember, position, noLevel]
    rfl

/-- All bits of a member have the same positions. -/
theorem OfLayout.position_member
    {member : Nat × Nat}
    {place : Nat}
    (present : member ∈ symmetry.members)
    (within : place < member.2)
    (width : Nat) :
    symmetry.position width (member.1 + place) = symmetry.position width member.1 := by
  obtain ⟨leaf, offset, viewed, rfl⟩ := registered.members member present
  exact registered.position_scalar placed viewed within width

theorem OfLayout.memberPlace_member
    {member : Nat × Nat}
    {place : Nat}
    (present : member ∈ symmetry.members)
    (within : place < member.2) :
    symmetry.memberPlace (member.1 + place) = some place :=
  (registered.memberPlace_eq_some placed).mpr
    ⟨member, present, by unfold Covers; omega, rfl⟩

/-- The bits of a member make up its identity. -/
theorem OfLayout.patternBit_member
    {member : Nat × Nat}
    {place : Nat}
    (present : member ∈ symmetry.members)
    (within : place < member.2) :
    symmetry.patternBit width mark diagonal elsewhere (member.1 + place) =
      (symmetry.patternIdentity diagonal elsewhere member.1).testBit place := by
  rw [patternBit, registered.memberPlace_member placed present within]
  simp only
  rw [patternIdentity_congr
    (diagonal_congr (registered.position_member placed present within))]

/-- The member pass changes the identities of a pattern. -/
theorem OfLayout.patterned_renames
    (wide : symmetry.Wide)
    (diagonalInside : diagonal < symmetry.size)
    (elsewhereInside : elsewhere < symmetry.size)
    {source renamed : Block layout.bytes}
    (patterned : symmetry.Patterned width mark diagonal elsewhere source)
    (renames : symmetry.Renames permutation source renamed) :
    symmetry.Patterned width mark (image permutation diagonal)
      (image permutation elsewhere)
      renamed := by
  intro index
  by_cases covered : ∃ member ∈ symmetry.members, Covers member.1 member.2 index
  · obtain ⟨member, present, covers⟩ := covered
    obtain ⟨place, rfl⟩ := Nat.exists_eq_add_of_le covers.1
    have within : place < member.2 := by
      unfold Covers at covers
      omega
    have held : source.extract member.1 member.2 =
        symmetry.patternIdentity diagonal elsewhere member.1 := by
      have small := patternIdentity_lt diagonalInside elsewhereInside member.1
      refine Block.extract_eq (small.trans_le (wide member present))
        fun place within => ?_
      rw [patterned, registered.patternBit_member placed present within]
    rw [renamed.bit_eq_testBit covers, renames.members member present, held,
      image_patternIdentity, registered.patternBit_member placed present within,
      Nat.add_sub_cancel_left]
  · have free : ∀ member ∈ symmetry.members, ¬ Covers member.1 member.2 index :=
      fun member present covers => covered ⟨member, present, covers⟩
    rw [renames.others index free, patterned, patternBit, patternBit,
      memberPlace_of_free free]

variable
  (complete : symmetry.Complete)
  (several : 2 ≤ symmetry.size)

include complete several

/-- A move on all levels keeps the diagonal. -/
theorem OfLayout.diagonal_origin (index : Nat) :
    symmetry.Diagonal (symmetry.origin permutation index) ↔ symmetry.Diagonal index := by
  simp only [Diagonal, registered.position_origin placed complete several,
    Option.mem_map, forall_exists_index, and_imp, forall_apply_eq_imp_iff₂]
  constructor
  · rintro ⟨place, same⟩
    exact ⟨image permutation place, fun width position found =>
      (image_inv_eq_iff permutation).mp (same width position found)⟩
  · rintro ⟨place, same⟩
    exact ⟨image permutation⁻¹ place, fun width position found => by
      rw [same width position found]⟩

/-- A move on all levels moves the mark of a pattern. -/
theorem OfLayout.patternBit_origin (index : Nat) :
    symmetry.patternBit width mark diagonal elsewhere
      (symmetry.origin permutation index) =
      symmetry.patternBit width (image permutation mark) diagonal elsewhere index := by
  rw [patternBit, patternBit, registered.memberPlace_origin placed complete,
    registered.position_origin placed complete several,
    patternIdentity_congr (registered.diagonal_origin placed complete several index)]
  cases symmetry.memberPlace index with
  | some place => rfl
  | none =>
      cases symmetry.position width index with
      | none => rfl
      | some place =>
          rw [Bool.eq_iff_iff]
          simp [image_inv_eq_iff]

/-- A relabelling on all levels keeps a pattern, with the images of its mark and
its identities. -/
theorem OfLayout.patterned_relabelsNested
    (wide : symmetry.Wide)
    (diagonalInside : diagonal < symmetry.size)
    (elsewhereInside : elsewhere < symmetry.size)
    {source target : Block layout.bytes}
    (patterned : symmetry.Patterned width mark diagonal elsewhere source)
    (relabels : symmetry.RelabelsNested permutation source target) :
    symmetry.Patterned width (image permutation mark) (image permutation diagonal)
      (image permutation elsewhere) target := by
  obtain ⟨renamed, renames, bits⟩ := relabels
  have kept :=
    registered.patterned_renames placed wide diagonalInside elsewhereInside patterned
    renames
  intro index
  rw [bits, kept, registered.patternBit_origin placed complete several]

/-- If states have canonical forms, there is a pattern that is computed from each
of its relabellings. -/
theorem OfLayout.exists_pattern_returns
    (wide : symmetry.Wide)
    (storable : symmetry.Storable)
    (represents : symmetry.Represents layout.bytes)
    (width : Nat) :
    ∃ first < symmetry.size, ∃ second < symmetry.size, first ≠ second ∧
      ∀ moved : Perm (Fin symmetry.size), ∃ back : Perm (Fin symmetry.size), ∀ index,
        symmetry.patternBit width first second first index =
          symmetry.patternBit width (image moved first) (image back (image moved second))
            (image back (image moved first)) (symmetry.copiedFrom back index) := by
  have zeroInside : 0 < symmetry.size := by omega
  have oneInside : 1 < symmetry.size := by omega
  obtain ⟨source, patterned⟩ := registered.exists_patterned placed width 0 1 0
  obtain ⟨sameForm, taken, canonical, found, relabels⟩ := represents source
  have canonicalPatterned :=
    registered.patterned_relabelsNested placed complete several wide
    oneInside zeroInside patterned relabels
  have firstInside := image_lt taken zeroInside
  have secondInside := image_lt taken oneInside
  refine ⟨_, firstInside, _, secondInside, (image taken).injective.ne (by decide),
    fun moved => ?_⟩
  obtain ⟨state, stateRelabels, -⟩ :=
    registered.existsUnique_relabelsNested placed wide moved canonical
  have statePatterned := registered.patterned_relabelsNested placed complete several wide
    secondInside firstInside canonicalPatterned stateRelabels
  have stateFound : symmetry.canonicalize state = .ok canonical :=
    calc symmetry.canonicalize state
      _ = symmetry.canonicalize canonical :=
        (represents canonical).1 moved state stateRelabels
      _ = symmetry.canonicalize source := sameForm taken canonical relabels
      _ = .ok canonical := found
  obtain ⟨computed, computedFound, back, renamed, renames, bits⟩ :=
    registered.canonicalize_copies placed wide storable state
  cases stateFound.symm.trans computedFound
  have renamedPatterned := registered.patterned_renames placed wide
    (image_lt moved secondInside) (image_lt moved firstInside) statePatterned renames
  refine ⟨back, fun index => ?_⟩
  rw [← canonicalPatterned, bits, renamedPatterned]

/-! ## Bits on two levels -/

/-- The computed relabelling changes the position in the last array, and no other
one. -/
theorem OfLayout.position_copiedFrom
    {last : Nat × Nat}
    {index : Nat}
    (found : symmetry.lastArray index = some last)
    (width : Nat) :
    symmetry.position width (symmetry.copiedFrom permutation index) =
      if width = last.2 then (symmetry.position width index).map (image permutation⁻¹)
      else symmetry.position width index := by
  obtain ⟨present, covers⟩ := lastArray_eq_some found
  simp only [copiedFrom, found]
  exact registered.position_preimage placed complete several present covers width

omit several in
theorem OfLayout.memberPlace_copiedFrom (index : Nat) :
    symmetry.memberPlace (symmetry.copiedFrom permutation index) =
      symmetry.memberPlace index := by
  unfold copiedFrom
  cases found : symmetry.lastArray index with
  | none => rfl
  | some last =>
      obtain ⟨present, covers⟩ := lastArray_eq_some found
      exact registered.memberPlace_preimage placed complete present covers

/-- The computed relabelling takes all bits of a member from the same positions. -/
theorem OfLayout.position_copiedFrom_member
    {member : Nat × Nat}
    {place : Nat}
    (present : member ∈ symmetry.members)
    (within : place < member.2)
    (width : Nat) :
    symmetry.position width (symmetry.copiedFrom permutation (member.1 + place)) =
      symmetry.position width (symmetry.copiedFrom permutation member.1) := by
  have samePosition := registered.position_member placed present within width
  have sameLast : symmetry.lastArray (member.1 + place) =
      symmetry.lastArray member.1 := by
    obtain ⟨leaf, offset, viewed, rfl⟩ := registered.members member present
    exact registered.lastArray_scalar placed viewed within
  cases found : symmetry.lastArray member.1 with
  | none => simp only [copiedFrom, sameLast, found, samePosition]
  | some last =>
      rw [registered.position_copiedFrom placed complete several (sameLast.trans found),
        registered.position_copiedFrom placed complete several found, samePosition]

omit complete in
/-- A bit that is on two levels has a last array and a level that is not that of
the last array. -/
theorem OfLayout.exists_other_level
    {upper lower index : Nat}
    (different : upper ≠ lower)
    (onUpper : (symmetry.position upper index).isSome)
    (onLower : (symmetry.position lower index).isSome) :
    ∃ last, symmetry.lastArray index = some last ∧
      ∃ width ≠ last.2, ∃ place < symmetry.size,
        symmetry.position width index = some place := by
  obtain ⟨left, leftFound⟩ := Option.isSome_iff_exists.mp onUpper
  obtain ⟨right, rightFound⟩ := Option.isSome_iff_exists.mp onLower
  have leftInside := ((registered.position_eq_some placed several).mp leftFound).1
  have rightInside := ((registered.position_eq_some placed several).mp rightFound).1
  cases found : symmetry.lastArray index with
  | none =>
      rw [position, level_of_free (lastArray_eq_none found)] at leftFound
      cases leftFound
  | some last =>
      refine ⟨last, rfl, ?_⟩
      by_cases isUpper : upper = last.2
      · exact ⟨lower, isUpper ▸ different.symm, right, rightInside, rightFound⟩
      · exact ⟨upper, isUpper, left, leftInside, leftFound⟩

/-- A bit on two levels leaves the diagonal if its position in the last array
changes. -/
theorem OfLayout.diagonal_copiedFrom
    {last : Nat × Nat}
    {index width place : Nat}
    (found : symmetry.lastArray index = some last)
    (otherLevel : width ≠ last.2)
    (positioned : symmetry.position width index = some place)
    (same : ∀ width, ∀ position ∈ symmetry.position width index, position = place) :
    symmetry.Diagonal (symmetry.copiedFrom permutation index) ↔
      image permutation⁻¹ place = place := by
  have copied :=
    @registered.position_copiedFrom _ _ permutation placed complete several _ _ found
  constructor
  · rintro ⟨common, all⟩
    obtain ⟨present, covers⟩ := lastArray_eq_some found
    obtain ⟨home, -, homeFound⟩ :=
      registered.position_of_covers placed several present covers
    obtain rfl := same _ _ homeFound
    have moved :=
      all last.2 (image permutation⁻¹ home) (by rw [copied, if_pos rfl, homeFound]; rfl)
    have stayed := all width home (by rw [copied, if_neg otherLevel, positioned]; rfl)
    exact moved.trans stayed.symm
  · intro fixed
    refine ⟨place, fun level position here => ?_⟩
    rw [copied] at here
    split at here
    · obtain ⟨before, beforeHere, rfl⟩ := Option.mem_map.mp here
      rw [same _ _ beforeHere, fixed]
    · exact same _ _ here

/-- Members that hold the same bits hold the same identity. -/
theorem OfLayout.patternIdentity_copiedFrom
    (wide : symmetry.Wide)
    {left right otherLeft otherRight otherMark : Nat}
    (leftInside : left < symmetry.size)
    (rightInside : right < symmetry.size)
    (otherLeftInside : otherLeft < symmetry.size)
    (otherRightInside : otherRight < symmetry.size)
    (same : ∀ index, symmetry.patternBit width mark left right index =
      symmetry.patternBit width otherMark otherLeft otherRight
      (symmetry.copiedFrom permutation index))
    {member : Nat × Nat}
    (present : member ∈ symmetry.members) :
    symmetry.patternIdentity left right member.1 =
      symmetry.patternIdentity otherLeft otherRight
        (symmetry.copiedFrom permutation member.1) := by
  have small :=
    (patternIdentity_lt leftInside rightInside member.1).trans_le (wide member present)
  have otherSmall := (patternIdentity_lt otherLeftInside otherRightInside
    (symmetry.copiedFrom permutation member.1)).trans_le (wide member present)
  refine Nat.eq_of_testBit_eq fun place => ?_
  rcases Nat.lt_or_ge place member.2 with within | beyond
  · have bit := same (member.1 + place)
    rw [registered.patternBit_member placed present within, patternBit,
      registered.memberPlace_copiedFrom placed complete,
      registered.memberPlace_member placed present within] at bit
    rw [bit]
    exact congrArg (Nat.testBit · place) (patternIdentity_congr (diagonal_congr
      (registered.position_copiedFrom_member placed complete several present within)))
  · have clear {identity : Nat} (small : identity < 2 ^ member.2) :
        identity.testBit place = false :=
      Nat.testBit_lt_two_pow (small.trans_le (Nat.pow_le_pow_right (by decide) beyond))
    rw [clear small, clear otherSmall]

/-! ## Overlapping arrays -/

/-- A member has a sibling with one position on all its levels. -/
theorem OfLayout.exists_diagonal_member
    {index bitPlace place : Nat}
    (isMember : symmetry.memberPlace index = some bitPlace)
    (inside : place < symmetry.size) :
    ∃ member ∈ symmetry.members, ∀ width,
      symmetry.position width member.1 =
        (symmetry.position width index).map fun _ => place := by
  obtain ⟨sibling, sameMember, positions⟩ :=
    registered.exists_diagonal placed complete several inside index
  rw [isMember, registered.memberPlace_eq_some placed] at sameMember
  obtain ⟨member, present, covers, rfl⟩ := sameMember
  have within : bitPlace < member.2 := by
    unfold Covers at covers
    omega
  refine ⟨member, present, fun width => ?_⟩
  rw [← positions, registered.position_member placed present within]

section Shared

variable
  (wide : symmetry.Wide)
  (storable : symmetry.Storable)
  {upper lower index : Nat}
  (different : upper ≠ lower)
  (onUpper : (symmetry.position upper index).isSome)
  (onLower : (symmetry.position lower index).isSome)

include wide storable different onUpper onLower

/-- With a bit of no member on two levels there are states without a canonical
form. The mark on the level without the last array would have to stay. -/
theorem OfLayout.not_represents_of_free
    (noMember : symmetry.memberPlace index = none) :
    ¬ symmetry.Represents layout.bytes := by
  intro represents
  obtain ⟨last, found, width, otherLevel, place, placeInside, positioned⟩ :=
    registered.exists_other_level placed several different onUpper onLower
  obtain ⟨first, firstInside, second, -, -, returns⟩ :=
    registered.exists_pattern_returns placed complete several wide storable
      represents width
  obtain ⟨moved, exchanged⟩ := exists_exchange several firstInside placeInside
  obtain ⟨back, same⟩ := returns moved
  have marked := same index
  rw [patternBit, patternBit,
    registered.memberPlace_copiedFrom placed complete, noMember,
    registered.position_copiedFrom placed complete several found, if_neg otherLevel,
    positioned] at marked
  rw [Bool.eq_iff_iff, beq_iff_eq, beq_iff_eq, Option.some.injEq, Option.some.injEq]
    at marked
  refine iff_not_self (a := first = place) ?_
  calc first = place
    _ ↔ place = first := eq_comm
    _ ↔ place = image moved first := marked
    _ ↔ image moved first = place := eq_comm
    _ ↔ first ≠ place := exchanged

/-- With a bit of a member on two levels there are states without a canonical
form. The identities on the diagonal and elsewhere are exchanged, and none of
them would return. -/
theorem OfLayout.not_represents_of_member
    {place : Nat}
    (isMember : symmetry.memberPlace index = some place) :
    ¬ symmetry.Represents layout.bytes := by
  intro represents
  obtain ⟨first, firstInside, second, secondInside, apart, returns⟩ :=
    registered.exists_pattern_returns placed complete several wide storable
      represents upper
  obtain ⟨member, present, diagonal⟩ :=
    registered.exists_diagonal_member placed complete several isMember secondInside
  obtain ⟨last, found, width, otherLevel, home, -, positioned⟩ :=
    registered.exists_other_level placed several different
      (show (symmetry.position upper member.1).isSome by
        rw [diagonal, Option.isSome_map, onUpper])
      (show (symmetry.position lower member.1).isSome by
        rw [diagonal, Option.isSome_map, onLower])
  have same : ∀ width, ∀ position ∈ symmetry.position width member.1,
      position = second := by
    intro width position here
    rw [diagonal] at here
    obtain ⟨-, -, rfl⟩ := Option.mem_map.mp here
    rfl
  rw [same width home positioned] at positioned
  obtain ⟨back, bits⟩ := returns (swap ⟨first, firstInside⟩ ⟨second, secondInside⟩)
  rw [image_fin _ ⟨first, firstInside⟩, image_fin _ ⟨second, secondInside⟩,
    swap_apply_left, swap_apply_right] at bits
  have identity :=
    registered.patternIdentity_copiedFrom placed complete several wide secondInside
    firstInside (image_lt back firstInside) (image_lt back secondInside) bits present
  have onDiagonal : symmetry.Diagonal member.1 := ⟨second, same⟩
  have stays : symmetry.Diagonal (symmetry.copiedFrom back member.1) ↔
      image back⁻¹ second = second :=
    registered.diagonal_copiedFrom placed complete several found otherLevel
      positioned same
  rw [patternIdentity, if_pos onDiagonal, patternIdentity] at identity
  by_cases fixed : image back⁻¹ second = second
  · rw [if_pos (stays.mpr fixed), ← image_inv_eq_iff, fixed] at identity
    exact apart identity.symm
  · rw [if_neg (mt stays.mp fixed), ← image_inv_eq_iff] at identity
    exact fixed identity

end Shared

/-- With overlapping arrays there are states without a canonical form. -/
theorem OfLayout.not_represents
    (wide : symmetry.Wide)
    (storable : symmetry.Storable)
    (overlap : ¬ symmetry.ArraysApart) :
    ¬ symmetry.Represents layout.bytes := by
  simp only [ArraysApart, ShareNoBit, not_forall, not_or, not_not] at overlap
  obtain ⟨first, firstPresent, second, secondPresent, different, index, firstCovers,
    secondCovers⟩ := overlap
  obtain ⟨_, -, onFirst⟩ :=
    registered.position_of_covers placed several firstPresent firstCovers
  obtain ⟨_, -, onSecond⟩ :=
    registered.position_of_covers placed several secondPresent secondCovers
  have levels : first.2 ≠ second.2 := fun sameWidth =>
    different (registered.level_unique placed several firstPresent
      secondPresent firstCovers secondCovers sameWidth)
  cases here : symmetry.memberPlace index with
  | none =>
      exact registered.not_represents_of_free placed complete several wide
        storable levels (onFirst ▸ rfl) (onSecond ▸ rfl) here
  | some place =>
      exact registered.not_represents_of_member placed complete several wide
        storable levels (onFirst ▸ rfl) (onSecond ▸ rfl) here

end Placed

end Patterns

/-! ## Arrays that do not overlap -/

section Apart

variable
  {symmetry}
  {layout : Layout}

/-- States have canonical forms if no arrays overlap, or if there are no two
identities to exchange. -/
theorem OfLayout.represents
    (placed : layout.Placed)
    (registered : OfLayout layout symmetry)
    (complete : symmetry.Complete)
    (wide : symmetry.Wide)
    (storable : symmetry.Storable)
    (simple : symmetry.size < 2 ∨ symmetry.ArraysApart) :
    symmetry.Represents layout.bytes := by
  intro source
  rcases simple with few | apart
  · have unchanged (state : Block layout.bytes) :
        symmetry.canonicalize state = .ok state :=
      if_pos (by simp [isTrivial, few])
    have alone : Subsingleton (Fin symmetry.size) := ⟨fun left right => by omega⟩
    refine ⟨fun permutation target relabels => ?_, 1, source, unchanged source,
      .refl source⟩
    obtain rfl := Subsingleton.elim permutation 1
    rw [(registered.existsUnique_relabelsNested placed wide 1 source).unique relabels
      (.refl source)]
  · have regular := registered.regular placed ⟨apart, wide, complete.members⟩
    refine ⟨fun permutation target relabels => ?_, ?_⟩
    · exact regular.canonicalize_relabels storable
        (regular.relabelsNested_iff.mp relabels)
    · obtain ⟨canonical, found, ⟨permutation, relabels⟩, -⟩ :=
        regular.canonicalize_least storable source
      exact ⟨permutation, canonical, found, regular.relabelsNested_iff.mpr relabels⟩

/-- Every permutation relabels every state to one state. The canonical forms
represent these relabellings exactly if no arrays overlap, or if there are no two
identities to exchange. -/
theorem OfLayout.canonicalize_nested
    (built : layout.Built)
    (registered : OfLayout layout symmetry)
    (complete : symmetry.Complete)
    (wide : symmetry.Wide)
    (storable : symmetry.Storable) :
    (∀ permutation (source : Block layout.bytes),
      ∃! target, symmetry.RelabelsNested permutation source target) ∧
    (symmetry.Represents layout.bytes ↔ symmetry.size < 2 ∨ symmetry.ArraysApart) := by
  refine ⟨registered.existsUnique_relabelsNested built.placed wide, fun represents => ?_,
    registered.represents built.placed complete wide storable⟩
  by_contra overlap
  obtain ⟨several, overlapping⟩ := not_or.mp overlap
  exact registered.not_represents built.placed complete (Nat.not_lt.mp several)
    wide storable overlapping represents

end Apart

end PermutationSymmetry

/-! ## Who trusts whom -/

namespace Trust

open Twins (process)

/-- Whether one process trusts another, for any two. -/
def layout : Layout :=
  ⟨#[⟨"trusts", .array process (.array process (.scalar .boolean)), 0⟩], 4⟩

/-- Both processes are interchangeable, as those who trust and those who are
trusted. -/
def symmetry : PermutationSymmetry :=
  ⟨2, [(0, 2), (0, 1), (2, 1)], []⟩

theorem layout_built : layout.Built := by
  have processBuilt : Ty.Built (.scalar process) :=
    .range (show Ty.range? 0 1 = .ok (.scalar process) from rfl)
  have rowBuilt : Ty.Built (.array process (.scalar .boolean)) :=
    .array processBuilt .boolean rfl
  refine ⟨[("trusts", .array process (.array process (.scalar .boolean)))], ?_, ?_⟩
  · simp only [List.mem_cons, List.not_mem_nil, or_false, forall_eq]
    exact .array processBuilt rowBuilt rfl
  · simp [Layout.of?, Layout.extend, Layout.empty, Layout.maxVariables]
    rfl

theorem symmetry_ofLayout : PermutationSymmetry.OfLayout layout symmetry := by
  have rows : layout.HasView ⟨.array process (.array process (.scalar .boolean)), 0⟩ :=
    .declared (show layout.view? "trusts" = some _ from rfl)
  have first : layout.HasView ⟨.array process (.scalar .boolean), 0⟩ :=
    .element rows rfl (show ArrayView.element? _ 0 = _ from rfl)
  have second : layout.HasView ⟨.array process (.scalar .boolean), 2⟩ :=
    .element rows rfl (show ArrayView.element? _ 1 = _ from rfl)
  exact .permuteArray
    (.permuteArray (.permuteArray (.ofSize 2) rows rfl rfl) first rfl rfl)
    second rfl rfl

theorem symmetry_complete : symmetry.Complete where
  arrays := by
    intro array present width relative within position inside inner other otherInside
    simp only [symmetry, List.mem_cons, List.not_mem_nil, or_false] at *
    rcases present with rfl | rfl | rfl
    all_goals
      simp only [Prod.mk.injEq] at *
      omega
  members := by
    intro array present width relative within position inside isMember
    cases isMember

theorem symmetry_wide : symmetry.Wide :=
  nofun

theorem symmetry_storable : symmetry.Storable :=
  fun _ => by decide

/-- That the first process trusts itself is a bit of two arrays. -/
theorem trusts_not_represented :
    ¬ symmetry.Represents layout.bytes := by
  rw [(PermutationSymmetry.OfLayout.canonicalize_nested layout_built symmetry_ofLayout
    symmetry_complete symmetry_wide symmetry_storable).2]
  rintro (few | apart)
  · exact absurd few (by decide)
  · rcases apart (0, 2) (by decide) (0, 1) (by decide) with same | free
    · exact absurd same (by decide)
    · exact free 0 (by decide) (by decide)

/-- That every process trusts itself, and no other one, stays so in a move on all
levels. -/
theorem bit_origin (permutation : Perm (Fin symmetry.size)) :
    ∀ index < 8 * layout.bytes,
      (⟨9⟩ : Block layout.bytes).bit (symmetry.origin permutation index) =
      (⟨9⟩ : Block layout.bytes).bit index := by
  revert permutation
  decide +kernel

/-- No relabelling changes who trusts whom if every process trusts itself only.
The canonical form has every process trust the other one. -/
theorem canonicalize_not_relabelled :
    layout.Built ∧ PermutationSymmetry.OfLayout layout symmetry ∧ symmetry.Complete ∧
      symmetry.canonicalize (⟨9⟩ : Block layout.bytes) = .ok ⟨6⟩ ∧
      ∀ permutation target,
        symmetry.RelabelsNested permutation (⟨9⟩ : Block layout.bytes) target →
          target = ⟨9⟩ := by
  refine ⟨layout_built, symmetry_ofLayout, symmetry_complete, by decide +kernel, ?_⟩
  rintro permutation target ⟨renamed, renames, bits⟩
  ext index inside
  rw [bits, renames.others _ nofun, bit_origin permutation index inside]

end Trust

end StateSpace
