import StateSpace.Proofs.Symmetry.Canonical

/-!
# Arrays that are copied over one another

A symmetry takes any arrays and fields of a layout, also an array inside an
element of another one. A relabelling fails only if it has to write an identity
into a field that is too narrow for it. Otherwise every array is copied from
the block that the member pass has left, so a bit ends as what the array that
was registered last among those that have it brings there, whatever the others
have brought before.
-/

namespace StateSpace

open Equiv

variable {size : Nat}

/-- Steps that paint their runs, each from a goal of its own, leave every bit to
the last step that has it. -/
theorem foldlM_painted_over
    {ε Item : Type}
    {step : Block size → Item → Except ε (Block size)}
    {run : Item → Nat × Nat}
    {goal : Item → Block size}
    {items : List Item}
    (each : ∀ item ∈ items, ∀ before, ∃ after, step before item = .ok after ∧
      Painted (Covers (run item).1 (run item).2) (goal item) before after)
    (before : Block size) :
    ∃ after, items.foldlM step before = .ok after ∧ ∀ index,
      after.bit index =
        (items.reverse.find? fun item => Covers (run item).1 (run item).2 index).elim
          (before.bit index) fun item => (goal item).bit index := by
  induction items generalizing before with
  | nil => exact ⟨before, rfl, fun _ => rfl⟩
  | cons item rest inductionHypothesis =>
      obtain ⟨middle, stepped, painted⟩ := each item (by simp) before
      obtain ⟨after, finished, bits⟩ := inductionHypothesis
        (fun other present => each other (List.mem_cons_of_mem _ present)) middle
      refine ⟨after, ?_, fun index => ?_⟩
      · rw [List.foldlM_cons, stepped]
        exact finished
      rw [bits, List.reverse_cons, List.find?_append]
      -- The first step shows only where no later one paints.
      cases rest.reverse.find? fun item => Covers (run item).1 (run item).2 index with
      | some later => rfl
      | none =>
          by_cases inside : Covers (run item).1 (run item).2 index
          · simpa [inside] using (painted index).1 inside
          · simpa [inside] using (painted index).2 inside

namespace PermutationSymmetry

variable (symmetry : PermutationSymmetry)

/-- Every registered field has a number for each identity. -/
def Wide : Prop :=
  ∀ member ∈ symmetry.members, symmetry.size ≤ 2 ^ member.2

/-- The place of a bit in the element at the preimage of its position. -/
def preimage
    (permutation : Perm (Fin symmetry.size))
    (array : Nat × Nat)
    (index : Nat) : Nat :=
  array.1 + image permutation⁻¹ ((index - array.1) / array.2) * array.2
    + (index - array.1) % array.2

/-- The array that was registered last among those that have a bit. -/
def lastArray (index : Nat) : Option (Nat × Nat) :=
  symmetry.arrays.reverse.find? fun array =>
    Covers array.1 (symmetry.size * array.2) index

/-- The place from which the last array that has a bit takes it. -/
def copiedFrom
    (permutation : Perm (Fin symmetry.size))
    (index : Nat) : Nat :=
  match symmetry.lastArray index with
  | some array => symmetry.preimage permutation array index
  | none => index

/-- A block whose members are renamed and whose bits are then taken from where
the last array that has them takes them. -/
def Copies
    (permutation : Perm (Fin symmetry.size))
    (source target : Block size) : Prop :=
  ∃ renamed, symmetry.Renames permutation source renamed ∧
    ∀ index, target.bit index = renamed.bit (symmetry.copiedFrom permutation index)

/-! ## Places inside an array -/

section Places

variable
  {symmetry}
  {permutation : Perm (Fin symmetry.size)}
  {array : Nat × Nat}
  {index position relative : Nat}

/-- The position of the element that has a bit. -/
theorem position_element
    {offset width : Nat}
    (within : relative < width) :
    (offset + position * width + relative - offset) / width = position := by
  have flat : offset + position * width + relative - offset =
      position * width + relative := by
    omega
  rw [flat, Nat.mul_comm, Nat.mul_add_div (by omega), Nat.div_eq_of_lt within,
    Nat.add_zero]

theorem preimage_element (within : relative < array.2) :
    symmetry.preimage permutation array (array.1 + position * array.2 + relative) =
      array.1 + image permutation⁻¹ position * array.2 + relative := by
  have flat : array.1 + position * array.2 + relative - array.1 =
      position * array.2 + relative := by omega
  rw [preimage, position_element within, flat, Nat.mul_add_mod_of_lt within]

theorem lastArray_eq_some (found : symmetry.lastArray index = some array) :
    array ∈ symmetry.arrays ∧ Covers array.1 (symmetry.size * array.2) index := by
  have covers := List.find?_some found
  exact ⟨List.mem_reverse.mp (List.mem_of_find?_eq_some found), of_decide_eq_true covers⟩

theorem lastArray_eq_none (missing : symmetry.lastArray index = none) :
    ∀ array ∈ symmetry.arrays, ¬ Covers array.1 (symmetry.size * array.2) index :=
  fun array present covers =>
    List.find?_eq_none.mp missing array (List.mem_reverse.mpr present)
      (decide_eq_true covers)

/-- A move of one array takes every bit of it from the preimage. -/
theorem Moves.bit_preimage
    {source moved : Block size}
    (moves : symmetry.Moves permutation source moved)
    (present : array ∈ symmetry.arrays)
    (covers : Covers array.1 (symmetry.size * array.2) index) :
    moved.bit index = source.bit (symmetry.preimage permutation array index) := by
  obtain ⟨position, inside, relative, within, rfl⟩ := exists_position covers
  rw [moves.element present inside within, preimage_element within]

end Places

/-! ## What the two loops compute -/

/-- The fields of a symmetry without its arrays. -/
def fields : PermutationSymmetry :=
  { symmetry with arrays := [] }

/-- A symmetry of one array and no field. -/
def single (array : Nat × Nat) : PermutationSymmetry :=
  ⟨symmetry.size, [array], []⟩

section Loops

variable
  {symmetry}
  {layout : Layout}

theorem OfLayout.fields (registered : OfLayout layout symmetry) :
    OfLayout layout symmetry.fields := by
  induction registered with
  | ofSize size => exact .ofSize size
  | permuteArray _ _ _ accepted inductionHypothesis =>
      obtain ⟨-, rfl⟩ := permuteArray_eq_ok accepted
      exact inductionHypothesis
  | rename _ hasView accepted inductionHypothesis =>
      obtain ⟨⟨leaf, isScalar⟩, rfl⟩ := rename_eq_ok accepted
      refine .rename inductionHypothesis hasView ?_
      unfold PermutationSymmetry.rename at accepted ⊢
      split at accepted
      · rfl
      · rfl
      · cases accepted

theorem OfLayout.fields_regular
    (placed : layout.Placed)
    (registered : OfLayout layout symmetry)
    (wide : symmetry.Wide) :
    symmetry.fields.Regular layout.bytes :=
  registered.fields.regular placed ⟨nofun, wide, nofun⟩

theorem OfLayout.single_regular
    (placed : layout.Placed)
    (registered : OfLayout layout symmetry)
    {array : Nat × Nat}
    (present : array ∈ symmetry.arrays) :
    (symmetry.single array).Regular layout.bytes where
  narrow := nofun
  wide := nofun
  membersFit := nofun
  arraysFit := by
    intro other isArray
    obtain rfl := List.mem_singleton.mp isArray
    obtain ⟨_, _, _, hasView, sized, rfl⟩ := registered.arrays other present
    exact sized ▸ (placed.shaped_fits hasView).2
  membersApart := nofun
  arraysApart := by
    intro first isFirst second isSecond
    exact .inl ((List.mem_singleton.mp isFirst).trans
      (List.mem_singleton.mp isSecond).symm)
  inElement := nofun
  siblings := nofun

/-- The array loop leaves every bit to the last array that has it. -/
theorem OfLayout.foldlM_moveElements_copied
    (placed : layout.Placed)
    (registered : OfLayout layout symmetry)
    (permutation : Perm (Fin symmetry.size))
    (renamed : Block layout.bytes) :
    ∃ target,
      symmetry.arrays.foldlM
        (moveElements (Heap.listing symmetry.size (image permutation)) renamed) renamed =
          .ok target ∧
      ∀ index, target.bit index =
        renamed.bit (symmetry.copiedFrom permutation index) := by
  -- Each array alone has a goal, which is the renamed block with this array moved.
  have moved (array : Nat × Nat) : ∃ goal : Block layout.bytes, array ∈ symmetry.arrays →
      (symmetry.single array).Moves permutation renamed goal := by
    by_cases present : array ∈ symmetry.arrays
    · obtain ⟨goal, moves⟩ : ∃ goal,
          (symmetry.single array).Moves permutation renamed goal :=
        (registered.single_regular placed present).exists_moves _ renamed
      exact ⟨goal, fun _ => moves⟩
    · exact ⟨renamed, fun isArray => absurd isArray present⟩
  choose goal moves using moved
  have each : ∀ array ∈ symmetry.arrays, ∀ before, ∃ after,
      moveElements (Heap.listing symmetry.size (image permutation)) renamed
        before array = .ok after ∧
      Painted (Covers array.1 (symmetry.size * array.2)) (goal array) before after :=
    fun array present before =>
      moveElements_painted (registered.single_regular placed present)
      (moves array present) (List.mem_singleton_self array) before fun _ => .inl rfl
  obtain ⟨target, finished, bits⟩ :=
    @foldlM_painted_over _ _ _ _
      (fun array : Nat × Nat => (array.1, symmetry.size * array.2))
      _ _ each renamed
  refine ⟨target, finished, fun index => ?_⟩
  rw [bits, copiedFrom]
  change (symmetry.lastArray index).elim _ _ = _
  cases found : symmetry.lastArray index with
  | none => rfl
  | some array =>
      obtain ⟨present, covers⟩ := lastArray_eq_some found
      exact (moves array present).bit_preimage (List.mem_singleton_self array) covers

/-- A relabelling into wide fields succeeds, whatever arrays are registered. -/
theorem OfLayout.relabel_copies
    (placed : layout.Placed)
    (registered : OfLayout layout symmetry)
    (wide : symmetry.Wide)
    (permutation : Perm (Fin symmetry.size))
    (source : Block layout.bytes) :
    ∃ target,
      symmetry.relabel (Heap.listing symmetry.size (image permutation)) source =
        .ok target ∧ symmetry.Copies permutation source target := by
  have regular := registered.fields_regular placed wide
  obtain ⟨renamed, renames⟩ : ∃ renamed,
      symmetry.fields.Renames permutation source renamed :=
    regular.exists_renames _ source
  have memberPass := foldlM_relabelMember regular renames
  obtain ⟨target, arrayPass, bits⟩ :=
    registered.foldlM_moveElements_copied placed permutation renamed
  exact ⟨target, bind_eq_ok.mpr ⟨renamed, memberPass, arrayPass⟩, renamed,
    ⟨renames.members, renames.others⟩, bits⟩

theorem copiedFrom_one (index : Nat) :
    symmetry.copiedFrom 1 index = index := by
  unfold copiedFrom
  cases found : symmetry.lastArray index with
  | none => rfl
  | some array =>
      obtain ⟨position, inside, relative, within, rfl⟩ :=
        exists_position (lastArray_eq_some found).2
      simp only [preimage_element within, inv_one, image_one, Perm.one_apply]

theorem Copies.refl (source : Block size) :
    symmetry.Copies 1 source source :=
  ⟨source, ⟨fun _ _ => by simp, fun _ _ => rfl⟩, fun index => by rw [copiedFrom_one]⟩

/-- There is a canonical form, and some permutation makes it of the state. -/
theorem OfLayout.canonicalize_copies
    (placed : layout.Placed)
    (registered : OfLayout layout symmetry)
    (wide : symmetry.Wide)
    (storable : symmetry.Storable)
    (source : Block layout.bytes) :
    ∃ canonical, symmetry.canonicalize source = .ok canonical ∧
      ∃ permutation, symmetry.Copies permutation source canonical := by
  have computed := fun permutation =>
    registered.relabel_copies placed wide permutation source
  obtain ⟨canonical, found, origin, -, -⟩ :=
    canonicalize_least_of_ok storable fun permutation =>
      (computed permutation).imp fun _ => And.left
  refine ⟨canonical, found, ?_⟩
  rcases origin with rfl | ⟨permutation, relabelled⟩
  · exact ⟨1, .refl canonical⟩
  · obtain ⟨target, relabelledTarget, copies⟩ := computed permutation
    cases relabelled.symm.trans relabelledTarget
    exact ⟨permutation, copies⟩

/-! ## The bits of a scalar -/

section Scalars

variable
  (placed : layout.Placed)
  (registered : OfLayout layout symmetry)
  {leaf : Scalar}
  {offset index : Nat}
  (viewed : layout.HasView ⟨.scalar leaf, offset⟩)
  (inside : index < leaf.width)

include placed registered viewed inside

/-- An array has all bits of a scalar, at one position, or none of them. -/
theorem OfLayout.covers_scalar
    {array : Nat × Nat}
    (present : array ∈ symmetry.arrays) :
    (Covers array.1 (symmetry.size * array.2) (offset + index) ↔
        Covers array.1 (symmetry.size * array.2) offset) ∧
      (Covers array.1 (symmetry.size * array.2) offset →
        (offset + index - array.1) / array.2 = (offset - array.1) / array.2) := by
  obtain ⟨_, element, start, arrayViewed, sized, rfl⟩ := registered.arrays array present
  rw [← sized]
  rcases placed.scalar_array viewed arrayViewed with
    ⟨position, below, relative, rfl, within⟩ | apart
  · rw [Nat.add_assoc (start + _)]
    simp only
    rw [position_element (show relative + index < element.width by omega),
      position_element (show relative < element.width by omega)]
    exact ⟨⟨fun _ => covers_element start below (by omega),
      fun _ => covers_element start below (by omega)⟩, fun _ => rfl⟩
  · have outside {place : Nat} (within : place < leaf.width) :=
      apart.shareNoBit (offset + place) (by unfold Covers; omega)
    exact ⟨⟨fun covers => absurd covers (outside inside),
      fun covers => absurd covers (outside (show 0 < leaf.width by omega))⟩,
      fun covers => absurd covers (outside (show 0 < leaf.width by omega))⟩

/-- A scalar has its bits from one array, or from none. -/
theorem OfLayout.lastArray_scalar :
    symmetry.lastArray (offset + index) = symmetry.lastArray offset := by
  refine List.find?_congr fun array present => ?_
  rw [decide_eq_decide]
  exact (registered.covers_scalar placed viewed inside (List.mem_reverse.mp present)).1

end Scalars

end Loops

end PermutationSymmetry
end StateSpace
