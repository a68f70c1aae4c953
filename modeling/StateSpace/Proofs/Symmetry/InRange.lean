import StateSpace.Proofs.Layout.Proper
import StateSpace.Proofs.Symmetry.Overlap

/-!
# Scalars of relabelled states

Any range or enumeration can be registered as a field that holds an identity,
also one with fewer values than there are identities. If it has too few bits as
well, then some relabelling of some state cannot be written. If only the values
are too few, a relabelling can store a number that is no ordinal. Neither can
happen if every registered field has a value for each identity.
-/

namespace StateSpace

open Equiv

section Relabelled

variable {layout : Layout}

/-- Every scalar holds a value of its type. -/
def Layout.InRange
    (layout : Layout)
    (block : Block layout.bytes) : Prop :=
  ∀ view, layout.HasView view → view.ty.isScalar = true →
    ∃ value, view.get block = .ok value ∧ value.HasType view.ty

/-- The scalars of a block are in range if their numbers are ordinals. -/
theorem Layout.Placed.inRange_iff
    (placed : layout.Placed)
    {block : Block layout.bytes} :
    layout.InRange block ↔ ∀ leaf offset, layout.HasView ⟨.scalar leaf, offset⟩ →
      block.extract offset leaf.width < leaf.cardinality := by
  have read (leaf : Scalar) (offset : Nat)
    (viewed : layout.HasView ⟨.scalar leaf, offset⟩) :
      View.get ⟨.scalar leaf, offset⟩ block =
          .ok (leaf.decode (block.extract offset leaf.width)) ∧
        ((leaf.decode (block.extract offset leaf.width)).HasType (.scalar leaf) ↔
          block.extract offset leaf.width < leaf.cardinality) := by
    obtain ⟨shaped, fits⟩ := placed.shaped_fits viewed
    cases shaped with
    | scalar narrow =>
        exact ⟨View.get_scalar fits.window narrow,
          Scalar.hasType_decode narrow (block.extract_lt _ _)⟩
  constructor
  · intro inRange leaf offset viewed
    obtain ⟨value, got, typed⟩ := inRange _ viewed rfl
    obtain ⟨decoded, ordinal⟩ := read leaf offset viewed
    cases got.symm.trans decoded
    exact ordinal.mp typed
  · rintro small ⟨ty, offset⟩ viewed scalar
    cases ty with
    | scalar leaf =>
        obtain ⟨decoded, ordinal⟩ := read leaf offset viewed
        exact ⟨_, decoded, ordinal.mpr (small leaf offset viewed)⟩
    | array index element => cases scalar
    | record fields => cases scalar

/-! ## Scalars in the same place of another element -/

theorem Ty.mem_placeFields_shift
    {fields : List (String × Ty)}
    {offset start : Nat}
    {name : String}
    {ty : Ty}
    (member : (name, ty, start) ∈ Ty.placeFields offset fields) :
    ∃ relative, start = offset + relative ∧
      ∀ other, (name, ty, other + relative) ∈ Ty.placeFields other fields := by
  have placed (other : Nat) := Ty.placeFields_add other 0 fields
  simp only [Nat.add_zero] at placed
  rw [placed] at member
  obtain ⟨⟨label, labelTy, relative⟩, present, same⟩ := List.mem_map.mp member
  cases same
  refine ⟨relative, rfl, fun other => ?_⟩
  rw [placed]
  exact List.mem_map.mpr ⟨_, present, rfl⟩

/-- What a type contains does not depend on where its value lies. -/
theorem Ty.Contains.shift
    {whole part : Ty}
    {offset place : Nat}
    (contains : Ty.Contains whole offset part place)
    (other : Nat) :
    ∃ relative, place = offset + relative ∧
      Ty.Contains whole other part (other + relative) := by
  induction contains generalizing other with
  | whole => exact ⟨0, rfl, .whole⟩
  | @element index element part offset position place inside _ inductionHypothesis =>
      obtain ⟨relative, rfl, within⟩ :=
        inductionHypothesis (other + position * element.width)
      refine ⟨position * element.width + relative, Nat.add_assoc _ _ _,
        .element inside ?_⟩
      rwa [← Nat.add_assoc]
  | @field fields name ty part offset start place member _ inductionHypothesis =>
      obtain ⟨first, rfl, present⟩ := Ty.mem_placeFields_shift member
      obtain ⟨relative, rfl, within⟩ := inductionHypothesis (other + first)
      refine ⟨first + relative, Nat.add_assoc _ _ _, .field (present other) ?_⟩
      rwa [← Nat.add_assoc]

/-- A scalar in one element of an array has siblings in all elements. -/
theorem Layout.Built.sibling_hasView
    (built : layout.Built)
    {index leaf : Scalar}
    {element : Ty}
    {offset position relative : Nat}
    (arrayViewed : layout.HasView ⟨.array index element, offset⟩)
    (inside : position < index.count)
    (viewed : layout.HasView
      ⟨.scalar leaf, offset + position * element.width + relative⟩)
    (within : relative + leaf.width ≤ element.width)
    (nonempty : 0 < leaf.width)
    {other : Nat}
    (otherInside : other < index.count) :
    layout.HasView ⟨.scalar leaf, offset + other * element.width + relative⟩ := by
  have elementViewed {place : Nat} (placeInside : place < index.count) :
      layout.HasView ⟨element, offset + place * element.width⟩ := by
    refine arrayViewed.part (built.addressed arrayViewed) ?_
    rw [View.parts_array]
    exact List.mem_map.mpr ⟨place, List.mem_range.mpr placeInside, rfl⟩
  rcases built.placed.nested_or_apart viewed (elementViewed inside)
    with nested | nested | apart
  · obtain ⟨same, start⟩ := nested.of_scalar
    simp only at same start
    obtain rfl : relative = 0 := by omega
    rw [Nat.add_zero, ← same]
    exact elementViewed otherInside
  · obtain ⟨distance, start, contained⟩ := nested.shift (offset + other * element.width)
    simp only at start
    obtain rfl : relative = distance := by omega
    exact (built.scalars_hasView (elementViewed otherInside)
      (contained.mem_scalars rfl)).2
  · simp only [Apart, View.width, Ty.width] at apart
    omega

namespace PermutationSymmetry

variable {symmetry : PermutationSymmetry}

/-- Every registered field has a value for each identity. -/
def Roomy
    (layout : Layout)
    (symmetry : PermutationSymmetry) : Prop :=
  ∀ leaf offset, layout.HasView ⟨.scalar leaf, offset⟩ →
    (offset, leaf.width) ∈ symmetry.members → symmetry.size ≤ leaf.cardinality

theorem OfLayout.wide
    (registered : OfLayout layout symmetry)
    (roomy : Roomy layout symmetry) :
    symmetry.Wide := by
  intro member present
  obtain ⟨leaf, offset, viewed, rfl⟩ := registered.members member present
  exact (roomy leaf offset viewed present).trans leaf.cardinality_le

/-! ## Relabelling keeps scalars in range -/

section Keeping

variable
  {permutation : Perm (Fin symmetry.size)}
  {source target : Block layout.bytes}

theorem OfLayout.inRange_renames
    (placed : layout.Placed)
    (registered : OfLayout layout symmetry)
    (roomy : Roomy layout symmetry)
    (inRange : layout.InRange source)
    (renames : symmetry.Renames permutation source target) :
    layout.InRange target := by
  rw [placed.inRange_iff] at inRange ⊢
  intro leaf offset viewed
  have small := inRange leaf offset viewed
  by_cases isMember : (offset, leaf.width) ∈ symmetry.members
  · rw [renames.members _ isMember]
    rcases Nat.lt_or_ge (source.extract offset leaf.width) symmetry.size
      with identity | outside
    · exact (image_lt permutation identity).trans_le (roomy leaf offset viewed isMember)
    · rwa [image_of_le permutation outside]
  · rw [Block.extract_congr fun index inside => renames.others (offset + index) ?_]
    · exact small
    · intro member present covers
      obtain ⟨other, place, otherViewed, rfl⟩ := registered.members member present
      rcases placed.scalars viewed otherViewed with ⟨rfl, rfl⟩ | apart
      · exact isMember present
      · exact apart.shareNoBit _ (by unfold Covers; omega) covers

/-- The arrays are copied scalar by scalar. -/
theorem OfLayout.inRange_copied
    (built : layout.Built)
    (registered : OfLayout layout symmetry)
    {renamed : Block layout.bytes}
    (inRange : layout.InRange renamed)
    (bits : ∀ index, target.bit index =
      renamed.bit (symmetry.copiedFrom permutation index)) :
    layout.InRange target := by
  rw [built.placed.inRange_iff] at inRange ⊢
  intro leaf offset viewed
  have sameArray (index : Nat) (inside : index < leaf.width) :=
    registered.lastArray_scalar built.placed viewed inside
  rcases Nat.eq_zero_or_pos leaf.width with empty | nonempty
  · have nothing := target.extract_lt offset leaf.width
    rw [empty, pow_zero, Nat.lt_one_iff] at nothing
    rw [empty, nothing]
    exact leaf.cardinality_pos
  cases found : symmetry.lastArray offset with
  | none =>
      rw [Block.extract_congr fun index inside => ?_]
      · exact inRange leaf offset viewed
      · rw [bits, copiedFrom, sameArray index inside, found]
  | some array =>
      obtain ⟨present, covers⟩ := lastArray_eq_some found
      obtain ⟨_, element, start, arrayViewed, sized, rfl⟩ :=
        registered.arrays array present
      rw [← sized] at covers
      rcases built.placed.scalar_array viewed arrayViewed with
        ⟨position, below, relative, rfl, within⟩ | apart
      · have moved : image permutation⁻¹ position < symmetry.size :=
          image_lt _ (below.trans_eq sized)
        have sibling := built.sibling_hasView arrayViewed below viewed within nonempty
          (moved.trans_eq sized.symm)
        rw [Block.extract_congr fun index inside => ?_]
        · exact inRange leaf _ sibling
        · rw [bits, copiedFrom, sameArray index inside, found, Nat.add_assoc (start + _)]
          simp only
          rw [preimage_element (by simp only; omega)]
          exact congrArg renamed.bit (Nat.add_assoc _ _ _).symm
      · exact absurd covers (apart.shareNoBit _ (by unfold Covers; omega))

theorem OfLayout.inRange_copies
    (built : layout.Built)
    (registered : OfLayout layout symmetry)
    (roomy : Roomy layout symmetry)
    (inRange : layout.InRange source)
    (copies : symmetry.Copies permutation source target) :
    layout.InRange target := by
  obtain ⟨renamed, renames, bits⟩ := copies
  exact registered.inRange_copied built
    (registered.inRange_renames built.placed roomy inRange renames) bits

end Keeping

/-! ## Relabellings that cannot be written -/

theorem foldlM_eq_ok_mem
    {ε State Item : Type}
    {step : State → Item → Except ε State}
    {items : List Item}
    {before after : State}
    (finished : items.foldlM step before = .ok after)
    {item : Item}
    (present : item ∈ items) :
    ∃ middle next, step middle item = .ok next := by
  induction items generalizing before with
  | nil => cases present
  | cons first rest inductionHypothesis =>
      obtain ⟨middle, stepped, finished⟩ := bind_eq_ok.mp finished
      rcases List.mem_cons.mp present with rfl | later
      · exact ⟨before, middle, stepped⟩
      · exact inductionHypothesis finished later

/-- A canonical form is found only if no relabelling fails. -/
theorem relabel_ok_of_canonicalize
    {size : Nat}
    {source canonical : Block size}
    (nontrivial : symmetry.isTrivial = false)
    (found : symmetry.canonicalize source = .ok canonical) :
    8 * symmetry.size < Word.allocationLimit ∧
      ∀ permutation : Perm (Fin symmetry.size), permutation ≠ 1 → ∃ target,
        symmetry.relabel (Heap.listing symmetry.size (image permutation)) source =
          .ok target := by
  unfold canonicalize at found
  rw [if_neg (by simp [nontrivial])] at found
  split at found
  · cases found
  · refine ⟨by omega, fun permutation moved => ?_⟩
    rw [Heap.foldPermutations_eq] at found
    obtain ⟨_, _, visited⟩ := foldlM_eq_ok_mem found (listing_mem_permutations moved)
    obtain ⟨target, relabelled, -⟩ := bind_eq_ok.mp visited
    exact ⟨target, relabelled⟩

/-- The first and the last identity can be exchanged in a state that holds the
first one in all fields only if the fields can hold the last one. -/
theorem OfLayout.wide_of_relabel
    (placed : layout.Placed)
    (registered : OfLayout layout symmetry)
    {permutation : Perm (Fin symmetry.size)}
    (nonempty : 0 < symmetry.size)
    (exchanged : image permutation 0 = symmetry.size - 1)
    {target : Block layout.bytes}
    (relabelled : symmetry.relabel (Heap.listing symmetry.size (image permutation))
      (.zero layout.bytes) = .ok target) :
    symmetry.Wide := by
  intro member present
  obtain ⟨leaf, offset, viewed, rfl⟩ := registered.members member present
  obtain ⟨shaped, fits⟩ := placed.shaped_fits viewed
  obtain ⟨renamed, memberPass, -⟩ := bind_eq_ok.mp relabelled
  obtain ⟨middle, next, stepped⟩ := foldlM_eq_ok_mem memberPass present
  cases shaped with
  | scalar narrow =>
      obtain ⟨identity, read, written⟩ := bind_eq_ok.mp stepped
      have zero := (Block.zero layout.bytes).read_eq fits narrow
      simp only [View.width, Ty.width, Block.extract_zero] at zero
      rw [zero] at read
      cases read
      rw [if_pos nonempty, Heap.getElem_listing _ nonempty, Option.getD_some, exchanged]
        at written
      unfold Block.write at written
      rw [if_neg (by omega)] at written
      split at written
      · cases written
      · rename_i fitting
        have small : (symmetry.size - 1) / 2 ^ leaf.width = 0 := by
          rw [← Nat.shiftRight_eq_div_pow]
          exact not_not.mp fitting
        have below := (Nat.div_eq_zero_iff_lt (Nat.two_pow_pos _)).mp small
        simp only
        omega

/-- A canonical form of the state that is clear is found only if there is room for
the relabellings and every field can hold the last identity. -/
theorem OfLayout.wide_of_canonicalize
    (placed : layout.Placed)
    (registered : OfLayout layout symmetry)
    (nontrivial : symmetry.isTrivial = false)
    {canonical : Block layout.bytes}
    (found : symmetry.canonicalize (.zero layout.bytes) = .ok canonical) :
    8 * symmetry.size < Word.allocationLimit ∧ symmetry.Wide := by
  have several : 2 ≤ symmetry.size := by
    by_contra few
    simp [isTrivial, show symmetry.size < 2 by omega] at nontrivial
  have firstInside : 0 < symmetry.size := by omega
  have lastInside : symmetry.size - 1 < symmetry.size := by omega
  obtain ⟨room, relabelled⟩ := relabel_ok_of_canonicalize nontrivial found
  obtain ⟨permutation, exchanged⟩ : ∃ permutation : Perm (Fin symmetry.size),
      image permutation 0 = symmetry.size - 1 := by
    refine ⟨swap ⟨0, firstInside⟩ ⟨symmetry.size - 1, lastInside⟩, ?_⟩
    rw [image_fin _ ⟨0, firstInside⟩, swap_apply_left]
  have moved : permutation ≠ 1 := by
    rintro rfl
    rw [image_one, Perm.one_apply] at exchanged
    omega
  obtain ⟨target, targetFound⟩ := relabelled permutation moved
  exact ⟨room, registered.wide_of_relabel placed firstInside exchanged targetFound⟩

/-- Canonical forms of all states with scalars in range exist exactly if every
registered field has a number for each identity and the relabellings fit one
allocation, unless there is nothing to relabel. The scalars of a canonical form
are in range again if every registered field has a value for each identity. -/
theorem OfLayout.canonicalize_inRange
    (built : layout.Built)
    (registered : OfLayout layout symmetry) :
    ((∀ source, layout.InRange source → ∃ canonical,
        symmetry.canonicalize source = .ok canonical) ↔
      symmetry.isTrivial = true ∨
        8 * symmetry.size < Word.allocationLimit ∧ symmetry.Wide) ∧
    (symmetry.Storable → Roomy layout symmetry → ∀ source, layout.InRange source →
      ∃ canonical, symmetry.canonicalize source = .ok canonical ∧
        layout.InRange canonical) := by
  refine ⟨⟨fun exists_canonical => ?_, ?_⟩, fun storable roomy source inRange => ?_⟩
  · cases trivial : symmetry.isTrivial with
    | true => exact .inl rfl
    | false =>
        obtain ⟨canonical, found⟩ :=
          exists_canonical (.zero layout.bytes) built.placed.zero_proper.scalars
        exact .inr (registered.wide_of_canonicalize built.placed trivial found)
  · rintro (trivial | ⟨room, wide⟩) source -
    · exact ⟨source, if_pos trivial⟩
    · obtain ⟨canonical, found, -⟩ :=
        registered.canonicalize_copies built.placed wide (fun _ => room) source
      exact ⟨canonical, found⟩
  · obtain ⟨canonical, found, permutation, copies⟩ :=
      registered.canonicalize_copies built.placed (registered.wide roomy) storable source
    exact ⟨canonical, found, registered.inRange_copies built roomy inRange copies⟩

end PermutationSymmetry

end Relabelled

/-! ## Fields with and without a value for each identity -/

namespace Twins

theorem scalar_hasView
    {leaf : Scalar}
    {offset : Nat}
    (viewed : layout.HasView ⟨.scalar leaf, offset⟩) :
    leaf = holder ∧ offset = 0 ∨ leaf = process ∧ (offset = 2 ∨ offset = 3) := by
  obtain ⟨declared, member, contained⟩ := viewed.contained
  simp only [layout, List.mem_cons, List.not_mem_nil, or_false] at member
  rcases member with rfl | rfl
  · obtain ⟨same, rfl⟩ := contained.of_scalar
    cases same
    exact .inl ⟨rfl, rfl⟩
  · cases contained with
    | @element _ _ _ _ position _ inside within =>
        obtain ⟨same, rfl⟩ := within.of_scalar
        cases same
        have few : position < 2 := inside
        have width : Ty.width (.scalar process) = 1 := by decide
        rw [width]
        refine .inr ⟨rfl, ?_⟩
        simp only
        omega

theorem symmetry_roomy : PermutationSymmetry.Roomy layout symmetry := by
  intro leaf offset viewed _
  rcases scalar_hasView viewed with ⟨rfl, -⟩ | ⟨rfl, -⟩
  · decide
  · decide

theorem owned_inRange : layout.InRange ⟨9⟩ := by
  rw [layout_built.placed.inRange_iff]
  intro leaf offset viewed
  rcases scalar_hasView viewed with ⟨rfl, rfl⟩ | ⟨rfl, rfl | rfl⟩
  · decide
  · decide
  · decide

/-- Both processes have a value in the owner's field and in one another's. -/
theorem canonicalize_inRange_twins :
    ∃ canonical, symmetry.canonicalize (⟨9⟩ : Block layout.bytes) = .ok canonical ∧
      layout.InRange canonical :=
  (PermutationSymmetry.OfLayout.canonicalize_inRange layout_built symmetry_ofLayout).2
    symmetry_storable symmetry_roomy ⟨9⟩ owned_inRange

end Twins

namespace Guests

theorem early_ordered : (0 : Int64) ≤ 1 := by
  decide

/-- One of the guests that come first. -/
def early : Scalar :=
  .range ⟨0, 1, early_ordered⟩

/-- A hall that is opened by the first or the second guest. -/
def hall : Layout :=
  ⟨#[⟨"opener", .scalar early, 0⟩], 1⟩

/-- Three guests, any of whom may open. -/
def threeGuests : PermutationSymmetry :=
  ⟨3, [], [(0, 1)]⟩

theorem speakers_ordered : (0 : Int64) ≤ 2 := by
  decide

/-- One of the guests that may speak. -/
def speaker : Scalar :=
  .range ⟨0, 2, speakers_ordered⟩

theorem guests_ordered : (0 : Int64) ≤ 3 := by
  decide

/-- A guest. -/
def guest : Scalar :=
  .range ⟨0, 3, guests_ordered⟩

/-- A speaker and those who listen. -/
def table : Layout :=
  ⟨#[⟨"speaker", .scalar speaker, 0⟩, ⟨"first", .scalar guest, 2⟩,
    ⟨"second", .scalar guest, 4⟩, ⟨"third", .scalar guest, 6⟩], 8⟩

/-- Four guests, any of whom may speak. -/
def fourGuests : PermutationSymmetry :=
  ⟨4, [], [(0, 2), (2, 2), (4, 2), (6, 2)]⟩

theorem hall_built : hall.Built := by
  have earlyBuilt : Ty.Built (.scalar early) :=
    .range (show Ty.range? 0 1 = .ok (.scalar early) from rfl)
  refine ⟨[("opener", .scalar early)], ?_, ?_⟩
  · simpa using earlyBuilt
  · simp [Layout.of?, Layout.extend, Layout.empty, Layout.maxVariables]
    rfl

theorem threeGuests_ofLayout : PermutationSymmetry.OfLayout hall threeGuests :=
  .rename (.ofSize 3) (.declared (show hall.view? "opener" = some _ from rfl)) rfl

theorem hall_inRange : hall.InRange (.zero hall.bytes) :=
  hall_built.placed.zero_proper.scalars

theorem table_built : table.Built := by
  have speakerBuilt : Ty.Built (.scalar speaker) :=
    .range (show Ty.range? 0 2 = .ok (.scalar speaker) from rfl)
  have guestBuilt : Ty.Built (.scalar guest) :=
    .range (show Ty.range? 0 3 = .ok (.scalar guest) from rfl)
  refine ⟨[("speaker", .scalar speaker), ("first", .scalar guest),
    ("second", .scalar guest), ("third", .scalar guest)], ?_, ?_⟩
  · simp only [List.mem_cons, List.not_mem_nil, or_false, forall_eq_or_imp, forall_eq]
    exact ⟨speakerBuilt, guestBuilt, guestBuilt, guestBuilt⟩
  · simp [Layout.of?, Layout.extend, Layout.empty, Layout.maxVariables]
    rfl

theorem fourGuests_ofLayout : PermutationSymmetry.OfLayout table fourGuests := by
  have speakerView : table.HasView ⟨.scalar speaker, 0⟩ :=
    .declared (show table.view? "speaker" = some _ from rfl)
  have firstView : table.HasView ⟨.scalar guest, 2⟩ :=
    .declared (show table.view? "first" = some _ from rfl)
  have secondView : table.HasView ⟨.scalar guest, 4⟩ :=
    .declared (show table.view? "second" = some _ from rfl)
  have thirdView : table.HasView ⟨.scalar guest, 6⟩ :=
    .declared (show table.view? "third" = some _ from rfl)
  exact .rename (.rename (.rename (.rename (.ofSize 4) speakerView rfl) firstView rfl)
    secondView rfl) thirdView rfl

theorem table_inRange : table.InRange ⟨0xE4⟩ := by
  rw [table_built.placed.inRange_iff]
  intro leaf offset viewed
  obtain ⟨declared, member, contained⟩ := viewed.contained
  simp only [table, List.mem_cons, List.not_mem_nil, or_false] at member
  rcases member with rfl | rfl | rfl | rfl
  all_goals
    obtain ⟨same, rfl⟩ := contained.of_scalar
    cases same
    decide

/-- The relabellings of a hall cannot all be written. Those of a table can, and
the one whose bytes come first has a guest as speaker who may not speak. -/
theorem canonicalize_narrow_or_outOfRange :
    (hall.Built ∧ PermutationSymmetry.OfLayout hall threeGuests ∧
      hall.InRange (.zero hall.bytes) ∧
      threeGuests.canonicalize (Block.zero hall.bytes) = .error .valueTooWide) ∧
    (table.Built ∧ PermutationSymmetry.OfLayout table fourGuests ∧
      table.InRange ⟨0xE4⟩ ∧
      fourGuests.canonicalize (⟨0xE4⟩ : Block table.bytes) = .ok ⟨0x1B⟩ ∧
      ¬ table.InRange ⟨0x1B⟩) := by
  refine ⟨⟨hall_built, threeGuests_ofLayout, hall_inRange, by decide +kernel⟩,
    table_built, fourGuests_ofLayout, table_inRange, by decide +kernel,
    fun inRange => ?_⟩
  have spoken := table_built.placed.inRange_iff.mp inRange speaker 0
    (.declared (show table.view? "speaker" = some _ from rfl))
  exact absurd spoken (by decide)

end Guests

end StateSpace
