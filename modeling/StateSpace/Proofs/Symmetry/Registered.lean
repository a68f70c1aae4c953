import StateSpace.Proofs.Symmetry.Relabelling

/-!
# Symmetries over the views of a layout

A symmetry is built from arrays and fields that have views in one layout. The
fields are scalars, so two of them lie in one place or apart, and each lies
outside a registered array or inside one of its elements. What the layout does
not settle is left to the author of the symmetry: `Coherent`.
-/

namespace StateSpace

namespace PermutationSymmetry

/-- A symmetry built over the views of a layout. -/
inductive OfLayout (layout : Layout) : PermutationSymmetry → Prop
  | ofSize (size : Nat) : OfLayout layout (.ofSize size)
  | permuteArray
      {symmetry extended : PermutationSymmetry}
      {view : View}
      {array : ArrayView}
      (registered : OfLayout layout symmetry)
      (hasView : layout.HasView view)
      (isArray : view.toArray = .ok array)
      (accepted : symmetry.permuteArray array = .ok extended) :
      OfLayout layout extended
  | rename
      {symmetry extended : PermutationSymmetry}
      {view : View}
      (registered : OfLayout layout symmetry)
      (hasView : layout.HasView view)
      (accepted : symmetry.rename view = .ok extended) :
      OfLayout layout extended

/-- What an author of a symmetry takes care of: arrays that are the same or
share no bit, members that can hold every identity, and members inside an
element that come with their siblings in all other elements. -/
structure Coherent (symmetry : PermutationSymmetry) : Prop where
  arraysApart : ∀ first ∈ symmetry.arrays, ∀ second ∈ symmetry.arrays,
    first = second ∨
      ShareNoBit first.1 (symmetry.size * first.2) second.1 (symmetry.size * second.2)
  wide : ∀ member ∈ symmetry.members, symmetry.size ≤ 2 ^ member.2
  siblings : ∀ array ∈ symmetry.arrays, ∀ width relative, relative + width ≤ array.2 →
    ∀ position < symmetry.size,
      (array.1 + position * array.2 + relative, width) ∈ symmetry.members →
        ∀ other < symmetry.size,
          (array.1 + other * array.2 + relative, width) ∈ symmetry.members

theorem permuteArray_eq_ok
    {symmetry extended : PermutationSymmetry}
    {array : ArrayView}
    (accepted : symmetry.permuteArray array = .ok extended) :
    array.length = symmetry.size ∧
      extended =
        { symmetry with arrays := symmetry.arrays ++
          [(array.offset, array.element.width)] } := by
  unfold permuteArray at accepted
  split at accepted
  · rename_i sized
    cases accepted
    exact ⟨sized, rfl⟩
  · cases accepted

theorem rename_eq_ok
    {symmetry extended : PermutationSymmetry}
    {view : View}
    (accepted : symmetry.rename view = .ok extended) :
    (∃ leaf, view.ty = .scalar leaf) ∧
      extended = { symmetry with members := symmetry.members ++
        [(view.offset, view.width)] } := by
  unfold rename at accepted
  split at accepted
  · rename_i bounds isRange
    cases accepted
    exact ⟨⟨_, isRange⟩, rfl⟩
  · rename_i members isEnumeration
    cases accepted
    exact ⟨⟨_, isEnumeration⟩, rfl⟩
  · cases accepted

section OfLayout

variable
  {layout : Layout}
  {symmetry : PermutationSymmetry}

/-- The registered arrays have views, and an element for each identity. -/
theorem OfLayout.arrays
    (registered : OfLayout layout symmetry) :
    ∀ array ∈ symmetry.arrays, ∃ index element offset,
      layout.HasView ⟨.array index element, offset⟩ ∧
        index.count = symmetry.size ∧ array = (offset, element.width) := by
  induction registered with
  | ofSize size =>
      intro array present
      cases present
  | permuteArray _ hasView isArray accepted inductionHypothesis =>
      obtain ⟨sized, rfl⟩ := permuteArray_eq_ok accepted
      intro array present
      rcases List.mem_append.mp present with earlier | last
      · exact inductionHypothesis array earlier
      · rw [View.toArray_eq_ok isArray] at hasView
        exact ⟨_, _, _, hasView, sized, List.mem_singleton.mp last⟩
  | rename _ _ accepted inductionHypothesis =>
      obtain ⟨-, rfl⟩ := rename_eq_ok accepted
      exact inductionHypothesis

/-- The registered members have views. -/
theorem OfLayout.members
    (registered : OfLayout layout symmetry) :
    ∀ member ∈ symmetry.members, ∃ leaf offset,
      layout.HasView ⟨.scalar leaf, offset⟩ ∧ member = (offset, leaf.width) := by
  induction registered with
  | ofSize size =>
      intro member present
      cases present
  | permuteArray _ _ _ accepted inductionHypothesis =>
      obtain ⟨-, rfl⟩ := permuteArray_eq_ok accepted
      exact inductionHypothesis
  | @rename _ _ view _ hasView accepted inductionHypothesis =>
      obtain ⟨⟨leaf, isScalar⟩, rfl⟩ := rename_eq_ok accepted
      intro member present
      rcases List.mem_append.mp present with earlier | last
      · exact inductionHypothesis member earlier
      · obtain ⟨ty, offset⟩ := view
        simp only at isScalar
        subst isScalar
        exact ⟨leaf, offset, hasView, List.mem_singleton.mp last⟩

/-- The places of a coherent symmetry over a layout do not cut into one
another. -/
theorem OfLayout.regular
    (placed : layout.Placed)
    (registered : OfLayout layout symmetry)
    (coherent : symmetry.Coherent) :
    symmetry.Regular layout.bytes where
  narrow := by
    intro member present
    obtain ⟨leaf, offset, hasView, rfl⟩ := registered.members member present
    cases (placed.shaped_fits hasView).1 with
    | scalar narrow => exact narrow
  wide := coherent.wide
  membersFit := by
    intro member present
    obtain ⟨leaf, offset, hasView, rfl⟩ := registered.members member present
    exact (placed.shaped_fits hasView).2
  arraysFit := by
    intro array present
    obtain ⟨index, element, offset, hasView, sized, rfl⟩ :=
      registered.arrays array present
    rw [← sized]
    exact (placed.shaped_fits hasView).2
  membersApart := by
    intro first firstPresent second secondPresent
    obtain ⟨_, _, firstView, rfl⟩ := registered.members first firstPresent
    obtain ⟨_, _, secondView, rfl⟩ := registered.members second secondPresent
    rcases placed.scalars firstView secondView with ⟨rfl, rfl⟩ | apart
    · exact .inl rfl
    · exact .inr apart.shareNoBit
  arraysApart := coherent.arraysApart
  inElement := by
    intro member memberPresent array arrayPresent
    obtain ⟨_, _, memberView, rfl⟩ := registered.members member memberPresent
    obtain ⟨_, _, _, arrayView, sized, rfl⟩ := registered.arrays array arrayPresent
    rw [← sized]
    exact (placed.scalar_array memberView arrayView).imp_right Apart.shareNoBit
  siblings := coherent.siblings

end OfLayout

end PermutationSymmetry
end StateSpace
