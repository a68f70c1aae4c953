import StateSpace.Proofs.View.Typing

/-!
# What a view reads

A view whose window lies inside a block reads a value, which depends on the bits
of the window alone and determines them, whatever the size of the block. The
value has at every position what the part of the view there reads.
-/

namespace StateSpace

variable {size : Nat}

/-- A view inside a block reads a value. -/
theorem View.get_ok
    {view : View}
    (shaped : view.ty.Shaped)
    (window : HasWindow size view.offset view.width)
    (block : Block size) :
    ∃ value, view.get block = .ok value := by
  induction view, shaped using View.shaped_induction with
  | scalar leaf offset narrow => exact ⟨_, View.get_scalar window narrow⟩
  | composite view composite shaped inductionHypothesis =>
      obtain ⟨values, found⟩ := mapM_ok fun part member =>
        inductionHypothesis part member (View.part_window window member)
      exact ⟨_, (View.get_composite_eq_ok composite).mpr
        ⟨values, rfl, mapM_eq_ok.mp found⟩⟩

/-- What a view reads depends on the bits of its window alone. -/
theorem View.get_congr
    {otherSize : Nat}
    {view : View}
    (shaped : view.ty.Shaped)
    (window : HasWindow size view.offset view.width)
    (otherWindow : HasWindow otherSize view.offset view.width)
    {first : Block size}
    {second : Block otherSize}
    (same : ∀ index, Covers view.offset view.width index →
      first.bit index = second.bit index) :
    view.get first = view.get second := by
  induction view, shaped using View.shaped_induction with
  | scalar leaf offset narrow =>
      rw [View.get_scalar window narrow, View.get_scalar otherWindow narrow]
      congr 2
      refine Block.extract_congr fun index inside => same _ ⟨?_, ?_⟩
      · exact Nat.le_add_right ..
      · exact Nat.add_lt_add_left inside _
  | composite view composite shaped inductionHypothesis =>
      have each : (view.parts.map fun part => part.get first) =
          view.parts.map fun part => part.get second := by
        refine List.map_congr_left fun part member => ?_
        refine inductionHypothesis part member (View.part_window window member)
          (View.part_window otherWindow member) fun index covers => ?_
        have within := View.part_within member
        unfold Covers at covers
        exact same index ⟨by omega, by omega⟩
      have reads := congrArg (List.mapM id) each
      rw [List.mapM_map, List.mapM_map] at reads
      rw [View.get_composite composite, View.get_composite composite]
      exact congrArg (view.ty.compose <$> ·) reads

/-- Blocks in which a view reads the same value agree in the bits of its
window. -/
theorem View.bit_eq_of_get
    {otherSize : Nat}
    {view : View}
    (shaped : view.ty.Shaped)
    (window : HasWindow size view.offset view.width)
    (otherWindow : HasWindow otherSize view.offset view.width)
    {first : Block size}
    {second : Block otherSize}
    (same : view.get first = view.get second)
    {index : Nat}
    (covers : Covers view.offset view.width index) :
    first.bit index = second.bit index := by
  induction view, shaped using View.shaped_induction with
  | scalar leaf offset narrow =>
      rw [View.get_scalar window narrow, View.get_scalar otherWindow narrow] at same
      have fields : first.extract offset leaf.width = second.extract offset leaf.width :=
        Scalar.decode_injective narrow (first.extract_lt _ _) (second.extract_lt _ _)
          (Except.ok.inj same)
      have field : Covers offset leaf.width index := covers
      rw [first.bit_eq_testBit field, second.bit_eq_testBit field, fields]
  | composite view composite shaped inductionHypothesis =>
      obtain ⟨value, found⟩ := View.get_ok shaped window first
      obtain ⟨values, composed, each⟩ := (View.get_composite_eq_ok composite).mp found
      obtain ⟨others, recomposed, again⟩ :=
        (View.get_composite_eq_ok composite).mp (same.symm.trans found)
      have equal : values = others := by
        rw [← view.ty.parts_compose values, ← composed, recomposed,
          view.ty.parts_compose]
      subst equal
      obtain ⟨part, member, within⟩ :=
        (View.parts_tile composite).exists_covers covers.1 covers.2
      obtain ⟨position, inside, rfl⟩ := List.getElem_of_mem member
      have present := List.getElem?_eq_getElem inside
      obtain ⟨one, oneFound, oneRead⟩ := forall₂_getElem? each present
      obtain ⟨other, otherFound, otherRead⟩ := forall₂_getElem? again present
      cases oneFound.symm.trans otherFound
      exact inductionHypothesis _ member (View.part_window window member)
        (View.part_window otherWindow member) (oneRead.trans otherRead.symm) within

/-- What a view reads has at every position what the part there reads. -/
theorem View.get_at?
    {view part : View}
    {block : Block size}
    {value : Value}
    {path : List Nat}
    (read : view.get block = .ok value)
    (found : view.at? path = some part) :
    ∃ there, value.at? path = some there ∧ part.get block = .ok there := by
  induction path generalizing view value with
  | nil =>
      cases found
      exact ⟨value, rfl, read⟩
  | cons position path inductionHypothesis =>
      obtain ⟨middle, present, within⟩ := Option.bind_eq_some_iff.mp found
      have composite := View.composite_of_part (List.mem_of_getElem? present)
      obtain ⟨values, rfl, each⟩ := (View.get_composite_eq_ok composite).mp read
      obtain ⟨between, stored, middleRead⟩ := forall₂_getElem? each present
      obtain ⟨there, reached, partRead⟩ := inductionHypothesis middleRead within
      refine ⟨there, ?_, partRead⟩
      rw [Value.at?, Ty.parts_compose, stored]
      exact reached

end StateSpace
