import StateSpace.Proofs.Layout.Readable

/-!
# Where the views of a layout lie

A view of a layout is one of its variables, an element of an array that has a
view, or a field of a record that has one. The places of two views are nested
as their types are, or they share no bits: two scalars lie in one place or
apart, and a scalar lies outside an array or inside one of its elements.
-/

namespace StateSpace

/-- A view that is reached from a variable by elements and fields. -/
inductive Layout.HasView (layout : Layout) : View → Prop
  | declared
      {name : String}
      {view : View}
      (found : layout.view? name = some view) :
      HasView layout view
  | element
      {view element : View}
      {array : ArrayView}
      {position : Nat}
      (viewed : HasView layout view)
      (isArray : view.toArray = .ok array)
      (found : array.element? position = .ok element) :
      HasView layout element
  | field
      {view field : View}
      {record : RecordView}
      {name : String}
      (viewed : HasView layout view)
      (isRecord : view.toRecord = .ok record)
      (found : record.field? name = .ok field) :
      HasView layout field

/-! ## Runs of bits -/

/-- A bit that belongs to a run of bits. -/
def Covers (offset width index : Nat) : Prop :=
  offset ≤ index ∧ index < offset + width

instance (offset width index : Nat) : Decidable (Covers offset width index) :=
  inferInstanceAs (Decidable (_ ∧ _))

/-- Two runs of bits one of which ends before the other begins. -/
def Apart (left leftWidth right rightWidth : Nat) : Prop :=
  left + leftWidth ≤ right ∨ right + rightWidth ≤ left

theorem Apart.symm
    {left leftWidth right rightWidth : Nat}
    (apart : Apart left leftWidth right rightWidth) :
    Apart right rightWidth left leftWidth :=
  Or.symm apart

/-- Parts of runs that lie apart lie apart. -/
theorem Apart.mono
    {left leftWidth right rightWidth first firstWidth second secondWidth : Nat}
    (apart : Apart left leftWidth right rightWidth)
    (firstWithin : left ≤ first ∧ first + firstWidth ≤ left + leftWidth)
    (secondWithin : right ≤ second ∧ second + secondWidth ≤ right + rightWidth) :
    Apart first firstWidth second secondWidth := by
  unfold Apart at apart ⊢
  omega

/-- Two runs of bits that have no bit in common. -/
def ShareNoBit (left leftWidth right rightWidth : Nat) : Prop :=
  ∀ index, Covers left leftWidth index → ¬ Covers right rightWidth index

theorem Apart.shareNoBit
    {left leftWidth right rightWidth : Nat}
    (apart : Apart left leftWidth right rightWidth) :
    ShareNoBit left leftWidth right rightWidth := by
  intro index leftCovers
  unfold Apart at apart
  unfold Covers at leftCovers ⊢
  omega

/-- Different elements of an array lie apart. -/
theorem elements_apart
    {offset width first second : Nat}
    (different : first ≠ second) :
    Apart (offset + first * width) width (offset + second * width) width := by
  rcases Nat.lt_or_gt_of_ne different with before | after
  · have step := element_within width before
    exact .inl (by omega)
  · have step := element_within width after
    exact .inr (by omega)

/-! ## Parts of a value -/

/-- A value of one type that is part of a value of another: the whole of it,
or a part of an element or of a field. -/
inductive Ty.Contains : Ty → Nat → Ty → Nat → Prop
  | whole
      {ty : Ty}
      {offset : Nat} :
      Contains ty offset ty offset
  | element
      {index : Scalar}
      {element part : Ty}
      {offset position place : Nat}
      (inside : position < index.count)
      (within : Contains element (offset + position * element.width) part place) :
      Contains (.array index element) offset part place
  | field
      {fields : List (String × Ty)}
      {name : String}
      {ty part : Ty}
      {offset start place : Nat}
      (member : (name, ty, start) ∈ Ty.placeFields offset fields)
      (within : Contains ty start part place) :
      Contains (.record fields) offset part place

theorem Ty.Contains.trans
    {whole middle part : Ty}
    {offset between place : Nat}
    (outer : Ty.Contains whole offset middle between)
    (inner : Ty.Contains middle between part place) :
    Ty.Contains whole offset part place := by
  induction outer with
  | whole => exact inner
  | element inside _ inductionHypothesis =>
      exact .element inside (inductionHypothesis inner)
  | field member _ inductionHypothesis =>
      exact .field member (inductionHypothesis inner)

/-- A placed field is one of the fields and lies inside the record. -/
theorem Ty.mem_placeFields
    {fields : List (String × Ty)}
    {offset start : Nat}
    {name : String}
    {ty : Ty}
    (member : (name, ty, start) ∈ Ty.placeFields offset fields) :
    (name, ty) ∈ fields ∧ offset ≤ start ∧
      start + ty.width ≤ offset + Ty.fieldsWidth fields := by
  induction fields generalizing offset with
  | nil => cases member
  | cons field rest inductionHypothesis =>
      obtain ⟨firstName, firstTy⟩ := field
      simp only [Ty.fieldsWidth]
      rcases List.mem_cons.mp member with first | later
      · cases first
        exact ⟨by simp, Nat.le_refl _, by omega⟩
      · obtain ⟨present, low, high⟩ := inductionHypothesis later
        exact ⟨List.mem_cons_of_mem _ present, by omega, by omega⟩

/-- Two placed fields are one field or lie apart. -/
theorem Ty.placeFields_apart
    {fields : List (String × Ty)}
    {offset : Nat}
    {first second : String × Ty × Nat}
    (firstMember : first ∈ Ty.placeFields offset fields)
    (secondMember : second ∈ Ty.placeFields offset fields) :
    first = second ∨ Apart first.2.2 first.2.1.width second.2.2 second.2.1.width := by
  induction fields generalizing offset with
  | nil => cases firstMember
  | cons field rest inductionHypothesis =>
      obtain ⟨name, ty⟩ := field
      rcases List.mem_cons.mp firstMember with rfl | firstLater
      · rcases List.mem_cons.mp secondMember with rfl | secondLater
        · exact .inl rfl
        · exact .inr (.inl (Ty.mem_placeFields secondLater).2.1)
      · rcases List.mem_cons.mp secondMember with rfl | secondLater
        · exact .inr (.inr (Ty.mem_placeFields firstLater).2.1)
        · exact inductionHypothesis firstLater secondLater

/-- The bits of a part are bits of the whole. -/
theorem Ty.Contains.within
    {whole part : Ty}
    {offset place : Nat}
    (contains : Ty.Contains whole offset part place) :
    offset ≤ place ∧ place + part.width ≤ offset + whole.width := by
  induction contains with
  | whole => exact ⟨Nat.le_refl _, Nat.le_refl _⟩
  | @element index element part offset position place inside _ inductionHypothesis =>
      have step := element_within element.width inside
      simp only [Ty.width]
      omega
  | field member _ inductionHypothesis =>
      have step := Ty.mem_placeFields member
      simp only [Ty.width]
      omega

theorem Ty.Contains.shaped
    {whole part : Ty}
    {offset place : Nat}
    (contains : Ty.Contains whole offset part place)
    (shaped : whole.Shaped) :
    part.Shaped := by
  induction contains with
  | whole => exact shaped
  | element _ _ inductionHypothesis =>
      cases shaped with
      | array elementShaped _ => exact inductionHypothesis elementShaped
  | field member _ inductionHypothesis =>
      cases shaped with
      | record fieldsShaped _ =>
          exact inductionHypothesis (fieldsShaped _ (Ty.mem_placeFields member).1)

/-- Two parts of a value are nested, or they lie apart. -/
theorem Ty.Contains.nested_or_apart
    {whole first second : Ty}
    {offset firstPlace secondPlace : Nat}
    (firstContained : Ty.Contains whole offset first firstPlace)
    (secondContained : Ty.Contains whole offset second secondPlace) :
    Ty.Contains first firstPlace second secondPlace ∨
      Ty.Contains second secondPlace first firstPlace ∨
        Apart firstPlace first.width secondPlace second.width := by
  induction firstContained with
  | whole => exact .inl secondContained
  | @element index element first offset position firstPlace inside within
      inductionHypothesis =>
      cases secondContained with
      | whole => exact .inr (.inl (.element inside within))
      | @element _ _ _ _ other _ otherInside otherWithin =>
          by_cases same : position = other
          · subst same
            exact inductionHypothesis otherWithin
          · exact .inr
              (.inr ((elements_apart same).mono within.within otherWithin.within))
  | field member within inductionHypothesis =>
      cases secondContained with
      | whole => exact .inr (.inl (.field member within))
      | field otherMember otherWithin =>
          rcases Ty.placeFields_apart member otherMember with same | apart
          · cases same
            exact inductionHypothesis otherWithin
          · exact .inr (.inr (apart.mono within.within otherWithin.within))

/-! ## Views of a layout -/

theorem View.toArray_eq_ok
    {view : View}
    {array : ArrayView}
    (isArray : view.toArray = .ok array) :
    view = ⟨.array array.index array.element, array.offset⟩ := by
  obtain ⟨ty, offset⟩ := view
  unfold View.toArray at isArray
  split at isArray
  · rename_i index element tyEqual
    cases isArray
    cases tyEqual
    rfl
  · cases isArray

theorem View.toRecord_eq_ok
    {view : View}
    {record : RecordView}
    (isRecord : view.toRecord = .ok record) :
    view = ⟨.record record.fields, record.offset⟩ := by
  obtain ⟨ty, offset⟩ := view
  unfold View.toRecord at isRecord
  split at isRecord
  · rename_i fields tyEqual
    cases isRecord
    cases tyEqual
    rfl
  · cases isRecord

theorem ArrayView.element?_eq_ok
    {array : ArrayView}
    {position : Nat}
    {element : View}
    (found : array.element? position = .ok element) :
    position < array.length ∧
      element = ⟨array.element, array.offset + position * array.element.width⟩ := by
  unfold ArrayView.element? at found
  split at found
  · rename_i inside
    cases found
    exact ⟨inside, rfl⟩
  · cases found

/-- Fields are placed relative to the start of their record. -/
theorem Ty.placeFields_add
    (offset start : Nat)
    (fields : List (String × Ty)) :
    Ty.placeFields (offset + start) fields =
      (Ty.placeFields start fields).map fun field =>
        (field.1, field.2.1, offset + field.2.2) := by
  induction fields generalizing start with
  | nil => rfl
  | cons field rest inductionHypothesis =>
      obtain ⟨name, ty⟩ := field
      rw [Ty.placeFields, Ty.placeFields, Nat.add_assoc, inductionHypothesis,
        List.map_cons]

theorem RecordView.field?_eq_ok
    {record : RecordView}
    {name : String}
    {field : View}
    (found : record.field? name = .ok field) :
    ∃ label, (label, field.ty, field.offset) ∈
      Ty.placeFields record.offset record.fields := by
  unfold RecordView.field? at found
  split at found
  · rename_i ty start located
    cases found
    obtain ⟨⟨label, labelTy, labelStart⟩, present, same⟩ :=
      Option.map_eq_some_iff.mp located
    cases same
    refine ⟨label, ?_⟩
    have shifted := Ty.placeFields_add record.offset 0 record.fields
    rw [Nat.add_zero] at shifted
    rw [shifted]
    exact List.mem_map.mpr ⟨_, List.mem_of_find?_eq_some present, rfl⟩
  · cases found

/-- A view of a layout is part of a variable. -/
theorem Layout.HasView.contained
    {layout : Layout}
    {view : View}
    (hasView : layout.HasView view) :
    ∃ declared ∈ layout.entries.toList,
      Ty.Contains declared.ty declared.offset view.ty view.offset := by
  induction hasView with
  | @declared name view found =>
      obtain ⟨declared, present, rfl⟩ := Option.map_eq_some_iff.mp found
      exact ⟨declared,
        Array.mem_toList_iff.mpr (Array.mem_of_find?_eq_some present), .whole⟩
  | @element view element array position _ isArray found inductionHypothesis =>
      obtain ⟨declared, member, contained⟩ := inductionHypothesis
      refine ⟨declared, member, contained.trans ?_⟩
      obtain ⟨inside, rfl⟩ := ArrayView.element?_eq_ok found
      rw [View.toArray_eq_ok isArray]
      exact .element inside .whole
  | @field view field record name _ isRecord found inductionHypothesis =>
      obtain ⟨declared, member, contained⟩ := inductionHypothesis
      refine ⟨declared, member, contained.trans ?_⟩
      obtain ⟨label, placed⟩ := RecordView.field?_eq_ok found
      rw [View.toRecord_eq_ok isRecord]
      exact .field placed .whole

/-- Two variables of a tiling are one variable or lie apart. -/
theorem Layout.Tiled.apart
    {entries : List Variable}
    {start finish : Nat}
    (tiled : Layout.Tiled entries start finish)
    {first second : Variable}
    (firstMember : first ∈ entries)
    (secondMember : second ∈ entries) :
    first = second ∨
      Apart first.offset first.ty.width second.offset second.ty.width := by
  induction tiled with
  | nil => cases firstMember
  | cons tiled inductionHypothesis =>
      rcases List.mem_cons.mp firstMember with rfl | firstLater
      · rcases List.mem_cons.mp secondMember with rfl | secondLater
        · exact .inl rfl
        · exact .inr (.inl (tiled.mem secondLater).1)
      · rcases List.mem_cons.mp secondMember with rfl | secondLater
        · exact .inr (.inr (tiled.mem firstLater).1)
        · exact inductionHypothesis firstLater secondLater

section Views

variable
  {layout : Layout}
  {first second view : View}

/-- A view of a layout has a shaped type and fits the state's bytes. -/
theorem Layout.Placed.shaped_fits
    (placed : layout.Placed)
    (hasView : layout.HasView view) :
    view.ty.Shaped ∧ Fits layout.bytes view.offset view.width := by
  obtain ⟨declared, member, contained⟩ := hasView.contained
  refine ⟨contained.shaped (placed.shaped declared member), ?_⟩
  obtain ⟨low, high⟩ := contained.within
  obtain ⟨inside, word⟩ := placed.fits member
  unfold View.width
  exact ⟨by omega, by omega⟩

/-- Two views of a layout are nested, or they lie apart. -/
theorem Layout.Placed.nested_or_apart
    (placed : layout.Placed)
    (firstViewed : layout.HasView first)
    (secondViewed : layout.HasView second) :
    Ty.Contains first.ty first.offset second.ty second.offset ∨
      Ty.Contains second.ty second.offset first.ty first.offset ∨
        Apart first.offset first.width second.offset second.width := by
  obtain ⟨outer, outerMember, firstContained⟩ := firstViewed.contained
  obtain ⟨other, otherMember, secondContained⟩ := secondViewed.contained
  rcases placed.tiled.apart outerMember otherMember with rfl | apart
  · exact firstContained.nested_or_apart secondContained
  · exact .inr (.inr (apart.mono firstContained.within secondContained.within))

/-- Nothing but itself is part of a scalar. -/
theorem Ty.Contains.of_scalar
    {leaf : Scalar}
    {part : Ty}
    {offset place : Nat}
    (contains : Ty.Contains (.scalar leaf) offset part place) :
    part = .scalar leaf ∧ place = offset := by
  cases contains with
  | whole => exact ⟨rfl, rfl⟩

/-- Two scalars of a layout lie in one place or apart. -/
theorem Layout.Placed.scalars
    {firstLeaf secondLeaf : Scalar}
    {firstOffset secondOffset : Nat}
    (placed : layout.Placed)
    (firstViewed : layout.HasView ⟨.scalar firstLeaf, firstOffset⟩)
    (secondViewed : layout.HasView ⟨.scalar secondLeaf, secondOffset⟩) :
    (firstOffset = secondOffset ∧ firstLeaf = secondLeaf) ∨
      Apart firstOffset firstLeaf.width secondOffset secondLeaf.width := by
  rcases placed.nested_or_apart firstViewed secondViewed with nested | nested | apart
  · obtain ⟨same, place⟩ := nested.of_scalar
    cases same
    exact .inl ⟨place.symm, rfl⟩
  · obtain ⟨same, place⟩ := nested.of_scalar
    cases same
    exact .inl ⟨place, rfl⟩
  · exact .inr (by simpa only [View.width, Ty.width] using apart)

/-- A scalar of a layout lies outside an array or inside one of its elements. -/
theorem Layout.Placed.scalar_array
    {leaf index : Scalar}
    {element : Ty}
    {place offset : Nat}
    (placed : layout.Placed)
    (scalarViewed : layout.HasView ⟨.scalar leaf, place⟩)
    (arrayViewed : layout.HasView ⟨.array index element, offset⟩) :
    (∃ position < index.count, ∃ relative,
      place = offset + position * element.width + relative ∧
        relative + leaf.width ≤ element.width) ∨
      Apart place leaf.width offset (index.count * element.width) := by
  rcases placed.nested_or_apart scalarViewed arrayViewed with nested | nested | apart
  · cases nested.of_scalar.1
  · cases nested with
    | @element _ _ _ _ position _ inside within =>
        have low : offset + position * element.width ≤ place := within.within.1
        have high : place + leaf.width ≤
            offset + position * element.width + element.width := within.within.2
        refine .inl ⟨position, inside,
          place - (offset + position * element.width), ?_, ?_⟩
        · omega
        · omega
  · exact .inr (by simpa only [View.width, Ty.width] using apart)

end Views

end StateSpace
