import StateSpace.Proofs.Bits.Bitwise

/-!
# Parts of a view

The parts of an array are its elements, and those of a record are its fields.
They follow one another without a gap, and a composite value is read and written
part by part. What holds of scalars and is passed on from the parts of a value
to the whole of it holds of every value.
-/

namespace StateSpace

variable {size : Nat}

/-- A block of `size` bytes has all bits of a window, whose end is a word. The
empty window may lie anywhere. -/
structure HasWindow (size offset width : Nat) : Prop where
  inside : ∀ index, Covers offset width index → index < 8 * size
  word : offset + width < Word.limit

theorem Fits.window
    {offset width : Nat}
    (fits : Fits size offset width) :
    HasWindow size offset width :=
  ⟨fun _ covers => covers.2.trans_le fits.inside, fits.word⟩

/-- A window of some bits lies inside the block. -/
theorem HasWindow.fits
    {offset width : Nat}
    (window : HasWindow size offset width)
    (nonempty : width ≠ 0) :
    Fits size offset width := by
  have last := window.inside (offset + width - 1)
  unfold Covers at last
  exact ⟨by omega, window.word⟩

/-- The elements of an array or the fields of a record in order. A scalar has
no parts. -/
def View.parts (view : View) : List View :=
  match view.ty with
  | .scalar _ => []
  | .array index element => (⟨view.offset, index, element⟩ : ArrayView).elements
  | .record fields => (⟨view.offset, fields⟩ : RecordView).namedFields.map (·.2)

/-- The values of the parts of a composite value in order. -/
def Value.parts : Value → List Value
  | .array elements => elements
  | .record fields => fields
  | _ => []

/-- The composite value of a type with the given parts. -/
def Ty.compose : Ty → List Value → Value
  | .record _, values => .record values
  | _, values => .array values

@[simp] theorem Ty.parts_compose
    (ty : Ty)
    (values : List Value) :
    (ty.compose values).parts = values := by
  cases ty <;> rfl

/-- The part of a view that a path of positions leads to. -/
def View.at? (view : View) : List Nat → Option View
  | [] => some view
  | position :: path => view.parts[position]?.bind fun part => part.at? path

/-- The part of a value that a path of positions leads to. -/
def Value.at? (value : Value) : List Nat → Option Value
  | [] => some value
  | position :: path => value.parts[position]?.bind fun part => part.at? path

/-! ## Fields as parts -/

theorem Ty.map_placeFields_snd
    (offset : Nat)
    (fields : List (String × Ty)) :
    (Ty.placeFields offset fields).map (fun field => (field.1, field.2.1)) = fields := by
  induction fields generalizing offset with
  | nil => rfl
  | cons field rest inductionHypothesis =>
      obtain ⟨name, ty⟩ := field
      simp only [Ty.placeFields, List.map_cons, inductionHypothesis]

/-- The views of placed fields. -/
theorem RecordView.map_namedFields_snd (record : RecordView) :
    record.namedFields.map (·.2) =
      (Ty.placeFields record.offset record.fields).map fun field =>
        ⟨field.2.1, field.2.2⟩ := by
  simp [RecordView.namedFields]

theorem View.parts_array
    {index : Scalar}
    {element : Ty}
    {offset : Nat} :
    View.parts ⟨.array index element, offset⟩ =
      (List.range index.count).map fun position =>
        ⟨element, offset + position * element.width⟩ :=
  rfl

theorem View.parts_record
    {fields : List (String × Ty)}
    {offset : Nat} :
    View.parts ⟨.record fields, offset⟩ =
      (Ty.placeFields offset fields).map fun field => ⟨field.2.1, field.2.2⟩ :=
  RecordView.map_namedFields_snd ⟨offset, fields⟩

/-! ## Parts lie side by side -/

/-- Views that follow one another without a gap, from one bit to another. -/
inductive View.Tile : List View → Nat → Nat → Prop
  | nil {offset : Nat} : Tile [] offset offset
  | cons
      {view : View}
      {rest : List View}
      {finish : Nat}
      (tile : Tile rest (view.offset + view.width) finish) :
      Tile (view :: rest) view.offset finish

theorem View.Tile.le
    {views : List View}
    {start finish : Nat}
    (tile : View.Tile views start finish) :
    start ≤ finish := by
  induction tile with
  | nil => exact Nat.le_refl _
  | cons _ inductionHypothesis => omega

theorem View.Tile.append
    {first second : List View}
    {start middle finish : Nat}
    (firstTile : View.Tile first start middle)
    (secondTile : View.Tile second middle finish) :
    View.Tile (first ++ second) start finish := by
  induction firstTile with
  | nil => exact secondTile
  | cons _ inductionHypothesis => exact .cons (inductionHypothesis secondTile)

/-- Views that tile are tiled by what each of them is tiled by. -/
theorem View.Tile.flatMap
    {views : List View}
    {start finish : Nat}
    (tile : View.Tile views start finish)
    {refine : View → List View}
    (each : ∀ view ∈ views,
      View.Tile (refine view) view.offset (view.offset + view.width)) :
    View.Tile (views.flatMap refine) start finish := by
  induction tile with
  | nil => exact .nil
  | cons _ inductionHypothesis =>
      rw [List.flatMap_cons]
      exact (each _ (by simp)).append
        (inductionHypothesis fun view member => each view (by simp [member]))

/-- Every view of a tiling lies between its ends. -/
theorem View.Tile.mem
    {views : List View}
    {start finish : Nat}
    (tile : View.Tile views start finish)
    {view : View}
    (member : view ∈ views) :
    start ≤ view.offset ∧ view.offset + view.width ≤ finish := by
  induction tile with
  | nil => cases member
  | cons rest inductionHypothesis =>
      have above := rest.le
      rcases List.mem_cons.mp member with rfl | member
      · exact ⟨Nat.le_refl _, above⟩
      · obtain ⟨low, high⟩ := inductionHypothesis member
        exact ⟨by omega, high⟩

/-- A view of a tiling ends before every later one begins. -/
theorem View.Tile.ordered
    {views : List View}
    {start finish : Nat}
    (tile : View.Tile views start finish) :
    views.Pairwise fun earlier later =>
      earlier.offset + earlier.width ≤ later.offset := by
  induction tile with
  | nil => exact .nil
  | cons rest inductionHypothesis =>
      exact .cons (fun later member => (rest.mem member).1) inductionHypothesis

/-- A bit between the ends of a tiling belongs to one of its views. -/
theorem View.Tile.exists_covers
    {views : List View}
    {start finish index : Nat}
    (tile : View.Tile views start finish)
    (low : start ≤ index)
    (high : index < finish) :
    ∃ view ∈ views, Covers view.offset view.width index := by
  induction tile with
  | nil => omega
  | @cons view rest finish _ inductionHypothesis =>
      by_cases inside : index < view.offset + view.width
      · exact ⟨view, by simp, low, inside⟩
      · obtain ⟨other, member, covers⟩ := inductionHypothesis (by omega) high
        exact ⟨other, by simp [member], covers⟩

theorem View.elements_tile
    (element : Ty)
    (offset first count : Nat) :
    View.Tile
      ((List.range' first count).map fun position =>
        ⟨element, offset + position * element.width⟩)
      (offset + first * element.width) (offset + (first + count) * element.width) := by
  induction count generalizing first with
  | zero => exact .nil
  | succ count inductionHypothesis =>
      have rest := inductionHypothesis (first + 1)
      rw [Nat.succ_mul, ← Nat.add_assoc, Nat.add_right_comm first 1 count] at rest
      exact .cons rest

theorem View.fields_tile
    (offset : Nat)
    (fields : List (String × Ty)) :
    View.Tile ((Ty.placeFields offset fields).map fun field => ⟨field.2.1, field.2.2⟩)
      offset (offset + Ty.fieldsWidth fields) := by
  induction fields generalizing offset with
  | nil => exact .nil
  | cons field rest inductionHypothesis =>
      obtain ⟨name, ty⟩ := field
      rw [Ty.fieldsWidth, ← Nat.add_assoc]
      exact .cons (inductionHypothesis (offset + ty.width))

/-- The parts of a composite value tile it. -/
theorem View.parts_tile
    {view : View}
    (composite : view.ty.isScalar = false) :
    View.Tile view.parts view.offset (view.offset + view.width) := by
  obtain ⟨ty, offset⟩ := view
  cases ty with
  | scalar leaf => cases composite
  | array index element =>
      have tile := View.elements_tile element offset 0 index.count
      rw [← List.range_eq_range', Nat.zero_mul, Nat.add_zero, Nat.zero_add] at tile
      exact tile
  | record fields =>
      rw [View.parts_record]
      exact View.fields_tile offset fields

theorem View.part_within
    {view part : View}
    (member : part ∈ view.parts) :
    view.offset ≤ part.offset ∧ part.offset + part.width ≤ view.offset + view.width := by
  cases composite : view.ty.isScalar with
  | false => exact (View.parts_tile composite).mem member
  | true =>
      obtain ⟨ty, offset⟩ := view
      cases ty with
      | scalar leaf => cases member
      | array index element => cases composite
      | record fields => cases composite

/-- The window of a part is inside the view's. -/
theorem View.part_window
    {view part : View}
    (window : HasWindow size view.offset view.width)
    (member : part ∈ view.parts) :
    HasWindow size part.offset part.width := by
  obtain ⟨low, high⟩ := View.part_within member
  refine ⟨fun index covers => window.inside index ?_, by have := window.word; omega⟩
  unfold Covers at covers ⊢
  omega

/-- What a path leads to lies inside the view. -/
theorem View.at?_within
    {view part : View}
    {path : List Nat}
    (found : view.at? path = some part) :
    view.offset ≤ part.offset ∧ part.offset + part.width ≤ view.offset + view.width := by
  induction path generalizing view with
  | nil =>
      cases found
      exact ⟨Nat.le_refl _, Nat.le_refl _⟩
  | cons position path inductionHypothesis =>
      obtain ⟨middle, present, within⟩ := Option.bind_eq_some_iff.mp found
      have outer := View.part_within (List.mem_of_getElem? present)
      have inner := inductionHypothesis within
      omega

/-! ## From the parts to the whole -/

/-- A view that has parts is composite. -/
theorem View.composite_of_part
    {view part : View}
    (member : part ∈ view.parts) :
    view.ty.isScalar = false := by
  obtain ⟨ty, offset⟩ := view
  cases ty with
  | scalar leaf => cases member
  | array index element => rfl
  | record fields => rfl

theorem View.part_shaped
    {view part : View}
    (shaped : view.ty.Shaped)
    (member : part ∈ view.parts) :
    part.ty.Shaped := by
  obtain ⟨ty, offset⟩ := view
  cases shaped with
  | scalar narrow => cases member
  | array elementShaped bounded =>
      obtain ⟨position, -, rfl⟩ := List.mem_map.mp member
      exact elementShaped
  | record fieldsShaped bounded =>
      rw [View.parts_record] at member
      obtain ⟨⟨name, ty, start⟩, placed, rfl⟩ := List.mem_map.mp member
      exact fieldsShaped _ (Ty.mem_placeFields placed).1

/-- What holds of narrow scalars and of every composite value whose parts it
holds of holds of all shaped values. -/
@[elab_as_elim]
theorem View.shaped_induction
    {motive : (view : View) → view.ty.Shaped → Prop}
    (scalar : ∀ leaf offset (narrow : leaf.width ≤ 64),
      motive ⟨.scalar leaf, offset⟩ (.scalar narrow))
    (composite : ∀ (view : View) (_ : view.ty.isScalar = false) (shaped : view.ty.Shaped)
      (_ : ∀ part (member : part ∈ view.parts),
        motive part (View.part_shaped shaped member)),
      motive view shaped)
    (view : View)
    (shaped : view.ty.Shaped) :
    motive view shaped := by
  obtain ⟨ty, offset⟩ := view
  change ty.Shaped at shaped
  induction shaped generalizing offset with
  | scalar narrow => exact scalar _ _ narrow
  | array elementShaped bounded inductionHypothesis =>
      refine composite _ rfl (.array elementShaped bounded) fun part member => ?_
      obtain ⟨position, -, rfl⟩ := List.mem_map.mp member
      exact inductionHypothesis _
  | record fieldsShaped bounded inductionHypothesis =>
      refine composite _ rfl (.record fieldsShaped bounded) fun part member => ?_
      rw [View.parts_record] at member
      obtain ⟨⟨name, ty, start⟩, placed, rfl⟩ := List.mem_map.mp member
      exact inductionHypothesis _ (Ty.mem_placeFields placed).1 _

/-! ## Composite values are read part by part -/

theorem Ty.loadFields_eq_mapM
    (block : Block size)
    (offset : Nat)
    (fields : List (String × Ty)) :
    Ty.loadFields block offset fields =
      ((Ty.placeFields offset fields).map fun field =>
        (⟨field.2.1, field.2.2⟩ : View)).mapM
        fun part => part.get block := by
  induction fields generalizing offset with
  | nil => rfl
  | cons field rest inductionHypothesis =>
      obtain ⟨name, ty⟩ := field
      simp only [Ty.loadFields, Ty.placeFields, List.map_cons, List.mapM_cons, View.get,
        inductionHypothesis]

theorem View.get_composite
    {view : View}
    (composite : view.ty.isScalar = false)
    (block : Block size) :
    view.get block = view.ty.compose <$> view.parts.mapM fun part => part.get block := by
  obtain ⟨ty, offset⟩ := view
  cases ty with
  | scalar leaf => cases composite
  | array index element =>
      rw [View.parts_array, List.mapM_map, map_eq_pure_bind]
      rfl
  | record fields =>
      rw [View.parts_record, ← Ty.loadFields_eq_mapM, map_eq_pure_bind]
      rfl

/-- A sequence of attempts succeeds exactly if each has its result. -/
theorem mapM_eq_ok
    {ε α β : Type}
    {attempt : α → Except ε β}
    {items : List α}
    {results : List β} :
    items.mapM attempt = .ok results ↔
      List.Forall₂ (fun item result => attempt item = .ok result) items results := by
  induction items generalizing results with
  | nil =>
      rw [List.mapM_nil, List.forall₂_nil_left_iff]
      exact ⟨fun same => by cases same; rfl, fun same => by cases same; rfl⟩
  | cons item rest inductionHypothesis =>
      rw [List.mapM_cons, bind_eq_ok, List.forall₂_cons_left_iff]
      constructor
      · rintro ⟨result, found, more⟩
        obtain ⟨others, othersFound, returned⟩ := bind_eq_ok.mp more
        cases returned
        exact ⟨result, others, found, inductionHypothesis.mp othersFound, rfl⟩
      · rintro ⟨result, others, found, othersFound, rfl⟩
        exact ⟨result, found,
          bind_eq_ok.mpr ⟨others, inductionHypothesis.mpr othersFound, rfl⟩⟩

/-- Related lists have related items at the same positions. -/
theorem forall₂_getElem?
    {α β : Type}
    {related : α → β → Prop}
    {firsts : List α}
    {seconds : List β}
    (each : List.Forall₂ related firsts seconds)
    {position : Nat}
    {first : α}
    (found : firsts[position]? = some first) :
    ∃ second, seconds[position]? = some second ∧ related first second := by
  obtain ⟨inside, rfl⟩ := List.getElem?_eq_some_iff.mp found
  have bound : position < seconds.length := each.length_eq ▸ inside
  exact ⟨seconds[position], List.getElem?_eq_getElem bound, each.get inside bound⟩

/-- A composite value is read exactly if its parts are. -/
theorem View.get_composite_eq_ok
    {view : View}
    (composite : view.ty.isScalar = false)
    {block : Block size}
    {value : Value} :
    view.get block = .ok value ↔
      ∃ values, value = view.ty.compose values ∧
        List.Forall₂ (fun part value => part.get block = .ok value) view.parts
          values := by
  rw [View.get_composite composite, map_eq_pure_bind, bind_eq_ok]
  refine exists_congr fun values => ?_
  rw [mapM_eq_ok, and_comm]
  exact and_congr_left fun _ =>
    ⟨fun same => by cases same; rfl, fun same => by cases same; rfl⟩

end StateSpace
