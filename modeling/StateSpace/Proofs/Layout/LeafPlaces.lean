import StateSpace.Proofs.Layout.Tiling
import StateSpace.Proofs.View.Text
import StateSpace.Trace

/-!
# The leaves of a layout

The paths of the leaves of a state depend on its layout only, and every leaf has
its own bits. The leaves cover all bits of the layout, so a state can be told
from every other state by the texts of its leaves.
-/

namespace StateSpace

variable {size : Nat}

/-- A scalar and the path that leads to it. -/
structure LeafPlace where
  path : String
  offset : Nat
  leaf : Scalar

namespace LeafPlace

/-- The view of the scalar. -/
def view (place : LeafPlace) : View :=
  ⟨.scalar place.leaf, place.offset⟩

/-- The number in the field of the scalar. -/
def number
    (place : LeafPlace)
    (block : Block size) : Nat :=
  block.extract place.offset place.leaf.width

/-- The leaf that a block has there. -/
def shown
    (block : Block size)
    (place : LeafPlace) : Leaf :=
  (place.path, place.leaf.text (place.number block))

end LeafPlace

/-! ## Places of leaves -/

namespace Ty

mutual

/-- The places of the leaves of a value at an offset, under a path. -/
def leafPlaces
    (offset : Nat)
    (path : String) : Ty → List LeafPlace
  | .scalar leaf => [⟨path, offset, leaf⟩]
  | .array index element =>
    (List.range index.count).flatMap fun position =>
      leafPlaces (offset + position * element.width)
        (path ++ "[" ++ index.label position ++ "]") element
  | .record fields => fieldsLeafPlaces offset path fields

/-- The places of the leaves of consecutive fields, under the path of their
record. -/
def fieldsLeafPlaces
    (offset : Nat)
    (path : String) : List (String × Ty) → List LeafPlace
  | [] => []
  | (name, ty) :: rest =>
    leafPlaces offset (path ++ "." ++ name) ty ++
      fieldsLeafPlaces (offset + ty.width) path rest

end

end Ty

/-- The places of the leaves of a value under a path. -/
def View.leafPlaces
    (view : View)
    (path : String) : List LeafPlace :=
  view.ty.leafPlaces view.offset path

/-- The places of the leaves of every variable in declaration order. -/
def Layout.leafPlaces (layout : Layout) : List LeafPlace :=
  layout.entries.toList.flatMap fun declared => declared.view.leafPlaces declared.name

/-- The parts of a view, each with what leads to it from the whole. -/
def View.labelledParts (view : View) : List (String × View) :=
  match view.ty with
  | .scalar _ => []
  | .array index element =>
    (List.range index.count).map fun position =>
      ("[" ++ index.label position ++ "]",
        ⟨element, view.offset + position * element.width⟩)
  | .record fields =>
    (Ty.placeFields view.offset fields).map fun (name, ty, offset) =>
      ("." ++ name, ⟨ty, offset⟩)

theorem View.map_labelledParts_snd (view : View) :
    view.labelledParts.map (·.2) = view.parts := by
  obtain ⟨ty, offset⟩ := view
  cases ty with
  | scalar leaf => rfl
  | array index element => simp [View.labelledParts, View.parts_array]
  | record fields => simp [View.labelledParts, View.parts_record]

theorem View.mem_parts_of_labelled
    {view : View}
    {part : String × View}
    (member : part ∈ view.labelledParts) :
    part.2 ∈ view.parts :=
  view.map_labelledParts_snd ▸ List.mem_map_of_mem member

theorem Ty.fieldsLeafPlaces_eq
    (offset : Nat)
    (path : String)
    (fields : List (String × Ty)) :
    Ty.fieldsLeafPlaces offset path fields =
      (Ty.placeFields offset fields).flatMap fun (name, ty, start) =>
        ty.leafPlaces start (path ++ "." ++ name) := by
  induction fields generalizing offset with
  | nil => rfl
  | cons field rest inductionHypothesis =>
      obtain ⟨name, ty⟩ := field
      simp only [Ty.fieldsLeafPlaces, Ty.placeFields, List.flatMap_cons,
        inductionHypothesis]

/-- A scalar is its own leaf. -/
theorem View.leafPlaces_scalar
    {view : View}
    (scalar : view.ty.isScalar = true)
    (path : String) :
    ∃ place : LeafPlace,
      place.path = path ∧ place.view = view ∧ view.leafPlaces path = [place] := by
  obtain ⟨ty, offset⟩ := view
  cases ty with
  | scalar leaf => exact ⟨⟨path, offset, leaf⟩, rfl, rfl, rfl⟩
  | array index element => cases scalar
  | record fields => cases scalar

/-- The leaves of a composite value are those of its parts. -/
theorem View.leafPlaces_composite
    {view : View}
    (composite : view.ty.isScalar = false)
    (path : String) :
    view.leafPlaces path =
      view.labelledParts.flatMap fun part => part.2.leafPlaces (path ++ part.1) := by
  obtain ⟨ty, offset⟩ := view
  cases ty with
  | scalar leaf => cases composite
  | array index element =>
      simp only [View.leafPlaces, Ty.leafPlaces, View.labelledParts, List.flatMap_map,
        String.append_assoc]
  | record fields =>
      simp only [View.leafPlaces, Ty.leafPlaces, Ty.fieldsLeafPlaces_eq,
        View.labelledParts, List.flatMap_map, String.append_assoc]

/-- The leaves of a value lie where its scalars are. -/
theorem View.map_leafPlaces_view
    (view : View)
    (path : String) :
    (view.leafPlaces path).map LeafPlace.view = view.scalars := by
  induction view using View.scalars.induct generalizing path with
  | case1 view scalar =>
      obtain ⟨place, -, same, single⟩ := View.leafPlaces_scalar scalar path
      rw [View.scalars_scalar scalar, single, List.map_singleton, same]
  | case2 view composite inductionHypothesis =>
      rw [Bool.not_eq_true] at composite
      rw [View.scalars_composite composite, View.leafPlaces_composite composite,
        ← View.map_labelledParts_snd, List.map_flatMap, List.flatMap_map]
      exact List.flatMap_congr fun part member =>
        inductionHypothesis part.2 (View.mem_parts_of_labelled member) (path ++ part.1)

theorem Layout.map_leafPlaces_view (layout : Layout) :
    layout.leafPlaces.map LeafPlace.view = layout.scalars := by
  simp only [Layout.leafPlaces, Layout.scalars, List.map_flatMap,
    View.map_leafPlaces_view]

/-! ## Leaves are shown place by place -/

/-- Attempts that succeed with known results have these results. -/
theorem mapM_eq_map
    {ε α β : Type}
    {attempt : α → Except ε β}
    {result : α → β}
    {items : List α}
    (each : ∀ item ∈ items, attempt item = .ok (result item)) :
    items.mapM attempt = .ok (items.map result) :=
  mapM_eq_ok.mpr (List.forall₂_map_right_iff.mpr (List.forall₂_same.mpr each))

theorem Ty.fieldsLeaves_eq_mapM
    (block : Block size)
    (offset : Nat)
    (path : String)
    (fields : List (String × Ty)) :
    Ty.fieldsLeaves block offset path fields =
      List.flatten <$> (Ty.placeFields offset fields).mapM fun (name, ty, start) =>
        ty.leaves block start (path ++ "." ++ name) := by
  induction fields generalizing offset with
  | nil => rfl
  | cons field rest inductionHypothesis =>
      obtain ⟨name, ty⟩ := field
      simp only [Ty.fieldsLeaves, Ty.placeFields, List.mapM_cons, inductionHypothesis]
      simp

/-- The leaves of a composite value are shown part by part. -/
theorem View.leaves_composite
    {view : View}
    (composite : view.ty.isScalar = false)
    (block : Block size)
    (path : String) :
    view.leaves block path =
      List.flatten <$> view.labelledParts.mapM fun part =>
        part.2.leaves block (path ++ part.1) := by
  obtain ⟨ty, offset⟩ := view
  cases ty with
  | scalar leaf => cases composite
  | array index element =>
      simp only [View.leaves, Ty.leaves, eachBelow_eq_mapM, View.labelledParts,
        List.mapM_map, String.append_assoc, map_eq_pure_bind]
      rfl
  | record fields =>
      simp only [View.leaves, Ty.leaves, Ty.fieldsLeaves_eq_mapM, View.labelledParts,
        List.mapM_map, String.append_assoc]
      rfl

/-- The leaves of a value are what its block has at their places. -/
theorem View.leaves_eq
    {view : View}
    (shaped : view.ty.Shaped)
    (window : HasWindow size view.offset view.width)
    (block : Block size)
    (path : String) :
    view.leaves block path =
      .ok ((view.leafPlaces path).map (LeafPlace.shown block)) := by
  induction view, shaped using View.shaped_induction generalizing path with
  | scalar leaf offset narrow =>
      have rendered := Scalar.render_eq window narrow block
      simp only [View.leaves, Ty.leaves, rendered]
      rfl
  | composite view composite shaped inductionHypothesis =>
      have each : ∀ part ∈ view.labelledParts, part.2.leaves block (path ++ part.1) =
          .ok ((part.2.leafPlaces (path ++ part.1)).map (LeafPlace.shown block)) := by
        intro part member
        have present := View.mem_parts_of_labelled member
        exact inductionHypothesis part.2 present (View.part_window window present) _
      rw [View.leaves_composite composite, mapM_eq_map each,
        View.leafPlaces_composite composite, List.map_flatMap, List.flatMap_def]
      rfl

/-! ## Leaves tell states apart -/

/-- Blocks have the same number at a place if they agree on its bits. -/
theorem LeafPlace.number_eq_iff
    {firstSize secondSize : Nat}
    {first : Block firstSize}
    {second : Block secondSize}
    (place : LeafPlace) :
    place.number first = place.number second ↔
      ∀ index, Covers place.offset place.leaf.width index →
        first.bit index = second.bit index := by
  constructor
  · intro same index covers
    have numbers : first.extract place.offset place.leaf.width =
        second.extract place.offset place.leaf.width := same
    rw [first.bit_eq_testBit covers, second.bit_eq_testBit covers, numbers]
  · intro agree
    apply Nat.eq_of_testBit_eq
    intro index
    simp only [LeafPlace.number, Block.testBit_extract]
    by_cases inside : index < place.leaf.width
    · rw [agree (place.offset + index) ⟨by omega, by omega⟩]
    · simp [inside]

section Layout

variable {layout : Layout}

/-- Every variable has its bits in a block with room for the layout. -/
theorem Layout.Placed.window
    (placed : layout.Placed)
    (room : layout.bits ≤ 8 * size)
    {declared : Variable}
    (member : declared ∈ layout.entries.toList) :
    HasWindow size declared.view.offset declared.view.width := by
  have within : declared.view.offset + declared.view.width ≤ layout.bits :=
    (placed.tiled.mem member).2
  have bounded := placed.bounded
  exact ⟨fun index covers => by unfold Covers at covers; omega, by omega⟩

/-- The leaves of a state are what its block has at the places of its layout. -/
theorem Layout.Placed.leaves_eq
    (placed : layout.Placed)
    (room : layout.bits ≤ 8 * size)
    (block : Block size) :
    layout.leaves block = .ok (layout.leafPlaces.map (LeafPlace.shown block)) := by
  have each : ∀ declared ∈ layout.entries.toList,
    declared.view.leaves block declared.name =
      .ok ((declared.view.leafPlaces declared.name).map (LeafPlace.shown block)) :=
    fun declared member =>
      View.leaves_eq (placed.shaped declared member) (placed.window room member) block _
  rw [Layout.leaves, mapM_eq_map each, Layout.leafPlaces, List.map_flatMap,
    List.flatMap_def]
  rfl

/-- The scalars at the places of a built layout are narrow. -/
theorem Layout.Built.leafPlaces_narrow
    (built : layout.Built)
    {place : LeafPlace}
    (member : place ∈ layout.leafPlaces) :
    place.leaf.width ≤ 64 := by
  have present : place.view ∈ layout.scalars :=
    layout.map_leafPlaces_view ▸ List.mem_map_of_mem member
  have viewed := (built.mem_scalars.mp present).2
  cases (built.placed.shaped_fits viewed).1 with
  | scalar narrow => exact narrow

/-- Blocks agree on the bits of a layout if they have the same numbers at all of
its places. -/
theorem Layout.Placed.numbers_eq_iff
    {firstSize secondSize : Nat}
    {first : Block firstSize}
    {second : Block secondSize}
    (placed : layout.Placed) :
    (∀ place ∈ layout.leafPlaces, place.number first = place.number second) ↔
      ∀ index < layout.bits, first.bit index = second.bit index := by
  have tile := placed.scalars_tile
  rw [← layout.map_leafPlaces_view] at tile
  constructor
  · intro same index inside
    obtain ⟨view, member, covers⟩ := tile.exists_covers (Nat.zero_le index) inside
    obtain ⟨place, present, rfl⟩ := List.mem_map.mp member
    exact place.number_eq_iff.mp (same place present) index covers
  · intro agree place member
    have within : place.offset + place.leaf.width ≤ layout.bits :=
      (tile.mem (List.mem_map_of_mem member)).2
    exact place.number_eq_iff.mpr fun index covers =>
      agree index (covers.2.trans_le within)

/-- Blocks show the same texts at all places of a layout if they agree on the
layout's bits. -/
theorem Layout.Built.texts_eq_iff
    {firstSize secondSize : Nat}
    {first : Block firstSize}
    {second : Block secondSize}
    (built : layout.Built)
    (distinguished : ∀ place ∈ layout.leafPlaces, place.leaf.Distinguished) :
    layout.leafPlaces.map (fun place => place.leaf.text (place.number first)) =
        layout.leafPlaces.map (fun place => place.leaf.text (place.number second)) ↔
      ∀ index < layout.bits, first.bit index = second.bit index := by
  rw [List.map_inj_left, ← built.placed.numbers_eq_iff]
  refine forall₂_congr fun place member => ⟨fun same => ?_, congrArg place.leaf.text⟩
  exact Scalar.text_injective (built.leafPlaces_narrow member)
    (distinguished place member)
    (first.extract_lt _ _) (second.extract_lt _ _) same

/-- Different states that agree beyond the bits of a layout show different texts
somewhere. -/
theorem Layout.Built.exists_text_ne
    (built : layout.Built)
    (distinguished : ∀ place ∈ layout.leafPlaces, place.leaf.Distinguished)
    {first second : Block layout.bytes}
    (padding : ∀ index ≥ layout.bits, first.bit index = second.bit index)
    (different : first ≠ second) :
    ∃ place ∈ layout.leafPlaces,
      place.leaf.text (place.number first) ≠ place.leaf.text (place.number second) := by
  by_contra none
  push Not at none
  have agree := (built.texts_eq_iff distinguished).mp (List.map_inj_left.mpr none)
  refine different (Block.ext fun index _ => ?_)
  rcases Nat.lt_or_ge index layout.bits with inside | beyond
  · exact agree index inside
  · exact padding index beyond

/-- The leaves that change are those whose texts differ. -/
theorem Step.changedLeaves_map
    {α : Type}
    (old new : α → Leaf)
    (items : List α) :
    Step.changedLeaves (items.map old) (items.map new) =
      (items.filter fun item => (old item).2 ≠ (new item).2).map new := by
  induction items with
  | nil => rfl
  | cons item rest inductionHypothesis =>
      by_cases same : (old item).2 = (new item).2
      · simp [Step.changedLeaves, same, inductionHypothesis]
      · simp [Step.changedLeaves, same, inductionHypothesis]

/-- The leaves of any two blocks with room for a layout have the same paths, and
they have the same texts exactly if the blocks agree on the bits of the layout,
even where bits stand for no value. So of two different states that agree
beyond these bits, the later one is shown with a leaf that has changed. -/
theorem Layout.leaves_injective
    (built : layout.Built)
    (distinguished : ∀ place ∈ layout.leafPlaces, place.leaf.Distinguished) :
    (∀ (firstSize secondSize : Nat) (first : Block firstSize)
      (second : Block secondSize),
      layout.bits ≤ 8 * firstSize → layout.bits ≤ 8 * secondSize →
      ∃ firstLeaves secondLeaves,
        layout.leaves first = .ok firstLeaves ∧
        layout.leaves second = .ok secondLeaves ∧
        firstLeaves.map (·.1) = secondLeaves.map (·.1) ∧
        (firstLeaves.map (·.2) = secondLeaves.map (·.2) ↔
          ∀ index < layout.bits, first.bit index = second.bit index)) ∧
    ∀ (first second : Block layout.bytes) (previous step : Step),
      layout.leaves first = .ok previous.leaves →
      layout.leaves second = .ok step.leaves →
      (∀ index ≥ layout.bits, first.bit index = second.bit index) → first ≠ second →
      ∃ old ∈ previous.leaves, ∃ new ∈ step.shownLeaves .diff (some previous),
        old.1 = new.1 ∧ old.2 ≠ new.2 := by
  constructor
  · intro firstSize secondSize first second firstRoom secondRoom
    refine ⟨_, _, built.placed.leaves_eq firstRoom first,
      built.placed.leaves_eq secondRoom second, ?_, ?_⟩
    · simp only [List.map_map]
      rfl
    · rw [← built.texts_eq_iff distinguished, List.map_map, List.map_map]
      rfl
  · intro first second previous step firstRead secondRead padding different
    rw [built.placed.leaves_eq layout.bits_le_bytes] at firstRead secondRead
    have firstLeaves := Except.ok.inj firstRead
    have secondLeaves := Except.ok.inj secondRead
    obtain ⟨place, member, changed⟩ :=
      built.exists_text_ne distinguished padding different
    refine ⟨place.shown first, firstLeaves ▸ List.mem_map_of_mem member,
      place.shown second, ?_, rfl, changed⟩
    rw [Step.shownLeaves, ← firstLeaves, ← secondLeaves, Step.changedLeaves_map]
    exact List.mem_map_of_mem (List.mem_filter.mpr ⟨member, decide_eq_true changed⟩)

end Layout

namespace Crossing

theorem sides_distinct : ["north", "south"].Nodup := by
  decide

/-- The two sides of a crossing. -/
def sides : Members :=
  ⟨#["north", "south"], by decide, sides_distinct⟩

theorem colours_distinct : ["red", "amber", "green"].Nodup := by
  decide

/-- The colours of a light. -/
def colours : Members :=
  ⟨#["red", "amber", "green"], by decide, colours_distinct⟩

theorem cars_ordered : (0 : Int64) ≤ 2 := by
  decide

/-- The numbers of cars that wait. -/
def cars : Bounds :=
  ⟨0, 2, cars_ordered⟩

/-- The light of one side and the cars that wait for it. -/
def side : List (String × Ty) :=
  [("light", .scalar (.enumeration colours)), ("cars", .scalar (.range cars))]

/-- The two sides of a crossing, four bits each. -/
def layout : Layout :=
  ⟨#[⟨"side", .array (.enumeration sides) (.record side), 0⟩], 8⟩

theorem layout_built : layout.Built := by
  have colour : Ty.Built (.scalar (.enumeration colours)) := .of_members (by decide)
  have number : Ty.Built (.scalar (.range cars)) :=
    .range (show Ty.range? 0 2 = _ from rfl)
  have accepted : Ty.record? side = .ok (.record side) := by
    simp [Ty.record?, Ty.fieldDefect?, side]
    rfl
  have sideBuilt : Ty.Built (.record side) := by
    refine .record ?_ accepted
    simp only [side, List.mem_cons, List.not_mem_nil, or_false,
      forall_eq_or_imp, forall_eq]
    exact ⟨colour, number⟩
  have index : Ty.Built (.scalar (.enumeration sides)) := .of_members (by decide)
  have sidesBuilt : Ty.Built (.array (.enumeration sides) (.record side)) :=
    .array index sideBuilt rfl
  refine ⟨[("side", .array (.enumeration sides) (.record side))], ?_, ?_⟩
  · simpa using sidesBuilt
  · simp [Layout.of?, Layout.extend, Layout.empty, Layout.maxVariables]
    rfl

theorem leafPlaces_eq :
    layout.leafPlaces =
      [⟨"side[north].light", 0, .enumeration colours⟩,
       ⟨"side[north].cars", 2, .range cars⟩,
        ⟨"side[south].light", 4, .enumeration colours⟩,
          ⟨"side[south].cars", 6, .range cars⟩] := by
  rfl

theorem colours_distinguished : colours.Distinguished := by
  intro name member number same
  have initials := congrArg (fun text => text.toList.head?) same
  simp only [String.toList_append] at initials
  simp only [colours, List.mem_toArray, List.mem_cons, List.not_mem_nil, or_false]
    at member
  rcases member with rfl | rfl | rfl <;> simp at initials

theorem leafPlaces_distinguished :
    ∀ place ∈ layout.leafPlaces, place.leaf.Distinguished := by
  rw [leafPlaces_eq]
  simp only [List.mem_cons, List.not_mem_nil, or_false, forall_eq_or_imp, forall_eq]
  exact ⟨colours_distinguished, trivial, colours_distinguished, trivial⟩

/-- All bits are set, and no two of them stand for a value. -/
def broken : Block 1 :=
  ⟨0xFF⟩

/-- One car waits at the northern side. -/
def counted : Block 1 :=
  ⟨0xF7⟩

/-- One car waits at the northern side, in a longer block. -/
def longer : Block 2 :=
  ⟨0x0BF7⟩

/-- Bits that stand for no number of cars are told from one car, in a longer block
and from one step to the next. -/
theorem leaves_injective_crossing :
    (∃ firstLeaves secondLeaves,
      layout.leaves broken = .ok firstLeaves ∧ layout.leaves longer = .ok secondLeaves ∧
        firstLeaves.map (·.1) = secondLeaves.map (·.1) ∧
        firstLeaves.map (·.2) ≠ secondLeaves.map (·.2)) ∧
    ∃ previous step : Step,
      layout.leaves broken = .ok previous.leaves ∧
      layout.leaves counted = .ok step.leaves ∧
        ∃ old ∈ previous.leaves, ∃ new ∈ step.shownLeaves .diff (some previous),
          old.1 = new.1 ∧ old.2 ≠ new.2 := by
  obtain ⟨blocks, steps⟩ := Layout.leaves_injective layout_built leafPlaces_distinguished
  constructor
  · obtain ⟨firstLeaves, secondLeaves, firstRead, secondRead, paths, texts⟩ :=
      blocks 1 2 broken longer (by decide) (by decide)
    refine ⟨firstLeaves, secondLeaves, firstRead, secondRead, paths, fun same => ?_⟩
    have bit := texts.mp same 3 (by decide)
    exact absurd bit (by decide)
  · obtain ⟨previousLeaves, firstRead⟩ := layout_built.leaves_ok broken
    obtain ⟨leaves, secondRead⟩ := layout_built.leaves_ok counted
    have different : broken ≠ counted := by decide
    have padding : ∀ index ≥ layout.bits, broken.bit index = counted.bit index :=
      fun index (outside : 8 ≤ index) =>
        (broken.bit_eq_false outside).trans (counted.bit_eq_false outside).symm
    exact ⟨⟨"", previousLeaves⟩, ⟨"", leaves⟩, firstRead, secondRead,
      steps broken counted _ _ firstRead secondRead padding different⟩

end Crossing

end StateSpace
