import StateSpace.Proofs.View.Setting

/-!
# The scalars of a layout

Names of variables and fields are distinct, so every part of a variable is
reached by its name or its position, and all offsets on the way are machine
words. The scalars that are reached tile the bits of the layout in the order of
declarations, fields and positions. Hence a setter of one of them leaves what
any other reads.
-/

namespace StateSpace

variable {size : Nat}

/-! ## Distinct names -/

/-- An item is found by a key that no other item has. -/
theorem find?_of_nodup
    {α : Type}
    {key : α → String}
    {items : List α}
    (distinct : (items.map key).Nodup)
    {item : α}
    (member : item ∈ items) :
    items.find? (fun other => key other == key item) = some item := by
  induction items with
  | nil => cases member
  | cons first rest inductionHypothesis =>
      obtain ⟨apart, restDistinct⟩ := List.nodup_cons.mp distinct
      rcases List.mem_cons.mp member with rfl | later
      · exact List.find?_cons_of_pos (by simp)
      · have different : ¬ (key first == key item) = true := by
          intro same
          exact apart (List.mem_map.mpr ⟨item, later, (beq_iff_eq.mp same).symm⟩)
        exact (List.find?_cons_of_neg (p := fun other => key other == key item)
          different).trans (inductionHypothesis restDistinct later)

theorem Ty.distinct_of_fieldDefect?
    {seen : Std.HashSet String}
    {offset : Nat}
    {fields : List (String × Ty)}
    (sound : Ty.fieldDefect? seen offset fields = none) :
    (∀ field ∈ fields, field.1 ∉ seen) ∧ (fields.map (·.1)).Nodup := by
  induction fields generalizing seen offset with
  | nil => simp
  | cons field rest inductionHypothesis =>
      obtain ⟨name, ty⟩ := field
      unfold Ty.fieldDefect? at sound
      split at sound
      · cases sound
      · rename_i absent
        split at sound
        · obtain ⟨unseen, distinct⟩ := inductionHypothesis sound
          refine ⟨?_, List.nodup_cons.mpr ⟨?_, distinct⟩⟩
          · intro other member present
            rcases List.mem_cons.mp member with rfl | later
            · exact absent (Std.HashSet.contains_iff_mem.mpr present)
            · exact unseen other later (Std.HashSet.mem_insert.mpr (.inr present))
          · rintro repeated
            obtain ⟨other, later, same⟩ := List.mem_map.mp repeated
            exact unseen other later (same ▸ Std.HashSet.mem_insert_self)
        · cases sound

/-- What has been checked of the parts of a composite type. -/
def Ty.PartsBuilt : Ty → Prop
  | .scalar _ => True
  | .array _ element => element.Built
  | .record fields => (fields.map (·.1)).Nodup ∧ ∀ field ∈ fields, field.2.Built

theorem Ty.Built.partsBuilt
    {ty : Ty}
    (built : ty.Built) :
    ty.PartsBuilt := by
  cases built with
  | boolean => trivial
  | range accepted =>
      obtain ⟨bounds, rfl⟩ := Ty.range?_eq_ok accepted
      trivial
  | enumeration countable accepted =>
      obtain ⟨members, -, rfl⟩ := Ty.enumeration?_eq_ok accepted
      trivial
  | array indexBuilt elementBuilt accepted =>
      obtain ⟨leaf, -, rfl, -⟩ := Ty.array?_eq_ok accepted
      exact elementBuilt
  | record fieldsBuilt accepted =>
      obtain ⟨rfl, sound⟩ := Ty.record?_eq_ok accepted
      exact ⟨(Ty.distinct_of_fieldDefect? sound).2, fieldsBuilt⟩

/-- A part of a built type is built. -/
theorem Ty.Contains.built
    {whole part : Ty}
    {offset place : Nat}
    (contains : Ty.Contains whole offset part place)
    (built : whole.Built) :
    part.Built := by
  induction contains with
  | whole => exact built
  | element _ _ inductionHypothesis => exact inductionHypothesis built.partsBuilt
  | field member _ inductionHypothesis =>
      exact inductionHypothesis (built.partsBuilt.2 _ (Ty.mem_placeFields member).1)

/-- An accepted list of declarations has different names, and its layout has a
variable for each of them in order. -/
theorem Layout.extend_declarations
    {layout extended : Layout}
    {taken : Std.HashSet String}
    {declarations : List (String × Ty)}
    (known : ∀ declared ∈ layout.entries.toList, declared.name ∈ taken)
    (distinct : (layout.entries.toList.map Variable.name).Nodup)
    (accepted : layout.extend taken declarations = .ok extended) :
    (extended.entries.toList.map Variable.name).Nodup ∧
      extended.entries.toList.map (fun declared => (declared.name, declared.ty)) =
        layout.entries.toList.map (fun declared => (declared.name, declared.ty)) ++
          declarations := by
  induction declarations generalizing layout taken with
  | nil =>
      cases accepted
      exact ⟨distinct, (List.append_nil _).symm⟩
  | cons declaration rest inductionHypothesis =>
      obtain ⟨name, ty⟩ := declaration
      unfold Layout.extend at accepted
      split at accepted
      · cases accepted
      rename_i absent
      split at accepted
      · cases accepted
      split at accepted
      · cases accepted
      have fresh : name ∉ layout.entries.toList.map Variable.name := by
        intro repeated
        obtain ⟨declared, member, rfl⟩ := List.mem_map.mp repeated
        exact absent (Std.HashSet.contains_iff_mem.mpr (known declared member))
      obtain ⟨names, declarations⟩ := inductionHypothesis
        (by
          intro declared member
          rw [Array.toList_push] at member
          rcases List.mem_append.mp member with earlier | last
          · exact Std.HashSet.mem_insert.mpr (.inr (known declared earlier))
          · rw [List.mem_singleton.mp last]
            exact Std.HashSet.mem_insert_self)
        (by
          rw [Array.toList_push, List.map_append]
          exact List.nodup_append.mpr ⟨distinct, List.nodup_singleton _, by
            intro one present other member same
            obtain rfl := List.mem_singleton.mp member
            subst same
            exact fresh present⟩)
        accepted
      refine ⟨names, declarations.trans ?_⟩
      rw [Array.toList_push, List.map_append, List.append_assoc]
      rfl

/-! ## Parts by name and position -/

/-- The parts of a view are the elements at all positions or the fields of all
names, in order, and every offset that is computed on the way is a word. -/
structure View.Addressed (view : View) : Prop where
  finish : Word.add? view.offset view.width = some (view.offset + view.width)
  elements : ∀ array, view.toArray = .ok array →
    view.parts = array.elements ∧
    ∀ position < array.length, ∃ element relative,
      array.elements[position]? = some element ∧
      array.element? position = .ok element ∧
      array.element.elementOffset position = .ok relative ∧
      Word.add? array.offset relative = some element.offset
  fields : ∀ record, view.toRecord = .ok record →
    view.parts = record.namedFields.map (·.2) ∧
    record.namedFields.map (·.1) = record.fields.map (·.1) ∧
    ∀ name field, (name, field) ∈ record.namedFields → ∃ relative,
      record.field? name = .ok field ∧
      Ty.field? record.fields name = some (field.ty, relative) ∧
      Word.add? record.offset relative = some field.offset

theorem ArrayView.element_addressed
    {array : ArrayView}
    (bounded : array.offset + array.width < Word.limit)
    {position : Nat}
    (inside : position < array.length) :
    ∃ element relative,
      array.elements[position]? = some element ∧
      array.element? position = .ok element ∧
      array.element.elementOffset position = .ok relative ∧
      Word.add? array.offset relative = some element.offset := by
  have within : position * array.element.width + array.element.width ≤ array.width :=
    element_within _ inside
  have product : Word.mul? position array.element.width =
      some (position * array.element.width) := Word.mul?_eq_some.mpr ⟨rfl, by omega⟩
  refine ⟨⟨array.element, array.offset + position * array.element.width⟩,
    position * array.element.width, ?_, if_pos inside, ?_, ?_⟩
  · simp [ArrayView.elements, inside]
  · simp only [Ty.elementOffset, product]
  · refine Word.add?_eq_some.mpr ⟨rfl, ?_⟩
    show array.offset + position * array.element.width < Word.limit
    omega

theorem Ty.map_placeFields_fst
    (offset : Nat)
    (fields : List (String × Ty)) :
    (Ty.placeFields offset fields).map (·.1) = fields.map (·.1) := by
  have names := congrArg (List.map (·.1)) (Ty.map_placeFields_snd offset fields)
  rwa [List.map_map] at names

theorem RecordView.map_namedFields_fst (record : RecordView) :
    record.namedFields.map (·.1) = record.fields.map (·.1) := by
  rw [← Ty.map_placeFields_fst record.offset record.fields]
  simp [RecordView.namedFields]

/-- A field of a record is found by its name, at an offset from the record's
start. -/
theorem RecordView.field_addressed
    {record : RecordView}
    (distinct : (record.fields.map (·.1)).Nodup)
    (bounded : record.offset + Ty.fieldsWidth record.fields < Word.limit)
    {name : String}
    {field : View}
    (member : (name, field) ∈ record.namedFields) :
    ∃ relative,
      record.field? name = .ok field ∧
      Ty.field? record.fields name = some (field.ty, relative) ∧
      Word.add? record.offset relative = some field.offset := by
  have shifted := Ty.placeFields_add record.offset 0 record.fields
  rw [Nat.add_zero] at shifted
  obtain ⟨placed, present, same⟩ := List.mem_map.mp member
  rw [shifted] at present
  obtain ⟨⟨label, ty, relative⟩, relativePlaced, rfl⟩ := List.mem_map.mp present
  cases same
  have unique : ((Ty.placeFields 0 record.fields).map (·.1)).Nodup := by
    rwa [Ty.map_placeFields_fst]
  have located : Ty.field? record.fields label = some (ty, relative) := by
    have found := find?_of_nodup unique relativePlaced
    simp only [Ty.field?, found, Option.map_some]
  have within := (Ty.mem_placeFields relativePlaced).2.2
  have word : record.offset + relative < Word.limit := by omega
  refine ⟨relative, ?_, located, Word.add?_eq_some.mpr ⟨rfl, word⟩⟩
  simp only [RecordView.field?, located]

theorem View.addressed
    {view : View}
    (built : view.ty.Built)
    (bounded : view.offset + view.width < Word.limit) :
    view.Addressed where
  finish := Word.add?_eq_some.mpr ⟨rfl, bounded⟩
  elements := by
    intro array isArray
    obtain rfl := View.toArray_eq_ok isArray
    exact ⟨rfl, fun position inside => ArrayView.element_addressed bounded inside⟩
  fields := by
    intro record isRecord
    obtain rfl := View.toRecord_eq_ok isRecord
    exact ⟨rfl, record.map_namedFields_fst, fun name field member =>
      RecordView.field_addressed built.partsBuilt.1 bounded member⟩

/-! ## Scalars in order -/

theorem View.sizeOf_part_lt
    {view part : View}
    (member : part ∈ view.parts) :
    sizeOf part.ty < sizeOf view.ty := by
  obtain ⟨ty, offset⟩ := view
  cases ty with
  | scalar leaf => cases member
  | array index element =>
      obtain ⟨position, -, rfl⟩ := List.mem_map.mp member
      simp
  | record fields =>
      rw [View.parts_record] at member
      obtain ⟨⟨name, ty, start⟩, placed, rfl⟩ := List.mem_map.mp member
      have smaller := List.sizeOf_lt_of_mem (Ty.mem_placeFields placed).1
      simp at smaller ⊢
      omega

/-- The scalars that are reached from a view, part by part. -/
def View.scalars (view : View) : List View :=
  if view.ty.isScalar then [view]
  else view.parts.attach.flatMap fun ⟨part, _⟩ => part.scalars
termination_by sizeOf view.ty
decreasing_by exact View.sizeOf_part_lt (by assumption)

/-- The scalars that are reached from the variables, in order. -/
def Layout.scalars (layout : Layout) : List View :=
  layout.entries.toList.flatMap fun declared => declared.view.scalars

theorem View.scalars_scalar
    {view : View}
    (scalar : view.ty.isScalar = true) :
    view.scalars = [view] := by
  rw [View.scalars, if_pos scalar]

theorem View.scalars_composite
    {view : View}
    (composite : view.ty.isScalar = false) :
    view.scalars = view.parts.flatMap View.scalars := by
  rw [View.scalars, if_neg (by simp [composite])]
  simp

/-- The scalars of a view tile it. -/
theorem View.scalars_tile (view : View) :
    View.Tile view.scalars view.offset (view.offset + view.width) := by
  induction view using View.scalars.induct with
  | case1 view scalar =>
      rw [View.scalars_scalar scalar]
      exact .cons .nil
  | case2 view composite inductionHypothesis =>
      rw [Bool.not_eq_true] at composite
      rw [View.scalars_composite composite]
      exact (View.parts_tile composite).flatMap inductionHypothesis

theorem Layout.Tiled.views
    {entries : List Variable}
    {start finish : Nat}
    (tiled : Layout.Tiled entries start finish) :
    View.Tile (entries.map Variable.view) start finish := by
  induction tiled with
  | nil => exact .nil
  | @cons declared rest finish _ inductionHypothesis =>
      have rest : View.Tile _ (declared.view.offset + declared.view.width) _ :=
        inductionHypothesis
      exact .cons rest

theorem Layout.Placed.scalars_tile
    {layout : Layout}
    (placed : layout.Placed) :
    View.Tile layout.scalars 0 layout.bits := by
  have tile := placed.tiled.views.flatMap fun view _ => View.scalars_tile view
  rwa [List.flatMap_map] at tile

/-- A scalar part of a view is one of its scalars. -/
theorem Ty.Contains.mem_scalars
    {whole part : Ty}
    {offset place : Nat}
    (contains : Ty.Contains whole offset part place)
    (scalar : part.isScalar = true) :
    (⟨part, place⟩ : View) ∈ View.scalars ⟨whole, offset⟩ := by
  induction contains with
  | whole =>
      rw [View.scalars_scalar scalar]
      exact List.mem_singleton_self _
  | @element index element part offset position place inside _ inductionHypothesis =>
      rw [View.scalars_composite rfl]
      refine List.mem_flatMap.mpr ⟨_, ?_, inductionHypothesis scalar⟩
      exact List.mem_map.mpr ⟨position, List.mem_range.mpr inside, rfl⟩
  | @field fields name ty part offset start place member _ inductionHypothesis =>
      rw [View.scalars_composite rfl, View.parts_record]
      exact List.mem_flatMap.mpr
        ⟨_, List.mem_map.mpr ⟨_, member, rfl⟩, inductionHypothesis scalar⟩

/-! ## Views that are reached -/

theorem Layout.HasView.part
    {layout : Layout}
    {view part : View}
    (viewed : layout.HasView view)
    (addressed : view.Addressed)
    (member : part ∈ view.parts) :
    layout.HasView part := by
  obtain ⟨ty, offset⟩ := view
  cases ty with
  | scalar leaf => cases member
  | array index element =>
      obtain ⟨same, each⟩ := addressed.elements _ rfl
      rw [same] at member
      obtain ⟨position, inside, rfl⟩ := List.getElem_of_mem member
      obtain ⟨element, -, found, present, -⟩ :=
        each position (by simpa [ArrayView.elements] using inside)
      cases found.symm.trans (List.getElem?_eq_getElem inside)
      exact .element viewed rfl present
  | record fields =>
      obtain ⟨same, -, each⟩ := addressed.fields _ rfl
      rw [same] at member
      obtain ⟨⟨name, field⟩, named, rfl⟩ := List.mem_map.mp member
      obtain ⟨-, present, -⟩ := each name field named
      exact .field viewed rfl present

section Built

variable
  {layout : Layout}
  {declarations : List (String × Ty)}

/-- The variables of a layout are those that were declared, in order, and their
names are different. -/
theorem Layout.declarations_of?
    (accepted : Layout.of? declarations = .ok layout) :
    (layout.entries.toList.map Variable.name).Nodup ∧
      layout.entries.toList.map (fun declared => (declared.name, declared.ty)) =
        declarations :=
  Layout.extend_declarations (by simp [Layout.empty]) (by simp [Layout.empty]) accepted

theorem Layout.Built.ty_built
    (built : layout.Built)
    {declared : Variable}
    (member : declared ∈ layout.entries.toList) :
    declared.ty.Built := by
  obtain ⟨declarations, declarationsBuilt, accepted⟩ := built
  refine declarationsBuilt (declared.name, declared.ty) ?_
  rw [← (Layout.declarations_of? accepted).2]
  exact List.mem_map.mpr ⟨declared, member, rfl⟩

/-- Every variable is found by its name. -/
theorem Layout.Built.hasView
    (built : layout.Built)
    {declared : Variable}
    (member : declared ∈ layout.entries.toList) :
    layout.HasView declared.view := by
  obtain ⟨declarations, -, accepted⟩ := built
  have found := find?_of_nodup (Layout.declarations_of? accepted).1 member
  rw [Array.find?_toList] at found
  have viewed : layout.view? declared.name = some declared.view := by
    simp only [Layout.view?, Layout.find?, found, Option.map_some]
  exact .declared viewed

/-- Every view of a layout lies inside its bits. -/
theorem Layout.Placed.view_within
    (placed : layout.Placed)
    {view : View}
    (viewed : layout.HasView view) :
    view.offset + view.width ≤ layout.bits := by
  obtain ⟨declared, member, contained⟩ := viewed.contained
  have inner := contained.within.2
  have outer := (placed.tiled.mem member).2
  unfold View.width
  omega

theorem Layout.Built.addressed
    (built : layout.Built)
    {view : View}
    (viewed : layout.HasView view) :
    view.Addressed := by
  have within := built.placed.view_within viewed
  have bounded := built.placed.bounded
  obtain ⟨declared, member, contained⟩ := viewed.contained
  exact View.addressed (contained.built (built.ty_built member)) (by omega)

theorem Layout.Built.scalars_hasView
    (built : layout.Built)
    {view leaf : View}
    (viewed : layout.HasView view)
    (member : leaf ∈ view.scalars) :
    leaf.ty.isScalar = true ∧ layout.HasView leaf := by
  induction view using View.scalars.induct with
  | case1 view scalar =>
      rw [View.scalars_scalar scalar, List.mem_singleton] at member
      subst member
      exact ⟨scalar, viewed⟩
  | case2 view composite inductionHypothesis =>
      rw [Bool.not_eq_true] at composite
      rw [View.scalars_composite composite] at member
      obtain ⟨part, present, within⟩ := List.mem_flatMap.mp member
      exact inductionHypothesis part present
        (viewed.part (built.addressed viewed) present) within

/-- The scalars of a layout are the scalar views that can be reached. -/
theorem Layout.Built.mem_scalars
    (built : layout.Built)
    {view : View} :
    view ∈ layout.scalars ↔ view.ty.isScalar = true ∧ layout.HasView view := by
  constructor
  · intro member
    obtain ⟨declared, present, within⟩ := List.mem_flatMap.mp member
    exact built.scalars_hasView (built.hasView present) within
  · rintro ⟨scalar, viewed⟩
    obtain ⟨declared, present, contained⟩ := viewed.contained
    exact List.mem_flatMap.mpr ⟨declared, present, contained.mem_scalars scalar⟩

/-- Views at different positions of a tiling lie apart. -/
theorem View.Tile.apart
    {views : List View}
    {start finish : Nat}
    (tile : View.Tile views start finish)
    {first second : Nat}
    (different : first ≠ second)
    {one other : View}
    (onePresent : views[first]? = some one)
    (otherPresent : views[second]? = some other) :
    Apart one.offset one.width other.offset other.width := by
  obtain ⟨firstInside, rfl⟩ := List.getElem?_eq_some_iff.mp onePresent
  obtain ⟨secondInside, rfl⟩ := List.getElem?_eq_some_iff.mp otherPresent
  have ordered := List.pairwise_iff_getElem.mp tile.ordered
  rcases Nat.lt_or_gt_of_ne different with before | after
  · exact .inl (ordered first second firstInside secondInside before)
  · exact .inr (ordered second first secondInside firstInside after)

/-- A setter leaves what views apart from its own read. -/
theorem View.get_set_apart
    {view other : View}
    (shaped : view.ty.Shaped)
    (window : HasWindow size view.offset view.width)
    (otherShaped : other.ty.Shaped)
    (otherWindow : HasWindow size other.offset other.width)
    (apart : Apart view.offset view.width other.offset other.width)
    (value : Value)
    (block : Block size) :
    other.get ((view.set value).runOn block).2 = other.get block :=
  View.get_congr otherShaped otherWindow otherWindow fun index covers =>
    (View.stores shaped window value block).outside index
      (apart.symm.shareNoBit index covers)

/-- The scalars of a layout, in the order of declarations, fields and positions,
tile its bits. They are the scalar views that are reached by names and
positions, and no offset on the way exceeds a word. In every block with room
for the layout each of them is readable, and a setter of one leaves what the
others read. -/
theorem Layout.scalars_partition
    (declarationsBuilt : ∀ declaration ∈ declarations, declaration.2.Built)
    (accepted : Layout.of? declarations = .ok layout) :
    layout.entries.toList.map (fun declared => (declared.name, declared.ty)) =
      declarations ∧
    View.Tile layout.scalars 0 layout.bits ∧
    (∀ view, view ∈ layout.scalars ↔ view.ty.isScalar = true ∧ layout.HasView view) ∧
    (∀ view, layout.HasView view → view.Addressed) ∧
    ∀ size, layout.bits ≤ 8 * size →
      (∀ leaf ∈ layout.scalars, leaf.offset + leaf.width ≤ 8 * size) ∧
      ∀ (first second : Nat) (one other : View), first ≠ second →
        layout.scalars[first]? = some one → layout.scalars[second]? = some other →
        ∀ value (block : Block size), ∃ read, other.get block = .ok read ∧
          other.get ((one.set value).runOn block).2 = .ok read := by
  have built : layout.Built := ⟨declarations, declarationsBuilt, accepted⟩
  have placed := built.placed
  refine ⟨(Layout.declarations_of? accepted).2, placed.scalars_tile,
    fun view => built.mem_scalars,
    fun view viewed => built.addressed viewed, fun size room => ?_⟩
  have ready : ∀ leaf ∈ layout.scalars,
      leaf.ty.Shaped ∧ Fits size leaf.offset leaf.width := by
    intro leaf member
    have viewed := (built.mem_scalars.mp member).2
    have within := placed.view_within viewed
    have bounded := placed.bounded
    exact ⟨(placed.shaped_fits viewed).1, by omega, by omega⟩
  refine ⟨fun leaf member => (ready leaf member).2.inside, ?_⟩
  intro first second one other different onePresent otherPresent value block
  obtain ⟨oneShaped, oneFits⟩ := ready one (List.mem_of_getElem? onePresent)
  obtain ⟨otherShaped, otherFits⟩ := ready other (List.mem_of_getElem? otherPresent)
  have apart := placed.scalars_tile.apart different onePresent otherPresent
  obtain ⟨read, found⟩ := View.get_ok otherShaped otherFits.window block
  refine ⟨read, found, ?_⟩
  rw [View.get_set_apart oneShaped oneFits.window otherShaped otherFits.window
    apart, found]

end Built

namespace Cupboard

/-- A door and a tray behind it. -/
def declarations : List (String × Ty) :=
  [("open", .boolean), ("tray", .record Tray.fields)]

def layout : Layout :=
  ⟨#[⟨"open", .boolean, 0⟩, ⟨"tray", .record Tray.fields, 1⟩], 8⟩

theorem declarations_accepted : Layout.of? declarations = .ok layout := by
  simp [Layout.of?, Layout.extend, Layout.empty, Layout.maxVariables, declarations]
  rfl

def door : View :=
  ⟨.boolean, 0⟩

def tray : View :=
  ⟨.record Tray.fields, 1⟩

def flag : View :=
  ⟨.boolean, 1⟩

def row : View :=
  ⟨.array (.range Tray.positions) (.scalar (.range Tray.numbers)), 2⟩

def number (offset : Nat) : View :=
  ⟨.scalar (.range Tray.numbers), offset⟩

theorem scalars_eq : layout.scalars = [door, flag, number 2, number 4, number 6] := by
  have declared : layout.scalars = door.scalars ++ (tray.scalars ++ []) := rfl
  have trayParts : tray.parts = [flag, row] := rfl
  have rowParts : row.parts = [number 2, number 4, number 6] := rfl
  have doorScalars : door.scalars = [door] := View.scalars_scalar rfl
  have flagScalars : flag.scalars = [flag] := View.scalars_scalar rfl
  have numbers (offset : Nat) : (number offset).scalars = [number offset] :=
    View.scalars_scalar rfl
  have rowScalars : row.scalars = row.parts.flatMap View.scalars :=
    View.scalars_composite rfl
  have trayScalars : tray.scalars = tray.parts.flatMap View.scalars :=
    View.scalars_composite rfl
  simp [declared, doorScalars, trayScalars, trayParts, flagScalars, rowScalars,
    rowParts, numbers]

/-- The scalars of the cupboard take its eight bits, and opening the door leaves
the last number of the tray. -/
theorem scalars_partition_cupboard :
    View.Tile layout.scalars 0 8 ∧
      ∀ block : Block 1, ∃ read, (number 6).get block = .ok read ∧
        (number 6).get ((door.set (.boolean true)).runOn block).2 = .ok read := by
  have declarationsBuilt : ∀ declaration ∈ declarations, declaration.2.Built := by
    simp only [declarations, List.mem_cons, List.not_mem_nil, or_false,
      forall_eq_or_imp, forall_eq]
    exact ⟨.boolean, Tray.view_built⟩
  obtain ⟨-, tile, -, -, each⟩ :=
    Layout.scalars_partition declarationsBuilt declarations_accepted
  refine ⟨tile, fun block => ?_⟩
  exact (each 1 (by decide)).2 0 4 door (number 6) (by decide) (by rw [scalars_eq]; rfl)
    (by rw [scalars_eq]; rfl) (.boolean true) block

end Cupboard

end StateSpace
