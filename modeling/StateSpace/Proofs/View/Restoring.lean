import StateSpace.Proofs.Layout.Tiling

/-!
# Storing what was read

Any bits can be read, those of no value too. If the value that is read goes
through the setter of its view again then the block stays as it was. The setter
comes to its end if every scalar holds an ordinal, and the bits are then the
encoding of the value and of no other value of the type. Else it stops at the
first scalar that holds none.
-/

namespace StateSpace

variable {size : Nat}

/-! ## Scalars and the paths to them -/

/-- A scalar of a view is reached by a path. -/
theorem View.exists_path_of_scalars
    {view leaf : View}
    (member : leaf ∈ view.scalars) :
    leaf.ty.isScalar = true ∧ ∃ path, view.at? path = some leaf := by
  induction view using View.scalars.induct with
  | case1 view scalar =>
      rw [View.scalars_scalar scalar, List.mem_singleton] at member
      subst member
      exact ⟨scalar, [], rfl⟩
  | case2 view composite inductionHypothesis =>
      rw [Bool.not_eq_true] at composite
      rw [View.scalars_composite composite] at member
      obtain ⟨part, present, within⟩ := List.mem_flatMap.mp member
      obtain ⟨scalar, path, found⟩ := inductionHypothesis part present within
      obtain ⟨position, placed⟩ := List.mem_iff_getElem?.mp present
      refine ⟨scalar, position :: path, ?_⟩
      rw [View.at?, placed]
      exact found

/-- What a path leads to has a shaped type and lies inside the block. -/
theorem View.at?_ready
    {view part : View}
    (shaped : view.ty.Shaped)
    (window : HasWindow size view.offset view.width)
    {path : List Nat}
    (found : view.at? path = some part) :
    part.ty.Shaped ∧ HasWindow size part.offset part.width := by
  induction path generalizing view with
  | nil =>
      cases found
      exact ⟨shaped, window⟩
  | cons position path inductionHypothesis =>
      obtain ⟨middle, present, within⟩ := Option.bind_eq_some_iff.mp found
      have member := List.mem_of_getElem? present
      exact inductionHypothesis (View.part_shaped shaped member)
        (View.part_window window member) within

/-- A setter comes to its end exactly on the values of the view's type. -/
theorem View.Stores.finished_iff
    {view : View}
    {value : Value}
    {before : Block size}
    {outcome : Except Stop Unit × Block size}
    (stores : view.Stores value before outcome) :
    outcome.1 = .ok () ↔ value.HasType view.ty := by
  refine ⟨fun done => ?_, fun typed => (stores.accepted typed).1⟩
  by_contra illTyped
  obtain ⟨fault, stop, failed, -⟩ := stores.refused illTyped
  cases done.symm.trans failed

/-- A setter that is given what the view reads leaves the block as it was, also
if it stops. -/
theorem View.Stores.unchanged
    {view : View}
    {value : Value}
    {block : Block size}
    {outcome : Except Stop Unit × Block size}
    (stores : view.Stores value block outcome)
    (shaped : view.ty.Shaped)
    (window : HasWindow size view.offset view.width)
    (read : view.get block = .ok value) :
    outcome.2 = block := by
  ext index _
  by_cases covers : Covers view.offset view.width index
  · by_cases typed : value.HasType view.ty
    · exact View.bit_eq_of_get shaped window window
        ((stores.accepted typed).2.trans read.symm)
        covers
    · obtain ⟨fault, stop, -, -, interrupted⟩ := stores.refused typed
      obtain ⟨leaf, member, leafCovers⟩ :=
        view.scalars_tile.exists_covers covers.1 covers.2
      obtain ⟨scalar, path, found⟩ := View.exists_path_of_scalars member
      by_cases early : path < stop
      · -- The scalar was stored again, and held the same value before.
        obtain ⟨leafShaped, leafWindow⟩ := View.at?_ready shaped window found
        obtain ⟨there, reached, after⟩ := interrupted.stored path leaf found scalar early
        obtain ⟨same, again, before⟩ := View.get_at? read found
        cases reached.symm.trans again
        exact View.bit_eq_of_get leafShaped leafWindow leafWindow
          (after.trans before.symm)
          leafCovers
      · exact interrupted.untouched path leaf found scalar early index leafCovers
  · exact stores.outside index covers

/-! ## Ordinals -/

/-- Every scalar of a view holds the ordinal of a value. -/
def View.HoldsOrdinals
    (view : View)
    (block : Block size) : Prop :=
  ∀ leaf offset, (⟨.scalar leaf, offset⟩ : View) ∈ view.scalars →
    block.extract offset leaf.width < leaf.cardinality

theorem View.holdsOrdinals_scalar
    {leaf : Scalar}
    {offset : Nat}
    {block : Block size} :
    View.HoldsOrdinals ⟨.scalar leaf, offset⟩ block ↔
      block.extract offset leaf.width < leaf.cardinality := by
  rw [View.HoldsOrdinals, View.scalars_scalar rfl]
  simp only [List.mem_singleton, View.mk.injEq, Ty.scalar.injEq]
  exact ⟨fun each => each leaf offset ⟨rfl, rfl⟩,
    by rintro small _ _ ⟨rfl, rfl⟩; exact small⟩

theorem View.holdsOrdinals_composite
    {view : View}
    (composite : view.ty.isScalar = false)
    {block : Block size} :
    view.HoldsOrdinals block ↔ ∀ part ∈ view.parts, part.HoldsOrdinals block := by
  simp only [View.HoldsOrdinals, View.scalars_composite composite, List.mem_flatMap]
  exact ⟨fun each part present leaf offset member =>
    each leaf offset ⟨part, present, member⟩,
    fun each leaf offset ⟨part, present, member⟩ => each part present leaf offset member⟩

/-- If items decide by themselves whether they are related to their partners
then lists are related exactly if all items decide so. -/
theorem forall₂_iff_forall_mem
    {α β : Type}
    {known wanted : α → β → Prop}
    {decides : α → Prop}
    {firsts : List α}
    {seconds : List β}
    (each : List.Forall₂ known firsts seconds)
    (local_iff : ∀ first ∈ firsts, ∀ second, known first second →
      (wanted first second ↔ decides first)) :
    List.Forall₂ wanted firsts seconds ↔ ∀ first ∈ firsts, decides first := by
  induction each with
  | nil => simp
  | cons related rest inductionHypothesis =>
      rw [List.forall₂_cons, List.forall_mem_cons, local_iff _ (by simp) _ related,
        inductionHypothesis fun first member => local_iff first (by simp [member])]

/-- What a view reads is of its type exactly if all its scalars hold ordinals. -/
theorem View.hasType_iff_holdsOrdinals
    {view : View}
    (shaped : view.ty.Shaped)
    (window : HasWindow size view.offset view.width)
    {block : Block size}
    {value : Value}
    (read : view.get block = .ok value) :
    value.HasType view.ty ↔ view.HoldsOrdinals block := by
  induction view, shaped using View.shaped_induction generalizing value with
  | scalar leaf offset narrow =>
      cases read.symm.trans (View.get_scalar window narrow)
      rw [View.holdsOrdinals_scalar]
      exact Scalar.hasType_decode narrow (block.extract_lt _ _)
  | composite view composite shaped inductionHypothesis =>
      obtain ⟨values, rfl, each⟩ := (View.get_composite_eq_ok composite).mp read
      rw [View.hasType_composite composite, View.holdsOrdinals_composite composite,
        Ty.parts_compose, and_iff_right rfl]
      exact forall₂_iff_forall_mem each fun part member value partRead =>
        inductionHypothesis part member (View.part_window window member) partRead

/-! ## Encodings -/

mutual

/-- The bits that stand for a value of a type, first bit first. A scalar is the
ordinal of its value, and the parts of a composite value follow one another. -/
def Ty.encoding : Ty → Value → List Bool
  | .scalar leaf, value =>
    match leaf.encode value with
    | .ok ordinal => (List.range leaf.width).map ordinal.testBit
    | .error _ => []
  | .array _ element, .array values =>
    values.flatMap fun value => Ty.encoding element value
  | .record fields, .record values => Ty.fieldsEncoding fields values
  | _, _ => []

/-- The bits that stand for the values of consecutive fields. -/
def Ty.fieldsEncoding : List (String × Ty) → List Value → List Bool
  | (_, ty) :: rest, value :: values =>
    Ty.encoding ty value ++ Ty.fieldsEncoding rest values
  | _, _ => []

end

/-- A run of bits of a block in order. -/
def Block.window
    (block : Block size)
    (offset width : Nat) : List Bool :=
  (List.range width).map fun index => block.bit (offset + index)

theorem Block.window_add
    (block : Block size)
    (offset first second : Nat) :
    block.window offset (first + second) =
      block.window offset first ++ block.window (offset + first) second := by
  simp [Block.window, List.range_add, Nat.add_assoc]

/-- A run of bits holds the number that its field does. -/
theorem Block.window_eq_extract
    (block : Block size)
    (offset width : Nat) :
    block.window offset width =
      (List.range width).map (block.extract offset width).testBit := by
  refine List.map_congr_left fun index member => ?_
  rw [Block.testBit_extract, decide_eq_true (List.mem_range.mp member), Bool.true_and]

/-- Equal runs have equal bits. -/
theorem Block.bit_eq_of_window
    {first second : Block size}
    {offset width index : Nat}
    (same : first.window offset width = second.window offset width)
    (covers : Covers offset width index) :
    first.bit index = second.bit index := by
  obtain ⟨low, high⟩ := covers
  have equal :=
    List.map_inj_left.mp same (index - offset) (List.mem_range.mpr (by omega))
  rwa [Nat.add_sub_cancel' low] at equal

/-- The bits between the ends of a tiling are those of its views in order. -/
theorem View.Tile.window
    {views : List View}
    {start finish : Nat}
    (tile : View.Tile views start finish)
    (block : Block size) :
    block.window start (finish - start) =
      (views.map fun view => block.window view.offset view.width).flatten := by
  induction tile with
  | nil => simp [Block.window]
  | @cons view rest finish tile inductionHypothesis =>
      have above := tile.le
      have split : finish - view.offset =
          view.width + (finish - (view.offset + view.width)) := by omega
      rw [split, Block.window_add, inductionHypothesis, List.map_cons, List.flatten_cons]

theorem Ty.fieldsEncoding_eq
    (offset : Nat)
    (fields : List (String × Ty))
    (values : List Value) :
    Ty.fieldsEncoding fields values =
      (List.zipWith (fun (part : View) value => part.ty.encoding value)
        ((Ty.placeFields offset fields).map fun field => ⟨field.2.1, field.2.2⟩)
        values).flatten := by
  induction fields generalizing offset values with
  | nil => rfl
  | cons field rest inductionHypothesis =>
      obtain ⟨name, ty⟩ := field
      cases values with
      | nil => rfl
      | cons value values =>
          rw [Ty.fieldsEncoding, inductionHypothesis (offset + ty.width)]
          rfl

/-- The encoding of a composite value is made of those of its parts. -/
theorem View.encoding_composite
    {view : View}
    (composite : view.ty.isScalar = false)
    {value : Value}
    (matched : view.ty.Matches value) :
    view.ty.encoding value =
      (List.zipWith (fun (part : View) value => part.ty.encoding value)
        view.parts value.parts).flatten := by
  obtain ⟨ty, offset⟩ := view
  cases ty with
  | scalar leaf => cases composite
  | array index element =>
      cases value with
      | array values =>
          have length : values.length = index.count := matched
          have each : List.zipWith (fun (part : View) value => part.ty.encoding value)
              (View.parts ⟨.array index element, offset⟩) values =
                values.map element.encoding := by
            rw [View.parts_array]
            exact List.ext_getElem (by simp [length]) fun position _ _ => by simp
          rw [Ty.encoding, List.flatMap_def]
          exact congrArg List.flatten each.symm
      | _ => cases matched
  | record fields =>
      cases value with
      | record values =>
          rw [View.parts_record]
          exact Ty.fieldsEncoding_eq offset fields values
      | _ => cases matched

/-- The bits of a window from which a value of the type is read are the encoding
of the value. -/
theorem View.encoding_of_get
    {view : View}
    (shaped : view.ty.Shaped)
    (window : HasWindow size view.offset view.width)
    {block : Block size}
    {value : Value}
    (read : view.get block = .ok value)
    (typed : value.HasType view.ty) :
    view.ty.encoding value = block.window view.offset view.width := by
  induction view, shaped using View.shaped_induction generalizing value with
  | scalar leaf offset narrow =>
      cases read.symm.trans (View.get_scalar window narrow)
      have ordinal := (Scalar.hasType_decode narrow (block.extract_lt _ _)).mp typed
      have encoded := (Scalar.encode_eq_ok narrow).mpr ⟨ordinal, rfl⟩
      simp only [Ty.encoding, encoded]
      exact (block.window_eq_extract offset leaf.width).symm
  | composite view composite shaped inductionHypothesis =>
      obtain ⟨values, rfl, each⟩ := (View.get_composite_eq_ok composite).mp read
      obtain ⟨-, types⟩ := (View.hasType_composite composite).mp typed
      rw [Ty.parts_compose] at types
      have tiled := (View.parts_tile composite).window block
      rw [Nat.add_sub_cancel_left] at tiled
      rw [View.encoding_composite composite (View.matches_of_hasType typed), tiled,
        Ty.parts_compose]
      congr 1
      refine List.ext_getElem (by simp [each.length_eq]) fun position inside within => ?_
      rw [List.length_map] at within
      have bound : position < values.length := each.length_eq ▸ within
      rw [List.getElem_zipWith, List.getElem_map]
      have member := List.getElem_mem within
      exact inductionHypothesis _ member (View.part_window window member)
        (each.get within bound) (types.get within bound)

/-- A window that holds the encoding of a value of the type is read as this
value. -/
theorem View.get_of_encoding
    {view : View}
    (shaped : view.ty.Shaped)
    (window : HasWindow size view.offset view.width)
    {block : Block size}
    {value : Value}
    (typed : value.HasType view.ty)
    (encoded : view.ty.encoding value = block.window view.offset view.width) :
    view.get block = .ok value := by
  -- The setter would leave the same bits in the window.
  obtain ⟨-, read⟩ := (View.stores shaped window value block).accepted typed
  have same := (View.encoding_of_get shaped window read typed).symm.trans encoded
  rw [← View.get_congr shaped window window fun _ => Block.bit_eq_of_window same, read]

/-- Every block is read, and storing the value that was read leaves the block as
it was, whether the setter comes to its end or stops with a fault. It comes to
its end exactly if every scalar holds an ordinal. Then the value is of the
view's type, its encoding is in the block, and it is the only value of which
both hold. -/
theorem View.set_get_exact
    {view : View}
    (built : view.ty.Built)
    (window : HasWindow size view.offset view.width)
    (block : Block size) :
    ∃ value, view.get block = .ok value ∧
      ((view.set value).runOn block).2 = block ∧
      (((view.set value).runOn block).1 = .ok () ↔ view.HoldsOrdinals block) ∧
      (((view.set value).runOn block).1 ≠ .ok () →
        ∃ fault, ((view.set value).runOn block).1 = .error (.fault fault)) ∧
      (((view.set value).runOn block).1 = .ok () →
        ∀ other, (other.HasType view.ty ∧
          view.ty.encoding other = block.window view.offset view.width) ↔
            other = value) := by
  have shaped := built.shaped
  obtain ⟨value, read⟩ := View.get_ok shaped window block
  have stores := View.stores shaped window value block
  have finished := stores.finished_iff
  refine ⟨value, read, stores.unchanged shaped window read,
    finished.trans (View.hasType_iff_holdsOrdinals shaped window read),
    fun stopped => ?_, fun done other => ⟨?_, ?_⟩⟩
  · obtain ⟨fault, stop, failed, -⟩ :=
      stores.refused fun typed => stopped (finished.mpr typed)
    exact ⟨fault, failed⟩
  · rintro ⟨typed, encoded⟩
    exact Except.ok.inj
      ((View.get_of_encoding shaped window typed encoded).symm.trans read)
  · rintro rfl
    exact ⟨finished.mp done, View.encoding_of_get shaped window read (finished.mp done)⟩

namespace Brim

theorem largest_ordered : Int64.maxValue - 2 ≤ Int64.maxValue := by
  decide

/-- The three largest integers. -/
def largest : Bounds :=
  ⟨Int64.maxValue - 2, Int64.maxValue, largest_ordered⟩

/-- A pair of integers that begins in the middle of a byte. -/
def view : View :=
  ⟨.array .boolean (.scalar (.range largest)), 3⟩

theorem view_built : view.ty.Built := by
  have number : Ty.Built (.scalar (.range largest)) :=
    .range (show Ty.range? (Int64.maxValue - 2) Int64.maxValue = _ from rfl)
  exact .array .boolean number rfl

/-- The first integer of the pair has the ordinal 1, and the field of the second
one is past the last ordinal. -/
def block : Block 1 :=
  ⟨0b1101000⟩

/-- The second field is read as the smallest integer, which is refused when it is
stored again. -/
theorem set_get_exact_brim :
    ∃ value, value = .array [.range (Int64.maxValue - 1), .range Int64.minValue] ∧
      view.get block = .ok value ∧
      (view.set value).runOn block =
        (.error (.fault (.valueOutOfRange Int64.minValue.toInt)), block) ∧
      ¬ view.HoldsOrdinals block := by
  obtain ⟨value, read, kept, finished, -, -⟩ :=
    View.set_get_exact view_built (Fits.window ⟨by decide, by decide⟩) block
  have contents : value = .array [.range (Int64.maxValue - 1), .range Int64.minValue] :=
    Except.ok.inj (read.symm.trans rfl)
  have outcome : ((view.set value).runOn block).1 =
      .error (.fault (.valueOutOfRange Int64.minValue.toInt)) := by
    rw [contents]
    rfl
  refine ⟨value, contents, read, Prod.ext outcome kept, fun ordinals => ?_⟩
  cases outcome.symm.trans (finished.mpr ordinals)

end Brim

end StateSpace
