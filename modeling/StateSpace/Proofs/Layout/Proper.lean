import StateSpace.Proofs.Layout.Tiling

/-!
# Proper blocks

A block is proper for a layout if every scalar holds a value of its type and all
bits behind the layout are clear. The zeroed block is proper, and a setter that
is given a proper block leaves one, also if it stops with a fault midway. So
whatever is made with setters alone is proper. Proper blocks are equal if their
variables read the same, and numbers in them can be calculated with.
-/

namespace StateSpace

variable {layout : Layout}

/-- The setters of the views of a layout. -/
inductive Layout.Setter (layout : Layout) : Update layout.bytes Unit → Prop
  | boolean
      {view : View}
      {place : BoolView}
      (viewed : layout.HasView view)
      (isBool : view.toBool = .ok place)
      (value : Bool) :
      Setter layout (place.set value)
  | range
      {view : View}
      {place : RangeView}
      (viewed : layout.HasView view)
      (isRange : view.toRange = .ok place)
      (value : Int64) :
      Setter layout (place.set value)
  | enumeration
      {view : View}
      {place : EnumView}
      (viewed : layout.HasView view)
      (isEnum : view.toEnum = .ok place)
      (ordinal : Nat) :
      Setter layout (place.set ordinal)
  | member
      {view : View}
      {place : EnumView}
      (viewed : layout.HasView view)
      (isEnum : view.toEnum = .ok place)
      (name : String) :
      Setter layout (place.setMember name)
  | value
      {view : View}
      (viewed : layout.HasView view)
      (value : Value) :
      Setter layout (view.set value)

/-- A setter leads from one block to another, whether or not it takes its value. -/
def Layout.Touches
    (layout : Layout)
    (first last : Block layout.bytes) : Prop :=
  ∃ setter, layout.Setter setter ∧ last = (setter.runOn first).2

/-- An update that changes a block by setters alone. -/
def Layout.SetsOnly
    (layout : Layout)
    {α : Type}
    (update : Update layout.bytes α) : Prop :=
  ∀ block, Relation.ReflTransGen layout.Touches block (update.runOn block).2

/-- Every scalar holds a value of its type, and the bits behind the layout are
clear. -/
structure Layout.Proper
    (layout : Layout)
    (block : Block layout.bytes) : Prop where
  scalars : ∀ view, layout.HasView view → view.ty.isScalar = true →
    ∃ value, view.get block = .ok value ∧ value.HasType view.ty
  padding : ∀ index, layout.bits ≤ index → block.bit index = false

/-! ## Updates that are made of setters -/

namespace Layout.SetsOnly

variable {α β : Type}

theorem of_setter
    {setter : Update layout.bytes Unit}
    (typed : layout.Setter setter) :
    layout.SetsOnly setter :=
  fun _ => .single ⟨setter, typed, rfl⟩

theorem pure (result : α) :
    layout.SetsOnly (Pure.pure result : Update layout.bytes α) :=
  fun _ => .refl

theorem bind
    {update : Update layout.bytes α}
    {next : α → Update layout.bytes β}
    (first : layout.SetsOnly update)
    (second : ∀ result, layout.SetsOnly (next result)) :
    layout.SetsOnly (update >>= next) := by
  intro block
  have before := first block
  rw [Update.runOn_bind]
  generalize update.runOn block = outcome at before ⊢
  obtain ⟨stop | result, changed⟩ := outcome
  · exact before
  · exact before.trans (second result changed)

theorem recover
    {update : Update layout.bytes α}
    {handler : Stop → Update layout.bytes α}
    (first : layout.SetsOnly update)
    (second : ∀ stop, layout.SetsOnly (handler stop)) :
    layout.SetsOnly (tryCatch update handler) := by
  intro block
  have before := first block
  -- The handler goes on with the block that was left at the stop.
  have opened : (tryCatch update handler).runOn block =
      match update.runOn block with
      | (.ok result, changed) => (.ok result, changed)
      | (.error stop, changed) => (handler stop).runOn changed := by
    simp only [tryCatch, tryCatchThe, MonadExceptOf.tryCatch, ExceptT.tryCatch,
      Update.runOn, ExceptT.run_mk, StateT.run_bind]
    generalize ran : update.run.run block = outcome
    have same : StateT.run update block = outcome := ran
    rw [same]
    obtain ⟨stop | result, changed⟩ := outcome <;> rfl
  rw [opened]
  generalize update.runOn block = outcome at before ⊢
  obtain ⟨stop | result, changed⟩ := outcome
  · exact before.trans (second stop changed)
  · exact before

end Layout.SetsOnly

/-! ## Setters leave scalars of their types -/

/-- A part of a value is reached by a path. -/
theorem Ty.Contains.exists_path
    {whole part : Ty}
    {offset place : Nat}
    (contains : Ty.Contains whole offset part place) :
    ∃ path, View.at? ⟨whole, offset⟩ path = some ⟨part, place⟩ := by
  induction contains with
  | whole => exact ⟨[], rfl⟩
  | @element index element part offset position place inside _ inductionHypothesis =>
      obtain ⟨path, found⟩ := inductionHypothesis
      refine ⟨position :: path, ?_⟩
      have present : (View.parts ⟨.array index element, offset⟩)[position]? =
          some ⟨element, offset + position * element.width⟩ := by
        simp [View.parts_array, inside]
      rw [View.at?, present]
      exact found
  | @field fields name ty part offset start place member _ inductionHypothesis =>
      obtain ⟨path, found⟩ := inductionHypothesis
      obtain ⟨position, placed⟩ := List.mem_iff_getElem?.mp member
      refine ⟨position :: path, ?_⟩
      have present : (View.parts ⟨.record fields, offset⟩)[position]? =
          some ⟨ty, start⟩ := by
        simp [View.parts_record, placed]
      rw [View.at?, present]
      exact found

/-- A scalar of the right form is of the right type. -/
theorem View.hasType_of_matches
    {leaf : View}
    (scalar : leaf.ty.isScalar = true)
    {value : Value}
    (matched : leaf.ty.Matches value) :
    value.HasType leaf.ty := by
  obtain ⟨ty, offset⟩ := leaf
  cases ty with
  | scalar leaf => exact matched
  | array index element => cases scalar
  | record fields => cases scalar

/-- A setter leaves a value of its type in every scalar that it changes. -/
theorem View.Stores.scalar_typed
    {size : Nat}
    {view leaf : View}
    {value : Value}
    {before : Block size}
    {outcome : Except Stop Unit × Block size}
    (stores : view.Stores value before outcome)
    {path : List Nat}
    (found : view.at? path = some leaf)
    (scalar : leaf.ty.isScalar = true) :
    (∃ there, leaf.get outcome.2 = .ok there ∧ there.HasType leaf.ty) ∨
      ∀ index, Covers leaf.offset leaf.width index →
        outcome.2.bit index = before.bit index := by
  -- Before the first ill-typed position the value has the right form.
  have typedAt : ∀ there, value.at? path = some there → ¬ view.IllTypedAt value path →
      there.HasType leaf.ty := by
    intro there reached sound
    refine View.hasType_of_matches scalar ?_
    by_contra mismatch
    exact sound ⟨leaf, there, found, reached, mismatch⟩
  by_cases typed : value.HasType view.ty
  · obtain ⟨there, reached, read⟩ := View.get_at? (stores.accepted typed).2 found
    exact .inl ⟨there, read, typedAt there reached (View.not_illTypedAt typed path)⟩
  · obtain ⟨fault, stop, -, least, interrupted⟩ := stores.refused typed
    by_cases early : path < stop
    · obtain ⟨there, reached, read⟩ := interrupted.stored path leaf found scalar early
      refine .inl ⟨there, read, typedAt there reached fun illTyped => ?_⟩
      exact absurd early (not_lt.mpr (least.2 illTyped))
    · exact .inr (interrupted.untouched path leaf found scalar early)

theorem View.toBool_eq_ok
    {view : View}
    {place : BoolView}
    (isBool : view.toBool = .ok place) :
    view = ⟨.scalar .boolean, place.offset⟩ := by
  obtain ⟨ty, offset⟩ := view
  unfold View.toBool at isBool
  split at isBool
  · rename_i tyEqual
    cases isBool
    cases tyEqual
    rfl
  · cases isBool

theorem View.toRange_eq_ok
    {view : View}
    {place : RangeView}
    (isRange : view.toRange = .ok place) :
    view = ⟨.scalar (.range place.bounds), place.offset⟩ := by
  obtain ⟨ty, offset⟩ := view
  unfold View.toRange at isRange
  split at isRange
  · rename_i bounds tyEqual
    cases isRange
    cases tyEqual
    rfl
  · cases isRange

theorem View.toEnum_eq_ok
    {view : View}
    {place : EnumView}
    (isEnum : view.toEnum = .ok place) :
    view = ⟨.scalar (.enumeration place.members), place.offset⟩ := by
  obtain ⟨ty, offset⟩ := view
  unfold View.toEnum at isEnum
  split at isEnum
  · rename_i members tyEqual
    cases isEnum
    cases tyEqual
    rfl
  · cases isEnum

/-- A setter stores a value in a view of the layout, or it refuses at once. -/
theorem Layout.Setter.set_or_fault
    {setter : Update layout.bytes Unit}
    (typed : layout.Setter setter) :
    (∃ view value, layout.HasView view ∧ setter = view.set value) ∨
      ∃ fault, setter = Update.fault fault := by
  cases typed with
  | boolean viewed isBool value =>
      obtain rfl := View.toBool_eq_ok isBool
      exact .inl ⟨_, .boolean value, viewed, rfl⟩
  | range viewed isRange value =>
      obtain rfl := View.toRange_eq_ok isRange
      exact .inl ⟨_, .range value, viewed, rfl⟩
  | enumeration viewed isEnum ordinal =>
      obtain rfl := View.toEnum_eq_ok isEnum
      exact .inl ⟨_, .enumeration ordinal, viewed, rfl⟩
  | @member view place viewed isEnum name =>
      obtain rfl := View.toEnum_eq_ok isEnum
      cases known : place.ordinal name with
      | ok ordinal =>
          refine .inl ⟨_, .enumeration ordinal, viewed, ?_⟩
          simp only [EnumView.setMember, known]
          rfl
      | error fault =>
          refine .inr ⟨fault, ?_⟩
          simp only [EnumView.setMember, known]
          rfl
  | value viewed value => exact .inl ⟨_, value, viewed, rfl⟩

theorem Block.bit_zero
    (size index : Nat) :
    (Block.zero size).bit index = false := by
  simp [Block.zero, Block.bit]

theorem Block.extract_zero
    (size offset width : Nat) :
    (Block.zero size).extract offset width = 0 :=
  Block.extract_eq (Nat.two_pow_pos width) fun index _ => by
    rw [Block.bit_zero, Nat.zero_testBit]

namespace Layout.Placed

theorem zero_proper (placed : layout.Placed) : layout.Proper (.zero layout.bytes) where
  scalars := by
    intro view viewed scalar
    obtain ⟨shaped, fits⟩ := placed.shaped_fits viewed
    obtain ⟨ty, offset⟩ := view
    cases shaped with
    | @scalar leaf narrow =>
        refine ⟨_, View.get_scalar fits.window narrow, ?_⟩
        rw [Block.extract_zero]
        exact (Scalar.hasType_decode narrow (Nat.two_pow_pos _)).mpr leaf.cardinality_pos
    | array elementShaped bounded => cases scalar
    | record fieldsShaped bounded => cases scalar
  padding := fun index _ => Block.bit_zero _ index

/-- Setting a view of the layout keeps a block proper, however it ends. -/
theorem proper_set
    (placed : layout.Placed)
    {view : View}
    (viewed : layout.HasView view)
    (value : Value)
    {block : Block layout.bytes}
    (proper : layout.Proper block) :
    layout.Proper ((view.set value).runOn block).2 := by
  obtain ⟨shaped, fits⟩ := placed.shaped_fits viewed
  have stores := View.stores shaped fits.window value block
  constructor
  · intro leaf leafViewed scalar
    obtain ⟨leafShaped, leafFits⟩ := placed.shaped_fits leafViewed
    have unchanged (same : ∀ index, Covers leaf.offset leaf.width index →
        ((view.set value).runOn block).2.bit index = block.bit index) :
        ∃ there, leaf.get ((view.set value).runOn block).2 = .ok there ∧
          there.HasType leaf.ty := by
      rw [View.get_congr leafShaped leafFits.window leafFits.window same]
      exact proper.scalars leaf leafViewed scalar
    have inside (contains : Ty.Contains view.ty view.offset leaf.ty leaf.offset) :
        ∃ there, leaf.get ((view.set value).runOn block).2 = .ok there ∧
          there.HasType leaf.ty := by
      obtain ⟨path, found⟩ := contains.exists_path
      exact (stores.scalar_typed found scalar).elim id unchanged
    rcases placed.nested_or_apart viewed leafViewed with nested | nested | apart
    · exact inside nested
    · obtain ⟨leafTy, place⟩ := leaf
      cases leafTy with
      | scalar leaf =>
          obtain ⟨sameTy, samePlace⟩ := nested.of_scalar
          refine inside ?_
          rw [sameTy, samePlace]
          exact .whole
      | array index element => cases scalar
      | record fields => cases scalar
    · exact unchanged fun index covers =>
        stores.outside index (apart.symm.shareNoBit index covers)
  · intro index behind
    have within := placed.view_within viewed
    rw [stores.outside index fun covers => by unfold Covers at covers; omega]
    exact proper.padding index behind

/-- What setters make of a proper block is proper. -/
theorem proper_touches
    (placed : layout.Placed)
    {first last : Block layout.bytes}
    (touched : Relation.ReflTransGen layout.Touches first last)
    (proper : layout.Proper first) :
    layout.Proper last := by
  induction touched with
  | refl => exact proper
  | tail _ touches inductionHypothesis =>
      obtain ⟨setter, typed, rfl⟩ := touches
      rcases typed.set_or_fault with ⟨view, value, viewed, rfl⟩ | ⟨fault, rfl⟩
      · exact placed.proper_set viewed value inductionHypothesis
      · exact inductionHypothesis

end Layout.Placed

/-! ## What proper blocks are good for -/

/-- Proper blocks are equal exactly if all variables read the same in them. -/
theorem Layout.Proper.eq_iff
    {first second : Block layout.bytes}
    (built : layout.Built)
    (firstProper : layout.Proper first)
    (secondProper : layout.Proper second) :
    first = second ↔
      ∀ declared ∈ layout.entries.toList, declared.view.get first =
        declared.view.get second := by
  refine ⟨fun same _ _ => by rw [same], fun same => ?_⟩
  ext index present
  by_cases inside : index < layout.bits
  · obtain ⟨view, member, covers⟩ :=
      built.placed.tiled.views.exists_covers (Nat.zero_le index) inside
    obtain ⟨declared, declaredMember, rfl⟩ := List.mem_map.mp member
    obtain ⟨shaped, fits⟩ := built.placed.shaped_fits (built.hasView declaredMember)
    exact View.bit_eq_of_get shaped fits.window fits.window
      (same declared declaredMember) covers
  · rw [firstProper.padding index (by omega), secondProper.padding index (by omega)]

/-- A range of a proper block holds a number within its bounds, so its check
passes, and operations on the place are those on the number. -/
theorem Layout.Proper.range
    {block : Block layout.bytes}
    (proper : layout.Proper block)
    {view : View}
    {place : RangeView}
    (viewed : layout.HasView view)
    (isRange : view.toRange = .ok place) :
    ∃ stored : RangeValue, stored.bounds = place.bounds ∧
      place.operand block = .ok stored.value ∧
      ∀ side free,
        (∀ policy op, place.arith policy block op side free =
          stored.arith policy op side free) ∧
        ∀ op, place.cmp block op side free = stored.cmp op side free := by
  obtain rfl := View.toRange_eq_ok isRange
  obtain ⟨value, read, typed⟩ := proper.scalars _ viewed rfl
  cases typed with
  | @range bounds number contained =>
      have got : place.get block = .ok number := by
        change (do return Value.range (← place.get block) : Except Breach Value) =
          _ at read
        cases found : place.get block with
        | error breach =>
            rw [found] at read
            cases read
        | ok other =>
            rw [found] at read
            cases read
            rfl
      have checked : place.bounds.checkValue number = .ok () := if_pos contained
      have operand : place.operand block = .ok number := by
        rw [RangeView.operand, got]
        change (do place.bounds.checkValue number; return number : Except Stop Int64) = _
        rw [checked]
        rfl
      refine ⟨⟨place.bounds, number, contained⟩, rfl, operand, fun side free =>
        ⟨fun policy op => ?_, fun op => ?_⟩⟩
      · rw [RangeView.arith, operand]
        rfl
      · rw [RangeView.cmp, operand]
        rfl

end StateSpace
