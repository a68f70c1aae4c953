import StateSpace.Proofs.View.Reading

/-!
# What a setter writes

A setter goes through a value part by part and stops with a fault where the
value is ill-typed. So it succeeds exactly on the values of the view's type,
which are read again afterwards. However it ends it writes nothing outside the
window of its view, and if it stops then it has stored what comes before the
first ill-typed position and nothing else.
-/

namespace StateSpace

variable {size : Nat}

/-- What a setter that stops at a position of a value leaves: the scalars before
it hold what the value has there, and all others are as they were. -/
structure View.Interrupted
    (view : View)
    (value : Value)
    (stop : List Nat)
    (before after : Block size) : Prop where
  stored : ∀ position leaf, view.at? position = some leaf → leaf.ty.isScalar = true →
    position < stop →
      ∃ there, value.at? position = some there ∧ leaf.get after = .ok there
  untouched : ∀ position leaf, view.at? position = some leaf → leaf.ty.isScalar = true →
    ¬ position < stop →
      ∀ index, Covers leaf.offset leaf.width index → after.bit index = before.bit index

/-- How a setter of a view ends with a value. -/
structure View.Stores
    (view : View)
    (value : Value)
    (before : Block size)
    (outcome : Except Stop Unit × Block size) : Prop where
  outside : ∀ index, ¬ Covers view.offset view.width index →
    outcome.2.bit index = before.bit index
  accepted : value.HasType view.ty → outcome.1 = .ok () ∧ view.get outcome.2 = .ok value
  refused : ¬ value.HasType view.ty → ∃ fault stop, outcome.1 = .error (.fault fault) ∧
    view.FirstIllTyped value stop ∧ view.Interrupted value stop before outcome.2

/-- What a setter leaves unchanged may be compared with any block that agrees
with the one before it in the window of the view. -/
theorem View.Interrupted.congr
    {view : View}
    {value : Value}
    {stop : List Nat}
    {before other after : Block size}
    (interrupted : view.Interrupted value stop before after)
    (same : ∀ index, Covers view.offset view.width index →
      before.bit index = other.bit index) :
    view.Interrupted value stop other after where
  stored := interrupted.stored
  untouched := by
    intro position leaf found scalar late index covers
    rw [interrupted.untouched position leaf found scalar late index covers]
    have within := View.at?_within found
    unfold Covers at covers
    exact same index ⟨by omega, by omega⟩

/-- A value of another form that is refused at once leaves the block as it
was. -/
theorem View.Stores.of_mismatch
    {view : View}
    {value : Value}
    (mismatch : ¬ view.ty.Matches value)
    (fault : Fault)
    (block : Block size) :
    view.Stores value block (.error (.fault fault), block) where
  outside := fun _ _ => rfl
  accepted := fun typed => absurd (View.matches_of_hasType typed) mismatch
  refused := by
    refine fun _ => ⟨fault, [], rfl, View.firstIllTyped_nil mismatch, ?_,
      fun _ _ _ _ _ _ _ => rfl⟩
    intro position _ _ _ early
    exact absurd early (List.not_lt_nil position)

/-! ## Scalars -/

theorem View.stores_scalar
    {leaf : Scalar}
    {offset : Nat}
    (window : HasWindow size offset leaf.width)
    (narrow : leaf.width ≤ 64)
    (value : Value)
    (block : Block size) :
    View.Stores ⟨.scalar leaf, offset⟩ value block
      ((View.set ⟨.scalar leaf, offset⟩ value).runOn block) := by
  rw [View.set_scalar window narrow]
  cases encoded : leaf.encode value with
  | ok ordinal =>
      obtain ⟨bounded, decoded⟩ := (Scalar.encode_eq_ok narrow).mp encoded
      have small : ordinal < 2 ^ leaf.width := bounded.trans_le leaf.cardinality_le
      have typed : value.HasType (.scalar leaf) :=
        Scalar.hasType_iff.mpr ⟨ordinal, encoded⟩
      refine ⟨fun index outside => block.bit_deposit_outside ordinal outside,
        fun _ => ⟨rfl, ?_⟩, fun illTyped => absurd typed illTyped⟩
      rw [View.get_scalar window narrow,
        block.extract_deposit window.inside small, decoded]
  | error fault =>
      refine .of_mismatch (fun typed => ?_) fault block
      obtain ⟨ordinal, same⟩ := Scalar.hasType_iff.mp typed
      cases encoded.symm.trans same

/-! ## Parts one after the other -/

/-- Set views one after the other. -/
def View.setEach : List View → List Value → Update size Unit
  | view :: views, value :: values => do
    view.set value
    setEach views values
  | _, _ => return ()

theorem Ty.forM_store
    (offset : Nat)
    (element : Ty)
    (values : List Value)
    (first : Nat) :
    ((values.zipIdx first).forM fun (value, position) =>
      (element.store (offset + position * element.width) value : Update size Unit)) =
      View.setEach ((List.range' first values.length).map fun position =>
        ⟨element, offset + position * element.width⟩) values := by
  induction values generalizing first with
  | nil => rfl
  | cons value rest inductionHypothesis =>
      simp only [List.zipIdx_cons, List.length_cons, List.range'_succ,
        List.map_cons, View.setEach]
      exact congrArg
        (element.store (offset + first * element.width) value >>= fun _ => ·)
        (inductionHypothesis (first + 1))

theorem Ty.storeFields_eq
    (offset : Nat)
    (fields : List (String × Ty))
    (values : List Value) :
    (Ty.storeFields offset fields values : Update size Unit) =
      View.setEach
        ((Ty.placeFields offset fields).map fun field => ⟨field.2.1, field.2.2⟩)
        values := by
  induction fields generalizing offset values with
  | nil => cases values <;> rfl
  | cons field rest inductionHypothesis =>
      obtain ⟨name, ty⟩ := field
      cases values with
      | nil => rfl
      | cons value values =>
          simp only [Ty.storeFields, Ty.placeFields, List.map_cons, View.setEach,
            inductionHypothesis]
          rfl

/-- A composite value of the right form is stored part by part. -/
theorem View.set_composite
    {view : View}
    (composite : view.ty.isScalar = false)
    {value : Value}
    (matched : view.ty.Matches value) :
    (view.set value : Update size Unit) = View.setEach view.parts value.parts := by
  obtain ⟨ty, offset⟩ := view
  cases ty with
  | scalar leaf => cases composite
  | array index element =>
      cases value with
      | array values =>
          have length : values.length = index.count := matched
          simp only [View.set, Ty.store, if_pos length]
          refine (Ty.forM_store offset element values 0).trans ?_
          rw [length, ← List.range_eq_range']
          rfl
      | _ => cases matched
  | record fields =>
      cases value with
      | record values =>
          have length : values.length = fields.length := matched
          simp only [View.set, Ty.store, if_pos length, View.parts_record]
          exact Ty.storeFields_eq offset fields values
      | _ => cases matched

/-- A value of another form is refused at once. -/
theorem View.set_mismatch
    {view : View}
    (composite : view.ty.isScalar = false)
    {value : Value}
    (mismatch : ¬ view.ty.Matches value) :
    ∃ fault, (view.set value : Update size Unit) = Update.fault fault := by
  obtain ⟨ty, offset⟩ := view
  cases ty with
  | scalar leaf => cases composite
  | array index element =>
      cases value with
      | array values => exact ⟨_, if_neg mismatch⟩
      | _ => exact ⟨_, rfl⟩
  | record fields =>
      cases value with
      | record values => exact ⟨_, if_neg mismatch⟩
      | _ => exact ⟨_, rfl⟩

/-- Every view was set to a value of its type, and all of them are read again. -/
structure View.EachStored
    (views : List View)
    (values : List Value)
    (outcome : Except Stop Unit × Block size) : Prop where
  typed : List.Forall₂ (fun (view : View) value => Value.HasType value view.ty)
    views values
  finished : outcome.1 = .ok ()
  read : List.Forall₂ (fun view value => view.get outcome.2 = .ok value) views values

/-- The view at a position was the first to refuse its value. -/
structure View.EachStopped
    (views : List View)
    (values : List Value)
    (first : Nat)
    (before : Block size)
    (outcome : Except Stop Unit × Block size) : Prop where
  here : ∃ view value fault stop,
    views[first]? = some view ∧ values[first]? = some value ∧
    ¬ value.HasType view.ty ∧ outcome.1 = .error (.fault fault) ∧
      view.FirstIllTyped value stop ∧ view.Interrupted value stop before outcome.2
  earlier : ∀ position < first, ∀ view value, views[position]? = some view →
    values[position]? = some value →
      value.HasType view.ty ∧ view.get outcome.2 = .ok value
  later : ∀ position view, first < position → views[position]? = some view →
    ∀ index, Covers view.offset view.width index → outcome.2.bit index = before.bit index

/-- If a later view stopped then the ones before it were set. -/
theorem View.EachStopped.cons
    {view : View}
    {views : List View}
    {value : Value}
    {values : List Value}
    {first : Nat}
    {before middle : Block size}
    {outcome : Except Stop Unit × Block size}
    (typed : value.HasType view.ty)
    (kept : view.get outcome.2 = .ok value)
    (beyond : ∀ other ∈ views, ∀ index, Covers other.offset other.width index →
      middle.bit index = before.bit index)
    (stopped : View.EachStopped views values first middle outcome) :
    View.EachStopped (view :: views) (value :: values) (first + 1) before outcome where
  here := by
    obtain ⟨other, stored, fault, stop, present, given, illTyped, failed, least,
        interrupted⟩ :=
      stopped.here
    exact ⟨other, stored, fault, stop, present, given, illTyped, failed, least,
      interrupted.congr (beyond other (List.mem_of_getElem? present))⟩
  earlier := by
    rintro (_ | position) early other stored present given
    · cases present
      cases given
      exact ⟨typed, kept⟩
    · exact stopped.earlier position (by omega) other stored present given
  later := by
    rintro (_ | position) other late present index covers
    · omega
    · rw [stopped.later position other (by omega) present index covers]
      exact beyond other (List.mem_of_getElem? present) index covers

/-- A composite value of the right form is refused where the first of its parts
is refused. -/
theorem View.EachStopped.refused
    {view : View}
    (composite : view.ty.isScalar = false)
    {value : Value}
    (matched : view.ty.Matches value)
    {first : Nat}
    {before : Block size}
    {outcome : Except Stop Unit × Block size}
    (stopped : View.EachStopped view.parts value.parts first before outcome) :
    ∃ fault stop, outcome.1 = .error (.fault fault) ∧
      view.FirstIllTyped value stop ∧ view.Interrupted value stop before outcome.2 := by
  obtain ⟨⟨part, stored, fault, rest, present, given, illTyped, failed, least,
    interrupted⟩, earlier, later⟩ := stopped
  obtain ⟨-, length⟩ := (View.matches_composite composite).mp matched
  have firstIllTyped : view.FirstIllTyped value (first :: rest) :=
    View.firstIllTyped_cons matched
      (fun position before other held otherPresent otherGiven =>
        (earlier position before other held otherPresent otherGiven).1)
      present given least
  refine ⟨fault, first :: rest, failed, firstIllTyped, ?_, ?_⟩
  · rintro (_ | ⟨position, path⟩) leaf found scalar early
    · cases found
      cases composite.symm.trans scalar
    · obtain ⟨middle, middlePresent, within⟩ := Option.bind_eq_some_iff.mp found
      rcases List.cons_lt_cons_iff.mp early with before | ⟨rfl, before⟩
      · have inside : position < value.parts.length := by
          rw [length]
          exact (List.getElem?_eq_some_iff.mp middlePresent).1
        have middleGiven := List.getElem?_eq_getElem inside
        have read := (earlier position before middle _ middlePresent middleGiven).2
        obtain ⟨there, reached, leafRead⟩ := View.get_at? read within
        refine ⟨there, ?_, leafRead⟩
        rw [Value.at?, middleGiven]
        exact reached
      · cases middlePresent.symm.trans present
        obtain ⟨there, reached, leafRead⟩ :=
          interrupted.stored path leaf within scalar before
        refine ⟨there, ?_, leafRead⟩
        rw [Value.at?, given]
        exact reached
  · rintro (_ | ⟨position, path⟩) leaf found scalar late index covers
    · cases found
      cases composite.symm.trans scalar
    · obtain ⟨middle, middlePresent, within⟩ := Option.bind_eq_some_iff.mp found
      rcases Nat.lt_trichotomy position first with before | rfl | after
      · exact absurd (List.cons_lt_cons_iff.mpr (.inl before)) late
      · cases middlePresent.symm.trans present
        exact interrupted.untouched path leaf within scalar
          (fun before => late (List.cons_lt_cons_iff.mpr (.inr ⟨rfl, before⟩)))
            index covers
      · have inner := View.at?_within within
        unfold Covers at covers
        exact later position middle after middlePresent index ⟨by omega, by omega⟩

/-- Views that tile are set until one of them refuses its value. -/
theorem View.setEach_ends
    {views : List View}
    {start finish : Nat}
    (tile : View.Tile views start finish)
    (ready : ∀ view ∈ views, view.ty.Shaped ∧ HasWindow size view.offset view.width)
    (each : ∀ view ∈ views, ∀ value (block : Block size),
      view.Stores value block ((view.set value).runOn block))
    {values : List Value}
    (length : values.length = views.length)
    (block : Block size) :
    (∀ index, index < start ∨ finish ≤ index →
      ((View.setEach views values).runOn block).2.bit index = block.bit index) ∧
    (View.EachStored views values ((View.setEach views values).runOn block) ∨
      ∃ first, View.EachStopped views values first block
        ((View.setEach views values).runOn block)) := by
  induction tile generalizing values block with
  | nil =>
      cases List.length_eq_zero_iff.mp length
      exact ⟨fun _ _ => rfl, .inl ⟨.nil, rfl, .nil⟩⟩
  | @cons view rest finish tile inductionHypothesis =>
      obtain ⟨value, values, rfl⟩ := List.exists_cons_of_length_eq_add_one length
      have above := tile.le
      have stores := each view (by simp) value block
      obtain ⟨shaped, window⟩ := ready view (by simp)
      -- Bits of the later views are bits outside the first one.
      have beyond : ∀ other ∈ rest, ∀ index, Covers other.offset other.width index →
          ((view.set value).runOn block).2.bit index = block.bit index := by
        intro other member index covers
        have low := (tile.mem member).1
        refine stores.outside index fun inside => ?_
        unfold Covers at covers inside
        omega
      simp only [View.setEach, Update.runOn_bind]
      by_cases typed : value.HasType view.ty
      · obtain ⟨finished, read⟩ := stores.accepted typed
        obtain ⟨outside, ends⟩ := inductionHypothesis
          (fun other member => ready other (by simp [member]))
          (fun other member => each other (by simp [member]))
          (Nat.succ.inj length) ((view.set value).runOn block).2
        generalize (view.set value).runOn block = outcome at *
        obtain ⟨result, middle⟩ := outcome
        cases finished
        simp only
        have kept : view.get ((View.setEach rest values).runOn middle).2 =
            .ok value := by
          refine (View.get_congr shaped window window fun index covers => ?_).trans read
          exact outside index (.inl covers.2)
        refine ⟨fun index away => ?_, ?_⟩
        · rw [outside index (by omega)]
          exact stores.outside index fun inside => by
            unfold Covers at inside
            omega
        · rcases ends with ⟨types, done, reads⟩ | ⟨first, stopped⟩
          · exact .inl ⟨.cons typed types, done, .cons kept reads⟩
          · exact .inr ⟨first + 1, stopped.cons typed kept beyond⟩
      · obtain ⟨fault, stop, failed, least, interrupted⟩ := stores.refused typed
        generalize (view.set value).runOn block = outcome at *
        obtain ⟨result, middle⟩ := outcome
        cases failed
        refine ⟨fun index away => stores.outside index fun inside => by
          unfold Covers at inside
          omega, .inr ⟨0, ?_, ?_, ?_⟩⟩
        · exact ⟨view, value, fault, stop, rfl, rfl, typed, rfl, least, interrupted⟩
        · intro position before
          omega
        · rintro (_ | position) other after present index covers
          · omega
          · exact beyond other (List.mem_of_getElem? present) index covers

/-! ## Setters of every type -/

/-- A setter of a view inside a block stores the value if it is of the view's
type, and else it stops where the value is ill-typed. -/
theorem View.stores
    {view : View}
    (shaped : view.ty.Shaped)
    (window : HasWindow size view.offset view.width)
    (value : Value)
    (block : Block size) :
    view.Stores value block ((view.set value).runOn block) := by
  induction view, shaped using View.shaped_induction generalizing value block with
  | scalar leaf offset narrow => exact View.stores_scalar window narrow value block
  | composite view composite shaped inductionHypothesis =>
      by_cases matched : view.ty.Matches value
      · obtain ⟨composed, length⟩ := (View.matches_composite composite).mp matched
        obtain ⟨outside, ends⟩ := View.setEach_ends (View.parts_tile composite)
          (fun part member =>
            ⟨View.part_shaped shaped member, View.part_window window member⟩)
          (fun part member =>
            inductionHypothesis part member (View.part_window window member))
          length block
        rw [View.set_composite composite matched]
        have untouched : ∀ index, ¬ Covers view.offset view.width index →
            ((View.setEach view.parts value.parts).runOn block).2.bit index =
              block.bit index := by
          intro index away
          unfold Covers at away
          exact outside index (by omega)
        rcases ends with ⟨types, done, reads⟩ | ⟨first, stopped⟩
        · have typed := (View.hasType_composite composite).mpr ⟨composed, types⟩
          refine ⟨untouched, fun _ => ⟨done, ?_⟩, fun illTyped => absurd typed illTyped⟩
          exact (View.get_composite_eq_ok composite).mpr ⟨value.parts, composed, reads⟩
        · obtain ⟨fault, stop, failed, least, interrupted⟩ :=
            stopped.refused composite matched
          exact ⟨untouched, fun typed => absurd least.1 (View.not_illTypedAt typed stop),
            fun _ => ⟨fault, stop, failed, least, interrupted⟩⟩
      · obtain ⟨fault, refuses⟩ :
            ∃ fault, (view.set value : Update size Unit) = Update.fault fault :=
          View.set_mismatch composite matched
        rw [refuses]
        exact .of_mismatch matched fault block

/-- A setter succeeds on the values of the view's type and on no others, and
what it stored is read again. It changes no bit outside the view's window. If
it stops then the scalars before the first ill-typed position have their new
values, and the bits of all others are as before. -/
theorem View.set_exact
    {view : View}
    (built : view.ty.Built)
    (window : HasWindow size view.offset view.width)
    (value : Value)
    (block : Block size) :
    (((view.set value).runOn block).1 = .ok () ↔ value.HasType view.ty) ∧
    (((view.set value).runOn block).1 = .ok () →
      view.get ((view.set value).runOn block).2 = .ok value) ∧
    (∀ index, ¬ Covers view.offset view.width index →
      ((view.set value).runOn block).2.bit index = block.bit index) ∧
    (((view.set value).runOn block).1 ≠ .ok () →
      ∃ fault stop, ((view.set value).runOn block).1 = .error (.fault fault) ∧
        view.FirstIllTyped value stop ∧
        view.Interrupted value stop block ((view.set value).runOn block).2) := by
  have stores := View.stores built.shaped window value block
  have finished : ((view.set value).runOn block).1 = .ok () ↔ value.HasType view.ty := by
    refine ⟨fun done => ?_, fun typed => (stores.accepted typed).1⟩
    by_contra illTyped
    obtain ⟨fault, stop, failed, -⟩ := stores.refused illTyped
    cases done.symm.trans failed
  exact ⟨finished, fun done => (stores.accepted (finished.mp done)).2, stores.outside,
    fun stopped => stores.refused fun typed => stopped (finished.mpr typed)⟩

namespace Tray

theorem positions_ordered : (0 : Int64) ≤ 2 := by
  decide

/-- The positions in a row. -/
def positions : Bounds :=
  ⟨0, 2, positions_ordered⟩

theorem numbers_ordered : (-1 : Int64) ≤ 1 := by
  decide

/-- The numbers of a row. -/
def numbers : Bounds :=
  ⟨-1, 1, numbers_ordered⟩

/-- A flag and a row of three numbers from minus one to one. -/
def fields : List (String × Ty) :=
  [("flag", .boolean), ("row", .array (.range positions) (.scalar (.range numbers)))]

/-- A tray that begins in the middle of a byte and ends in the next one. -/
def view : View :=
  ⟨.record fields, 3⟩

theorem view_built : view.ty.Built := by
  have index : Ty.Built (.scalar (.range positions)) :=
    .range (show Ty.range? 0 2 = _ from rfl)
  have number : Ty.Built (.scalar (.range numbers)) :=
    .range (show Ty.range? (-1) 1 = _ from rfl)
  have accepted : Ty.record? fields = .ok (.record fields) := by
    simp [Ty.record?, Ty.fieldDefect?, fields]
    rfl
  refine .record ?_ accepted
  simp only [fields, List.mem_cons, List.not_mem_nil, or_false,
    forall_eq_or_imp, forall_eq]
  exact ⟨.boolean, .array index number rfl⟩

/-- The second number of the row is too large. -/
def spoiled : Value :=
  .record [.boolean true, .array [.range 1, .range 2, .range 0]]

/-- A block without a clear bit. -/
def full : Block 2 :=
  ⟨0xFFFF⟩

/-- The spoiled tray sets the flag and the first number and stops at the
second. -/
theorem set_exact_spoiled :
    ((view.set spoiled).runOn full).1 = .error (.fault (.valueOutOfRange 2)) ∧
    ∃ stop, view.FirstIllTyped spoiled stop ∧
      view.Interrupted spoiled stop full ((view.set spoiled).runOn full).2 := by
  have outcome : ((view.set spoiled).runOn full).1 =
      .error (.fault (.valueOutOfRange 2)) := by
    rfl
  obtain ⟨-, -, -, stops⟩ :=
    View.set_exact view_built (Fits.window ⟨by decide, by decide⟩) spoiled full
  obtain ⟨fault, stop, -, least, interrupted⟩ := stops (by rw [outcome]; rintro ⟨⟩)
  exact ⟨outcome, stop, least, interrupted⟩

end Tray

end StateSpace
