import StateSpace.Proofs.View.Scalars

/-!
# Values of a type

A value is of a type if it is built as the type is, down to its scalars. It is
ill-typed at a position if what stands there has another form than the type asks
for. Positions are ordered as a walk through the value comes to them, a part
after the whole and before what is on its right, so a value of another type has
a first position at which it is ill-typed.
-/

namespace StateSpace

/-- A value is of a type: it is of the same kind at every level, an array has
one element for each value of the index, a record has a value for each field,
and every scalar is one of the values of its type. -/
inductive Value.HasType : Value → Ty → Prop
  | boolean
      {value : Bool} :
      HasType (.boolean value) (.scalar .boolean)
  | range
      {bounds : Bounds}
      {value : Int64}
      (contained : bounds.contains value = true) :
      HasType (.range value) (.scalar (.range bounds))
  | enumeration
      {members : Members}
      {ordinal : Nat}
      (present : ordinal < members.count) :
      HasType (.enumeration ordinal) (.scalar (.enumeration members))
  | array
      {index : Scalar}
      {element : Ty}
      {values : List Value}
      (length : values.length = index.count)
      (each : ∀ value ∈ values, HasType value element) :
      HasType (.array values) (.array index element)
  | record
      {fields : List (String × Ty)}
      {values : List Value}
      (each : List.Forall₂ (fun field value => HasType value field.2) fields values) :
      HasType (.record values) (.record fields)

/-- A value has the form that a type asks for at the outermost level: it is a
scalar of the type, or a composite value of the same kind with as many parts. -/
def Ty.Matches : Ty → Value → Prop
  | .scalar leaf, value => value.HasType (.scalar leaf)
  | .array index _, .array values => values.length = index.count
  | .record fields, .record values => values.length = fields.length
  | _, _ => False

/-- The values of a scalar type are those that have an ordinal. -/
theorem Scalar.hasType_iff
    {leaf : Scalar}
    {value : Value} :
    value.HasType (.scalar leaf) ↔ ∃ ordinal, leaf.encode value = .ok ordinal := by
  constructor
  · intro typed
    cases typed with
    | boolean => exact ⟨_, rfl⟩
    | range contained => exact ⟨_, if_pos contained⟩
    | enumeration present => exact ⟨_, if_pos present⟩
  · rintro ⟨ordinal, encoded⟩
    unfold encode at encoded
    split at encoded
    · exact .boolean
    · split at encoded
      · exact .range (by assumption)
      · cases encoded
    · split at encoded
      · exact .enumeration (by assumption)
      · cases encoded
    · cases encoded

/-- A stored number stands for a value of the type exactly if it is an
ordinal. -/
theorem Scalar.hasType_decode
    {leaf : Scalar}
    (narrow : leaf.width ≤ 64)
    {number : Nat}
    (small : number < 2 ^ leaf.width) :
    (leaf.decode number).HasType (.scalar leaf) ↔ number < leaf.cardinality := by
  rw [hasType_iff]
  constructor
  · rintro ⟨ordinal, encoded⟩
    obtain ⟨bounded, same⟩ := (encode_eq_ok narrow).mp encoded
    have equal :=
      decode_injective narrow small (bounded.trans_le leaf.cardinality_le) same
    rwa [equal]
  · intro bounded
    exact ⟨number, (encode_eq_ok narrow).mpr ⟨bounded, rfl⟩⟩

/-! ## Types of composite values -/

theorem View.length_parts_array
    {index : Scalar}
    {element : Ty}
    {offset : Nat} :
    (View.parts ⟨.array index element, offset⟩).length = index.count := by
  simp [View.parts_array]

theorem Ty.length_placeFields
    (offset : Nat)
    (fields : List (String × Ty)) :
    (Ty.placeFields offset fields).length = fields.length := by
  induction fields generalizing offset with
  | nil => rfl
  | cons field rest inductionHypothesis =>
      obtain ⟨name, ty⟩ := field
      simp only [Ty.placeFields, List.length_cons, inductionHypothesis]

/-- A composite value matches a view if it is composed of as many parts. -/
theorem View.matches_composite
    {view : View}
    (composite : view.ty.isScalar = false)
    {value : Value} :
    view.ty.Matches value ↔
      value = view.ty.compose value.parts ∧ value.parts.length = view.parts.length := by
  obtain ⟨ty, offset⟩ := view
  cases ty with
  | scalar leaf => cases composite
  | array index element =>
      rw [View.length_parts_array]
      cases value <;> simp [Ty.Matches, Ty.compose, Value.parts]
  | record fields =>
      rw [View.parts_record, List.length_map, Ty.length_placeFields]
      cases value <;> simp [Ty.Matches, Ty.compose, Value.parts]

theorem Ty.forall₂_placeFields
    {fields : List (String × Ty)}
    {values : List Value}
    {offset : Nat} :
    List.Forall₂ (fun (part : View) (value : Value) => value.HasType part.ty)
        ((Ty.placeFields offset fields).map fun field => ⟨field.2.1, field.2.2⟩) values ↔
      List.Forall₂ (fun field value => Value.HasType value field.2) fields values := by
  induction fields generalizing offset values with
  | nil => simp [Ty.placeFields]
  | cons field rest inductionHypothesis =>
      obtain ⟨name, ty⟩ := field
      simp only [Ty.placeFields, List.map_cons, List.forall₂_cons_left_iff,
        inductionHypothesis]

/-- A composite value is of the type of a view if it matches, and its parts are
of the types of the view's parts. -/
theorem View.hasType_composite
    {view : View}
    (composite : view.ty.isScalar = false)
    {value : Value} :
    value.HasType view.ty ↔
      value = view.ty.compose value.parts ∧
        List.Forall₂ (fun (part : View) value => Value.HasType value part.ty)
          view.parts value.parts := by
  obtain ⟨ty, offset⟩ := view
  cases ty with
  | scalar leaf => cases composite
  | array index element =>
      constructor
      · intro typed
        cases typed with
        | @array _ _ values length each =>
            refine ⟨rfl, List.forall₂_iff_zip.mpr ⟨?_, ?_⟩⟩
            · rw [View.length_parts_array]
              exact length.symm
            · intro part value member
              obtain ⟨present, stored⟩ := List.of_mem_zip member
              obtain ⟨position, -, rfl⟩ := List.mem_map.mp present
              exact each value stored
      · rintro ⟨composed, each⟩
        rw [composed]
        refine .array ?_ fun value member => ?_
        · rw [← each.length_eq, View.length_parts_array]
        · obtain ⟨position, inside, rfl⟩ := List.getElem_of_mem member
          have bound :
              position < (View.parts ⟨.array index element, offset⟩).length := by
            rw [each.length_eq]
            exact inside
          have typed := each.get bound inside
          simpa [View.parts_array] using typed
  | record fields =>
      rw [View.parts_record, Ty.forall₂_placeFields]
      constructor
      · intro typed
        cases typed with
        | record each => exact ⟨rfl, each⟩
      · rintro ⟨composed, each⟩
        rw [composed]
        exact .record each

/-! ## Positions -/

/-- What stands at a position has another form than the type there asks for. -/
def View.IllTypedAt
    (view : View)
    (value : Value)
    (position : List Nat) : Prop :=
  ∃ part found, view.at? position = some part ∧ value.at? position = some found ∧
    ¬ part.ty.Matches found

/-- The first position at which a value has another form than the type there
asks for. -/
def View.FirstIllTyped
    (view : View)
    (value : Value)
    (position : List Nat) : Prop :=
  IsLeast {position | view.IllTypedAt value position} position

/-- A value of the right type has the right form. -/
theorem View.matches_of_hasType
    {view : View}
    {value : Value}
    (typed : value.HasType view.ty) :
    view.ty.Matches value := by
  cases composite : view.ty.isScalar with
  | false =>
      obtain ⟨composed, each⟩ := (View.hasType_composite composite).mp typed
      exact (View.matches_composite composite).mpr ⟨composed, each.length_eq.symm⟩
  | true =>
      obtain ⟨ty, offset⟩ := view
      cases ty with
      | scalar leaf => exact typed
      | array index element => cases composite
      | record fields => cases composite

/-- A value of the right type has the right form at every position. -/
theorem View.not_illTypedAt
    {view : View}
    {value : Value}
    (typed : value.HasType view.ty)
    (position : List Nat) :
    ¬ view.IllTypedAt value position := by
  induction position generalizing view value with
  | nil =>
      rintro ⟨part, found, here, stored, mismatch⟩
      cases here
      cases stored
      exact mismatch (View.matches_of_hasType typed)
  | cons first rest inductionHypothesis =>
      rintro ⟨part, found, reached, stored, mismatch⟩
      obtain ⟨middle, present, within⟩ := Option.bind_eq_some_iff.mp reached
      obtain ⟨between, given, further⟩ := Option.bind_eq_some_iff.mp stored
      have composite := View.composite_of_part (List.mem_of_getElem? present)
      obtain ⟨-, each⟩ := (View.hasType_composite composite).mp typed
      obtain ⟨other, again, partTyped⟩ := forall₂_getElem? each present
      cases given.symm.trans again
      exact inductionHypothesis partTyped ⟨part, found, within, further, mismatch⟩

/-- A value of another form is ill-typed before all of its parts. -/
theorem View.firstIllTyped_nil
    {view : View}
    {value : Value}
    (mismatch : ¬ view.ty.Matches value) :
    view.FirstIllTyped value [] :=
  ⟨⟨view, value, rfl, rfl, mismatch⟩, fun _ _ => not_lt.mp (List.not_lt_nil _)⟩

/-- A composite value of the right form is first ill-typed where the first of
its parts that is of another type is. -/
theorem View.firstIllTyped_cons
    {view part : View}
    {value found : Value}
    {first : Nat}
    {rest : List Nat}
    (matched : view.ty.Matches value)
    (earlier : ∀ position < first, ∀ other stored, view.parts[position]? = some other →
      value.parts[position]? = some stored → stored.HasType other.ty)
    (present : view.parts[first]? = some part)
    (given : value.parts[first]? = some found)
    (inside : part.FirstIllTyped found rest) :
    view.FirstIllTyped value (first :: rest) := by
  obtain ⟨⟨there, stored, reached, holds, mismatch⟩, least⟩ := inside
  refine ⟨⟨there, stored, ?_, ?_, mismatch⟩, ?_⟩
  · simp only [View.at?, present, Option.bind_some, reached]
  · simp only [Value.at?, given, Option.bind_some, holds]
  · rintro (_ | ⟨position, path⟩) ⟨other, held, otherReached, otherHolds, otherMismatch⟩
    · cases otherReached
      cases otherHolds
      exact absurd matched otherMismatch
    · obtain ⟨middle, middlePresent, within⟩ := Option.bind_eq_some_iff.mp otherReached
      obtain ⟨between, middleGiven, further⟩ := Option.bind_eq_some_iff.mp otherHolds
      have illTyped : middle.IllTypedAt between path :=
        ⟨other, held, within, further, otherMismatch⟩
      rcases Nat.lt_trichotomy position first with before | rfl | after
      · have typed := earlier position before middle between middlePresent middleGiven
        exact absurd illTyped (View.not_illTypedAt typed path)
      · cases middlePresent.symm.trans present
        cases middleGiven.symm.trans given
        exact List.cons_le_cons position (least illTyped)
      · exact le_of_lt (List.cons_lt_cons_iff.mpr (.inl after))

end StateSpace
