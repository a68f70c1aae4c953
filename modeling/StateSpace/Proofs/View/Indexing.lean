import StateSpace.Proofs.Arithmetic.Verdict

/-!
# Indices of an array

The index type of an array numbers its values, and an index leads to the element
with its number. Every value has an element of its own, unless the numbers do
not suffice: the integers of 64 bits are one more than a machine word can count,
so an array that is indexed by all of them has no element for the last one.
-/

namespace StateSpace

namespace Scalar

/-- An integer that stands for a value of an index type. -/
def Indexes : Scalar → Int → Prop
  | boolean, index => 0 ≤ index ∧ index ≤ 1
  | range bounds, index => bounds.Holds index
  | enumeration members, index => 0 ≤ index ∧ index < members.count

/-- An index type whose values are counted by a machine word, and stood for by
integers of 64 bits. -/
def Numbered : Scalar → Prop
  | boolean => True
  | range bounds => bounds.span + 1 < Word.limit
  | enumeration members => members.count ≤ 2 ^ 63

/-- The integer that stands for the value numbered zero. -/
def lowest : Scalar → Int
  | range bounds => bounds.min.toInt
  | boolean | enumeration _ => 0

section Ordinals

variable
  {leaf : Scalar}
  {index : Int64}
  {ordinal : Nat}

/-- The values of an index type are consecutive. -/
theorem indexes_iff
    {index : Int} :
    leaf.Indexes index ↔
      leaf.lowest ≤ index ∧ index < leaf.lowest + leaf.cardinality := by
  cases leaf with
  | boolean =>
      simp only [Indexes, lowest, cardinality]
      omega
  | range bounds =>
      have span := bounds.toInt_span
      simp only [Indexes, Bounds.Holds, lowest, cardinality]
      omega
  | enumeration members =>
      simp only [Indexes, lowest, cardinality]
      omega

/-- An index is numbered by its distance from the lowest one. -/
theorem ordinalOf?_of_indexes
    (indexes : leaf.Indexes index.toInt) :
    leaf.ordinalOf? index = some (index.toInt - leaf.lowest).toNat := by
  cases leaf with
  | boolean => simpa [ordinalOf?, Indexes, lowest, Int64.le_iff_toInt_le] using indexes
  | range bounds => exact if_pos (Bounds.contains_iff_holds.mpr indexes)
  | enumeration members =>
    simpa [ordinalOf?, Indexes, lowest, Int64.le_iff_toInt_le] using indexes

theorem ordinalOf?_of_not_indexes
    (outside : ¬ leaf.Indexes index.toInt) :
    leaf.ordinalOf? index = none := by
  cases leaf with
  | boolean => simpa [ordinalOf?, Indexes, Int64.le_iff_toInt_le] using outside
  | range bounds => exact if_neg (mt Bounds.contains_iff_holds.mp outside)
  | enumeration members =>
    simpa [ordinalOf?, Indexes, Int64.le_iff_toInt_le] using outside

theorem valueAt_eq
    (leaf : Scalar)
    (ordinal : Nat) :
    leaf.valueAt ordinal = Int64.ofInt (leaf.lowest + ordinal) := by
  cases leaf with
  | boolean | enumeration members => simp [valueAt, lowest, Int64.ofInt_eq_ofNat]
  | range bounds => rfl

/-- The number of an index leads back to it. -/
theorem valueAt_ordinal
    (indexes : leaf.Indexes index.toInt) :
    leaf.valueAt (index.toInt - leaf.lowest).toNat = index := by
  have low := (indexes_iff.mp indexes).1
  rw [valueAt_eq, Int.toNat_of_nonneg (by omega), add_sub_cancel, Int64.ofInt_toInt]

/-- Every number of a numbered type is that of one of its values. -/
theorem exists_ordinalOf?
    (numbered : leaf.Numbered)
    (small : ordinal < leaf.cardinality) :
    ∃ index : Int64, leaf.Indexes index.toInt ∧
      leaf.ordinalOf? index = some ordinal := by
  have room : -2 ^ 63 ≤ leaf.lowest ∧ leaf.lowest + leaf.cardinality ≤ 2 ^ 63 := by
    cases leaf with
    | boolean => decide
    | range bounds =>
        have low := bounds.min.le_toInt
        have high := bounds.max.toInt_lt
        have span := bounds.toInt_span
        simp only [lowest, cardinality]
        omega
    | enumeration members =>
        have bounded : members.count ≤ 2 ^ 63 := numbered
        simp only [lowest, cardinality]
        omega
  have value : (Int64.ofInt (leaf.lowest + ordinal)).toInt = leaf.lowest + ordinal :=
    Int64.toInt_ofInt.trans (bmod_signedWord ⟨by omega, by omega⟩)
  have indexes : leaf.Indexes (Int64.ofInt (leaf.lowest + ordinal)).toInt := by
    rw [value]
    exact indexes_iff.mpr ⟨by omega, by omega⟩
  refine ⟨_, indexes, ?_⟩
  rw [ordinalOf?_of_indexes indexes, value]
  congr 1
  omega

/-- The values of a numbered type are as many as their count says. -/
theorem count_of_numbered
    (numbered : leaf.Numbered) :
    leaf.count = leaf.cardinality := by
  cases leaf with
  | boolean => rfl
  | range bounds =>
      have counted : bounds.span + 1 < Word.limit := numbered
      simp only [count, Bounds.count, Word.saturate, cardinality]
      omega
  | enumeration members => rfl

end Ordinals

end Scalar

/-! ## Elements -/

namespace ArrayView

/-- The elements of an array are told apart by the values of its index type. -/
structure Indexed (array : ArrayView) : Prop where
  element : ∀ index : Int64, array.index.Indexes index.toInt →
    ∃ ordinal < array.length, array.index.ordinalOf? index = some ordinal ∧
      array.index.valueAt ordinal = index ∧
      array.at? index = .ok ⟨array.element, array.offset + ordinal * array.element.width⟩
  refused : ∀ index : Int64, ¬ array.index.Indexes index.toInt →
    array.at? index = .error (.fault (.indexOutOfRange index.toInt))
  numbers : ∀ ordinal < array.length, ∃ index : Int64,
    array.index.Indexes index.toInt ∧ array.index.ordinalOf? index = some ordinal
  within : ∀ index part, array.at? index = .ok part →
    array.offset ≤ part.offset ∧ part.offset + part.width ≤ array.offset + array.width
  apart : ∀ first second one other, first ≠ second → array.at? first = .ok one →
    array.at? second = .ok other → Apart one.offset one.width other.offset other.width

variable {array : ArrayView}

theorem at?_of_not_indexes
    {index : Int64}
    (outside : ¬ array.index.Indexes index.toInt) :
    array.at? index = .error (.fault (.indexOutOfRange index.toInt)) := by
  rw [at?, Scalar.ordinalOf?_of_not_indexes outside]

/-- An index leads to the element with its number, if there is one. -/
theorem at?_of_indexes
    {index : Int64}
    (indexes : array.index.Indexes index.toInt) :
    array.at? index =
      if (index.toInt - array.index.lowest).toNat < array.length then
        .ok ⟨array.element, array.offset +
          (index.toInt - array.index.lowest).toNat * array.element.width⟩
      else .error (.breach .elementMissing) := by
  rw [at?, Scalar.ordinalOf?_of_indexes indexes]
  simp only [element?]
  split <;> rfl

theorem at?_eq_ok
    {index : Int64}
    {part : View}
    (found : array.at? index = .ok part) :
    array.index.Indexes index.toInt ∧
      (index.toInt - array.index.lowest).toNat < array.length ∧
      part = ⟨array.element, array.offset +
        (index.toInt - array.index.lowest).toNat * array.element.width⟩ := by
  by_cases indexes : array.index.Indexes index.toInt
  · rw [at?_of_indexes indexes] at found
    split at found
    · rename_i inside
      cases found
      exact ⟨indexes, inside, rfl⟩
    · cases found
  · rw [at?_of_not_indexes indexes] at found
    cases found

theorem within_of_at?
    {index : Int64}
    {part : View}
    (found : array.at? index = .ok part) :
    array.offset ≤ part.offset ∧
      part.offset + part.width ≤ array.offset + array.width := by
  obtain ⟨-, inside, rfl⟩ := at?_eq_ok found
  have step := element_within array.element.width inside
  simp only [View.width, width]
  omega

theorem apart_of_at?
    {first second : Int64}
    {one other : View}
    (different : first ≠ second)
    (oneFound : array.at? first = .ok one)
    (otherFound : array.at? second = .ok other) :
    Apart one.offset one.width other.offset other.width := by
  obtain ⟨firstIndexes, -, rfl⟩ := at?_eq_ok oneFound
  obtain ⟨secondIndexes, -, rfl⟩ := at?_eq_ok otherFound
  apply elements_apart
  intro same
  apply different
  rw [← Scalar.valueAt_ordinal firstIndexes,
    ← Scalar.valueAt_ordinal secondIndexes, same]

/-- The elements of a numbered index type are told apart by its values. -/
theorem indexed_of_numbered
    (numbered : array.index.Numbered) :
    array.Indexed where
  element := by
    intro index indexes
    obtain ⟨low, high⟩ := Scalar.indexes_iff.mp indexes
    have counted : array.length = array.index.cardinality :=
      Scalar.count_of_numbered numbered
    have inside : (index.toInt - array.index.lowest).toNat < array.length := by omega
    exact ⟨_, inside, Scalar.ordinalOf?_of_indexes indexes,
      Scalar.valueAt_ordinal indexes, (at?_of_indexes indexes).trans (if_pos inside)⟩
  refused := fun _ outside => at?_of_not_indexes outside
  numbers := by
    intro ordinal inside
    refine Scalar.exists_ordinalOf? numbered ?_
    rw [← Scalar.count_of_numbered numbered]
    exact inside
  within := fun _ _ found => within_of_at? found
  apart := fun _ _ _ _ different oneFound otherFound =>
    apart_of_at? different oneFound otherFound

/-- An array that is indexed by all integers of 64 bits has as many elements as
a machine word can count, so the last integer has none. -/
theorem at?_of_all
    {bounds : Bounds}
    (isRange : array.index = .range bounds)
    (all : Word.limit ≤ bounds.span + 1)
    (index : Int64) :
    array.index.Indexes index.toInt ∧
      (array.at? index = .error (.breach .elementMissing) ↔ index = Int64.maxValue) := by
  have greatest : Int64.maxValue.toInt = 2 ^ 63 - 1 := rfl
  have low := bounds.min.le_toInt
  have high := bounds.max.toInt_lt
  have span := bounds.toInt_span
  have indexLow := index.le_toInt
  have indexHigh := index.toInt_lt
  unfold Word.limit at all
  have indexes : array.index.Indexes index.toInt := by
    rw [isRange]
    simp only [Scalar.Indexes, Bounds.Holds]
    omega
  have length : array.length = 2 ^ 64 - 1 := by
    simp only [length, isRange, Scalar.count, Bounds.count, Word.saturate, Word.limit]
    omega
  have lowest : array.index.lowest = -2 ^ 63 := by
    rw [isRange]
    simp only [Scalar.lowest]
    omega
  have last : index = Int64.maxValue ↔ index.toInt = 2 ^ 63 - 1 := by
    rw [← Int64.toInt_inj, greatest]
  refine ⟨indexes, ?_⟩
  rw [at?_of_indexes indexes, last, length, lowest]
  split
  · simp only [reduceCtorEq, false_iff]
    omega
  · simp only [true_iff]
    omega

/-- The values of an index type tell the elements of an array apart exactly if
they are numbered. If they are all integers of 64 bits, then only the last one
is without an element. -/
theorem indexed_iff (array : ArrayView) :
    (array.Indexed ↔ array.index.Numbered) ∧
      ∀ bounds, array.index = .range bounds → ¬ array.index.Numbered →
        ∀ index, array.index.Indexes index.toInt ∧
          (array.at? index = .error (.breach .elementMissing) ↔
            index = Int64.maxValue) := by
  refine ⟨⟨fun indexed => ?_, indexed_of_numbered⟩, fun bounds isRange unnumbered => ?_⟩
  · cases leaf : array.index with
    | boolean => trivial
    | range bounds =>
        by_contra unnumbered
        obtain ⟨indexes, missing⟩ :=
          at?_of_all leaf (Nat.not_lt.mp unnumbered) Int64.maxValue
        obtain ⟨ordinal, -, -, -, found⟩ := indexed.element Int64.maxValue indexes
        rw [missing.mpr rfl] at found
        cases found
    | enumeration members =>
        -- No integer of 64 bits stands for a member beyond the limit.
        by_contra unnumbered
        have many : 2 ^ 63 < members.count := Nat.not_le.mp unnumbered
        have length : array.length = members.count := by rw [length, leaf, Scalar.count]
        obtain ⟨index, indexes, numbered⟩ := indexed.numbers (2 ^ 63) (by omega)
        have high := index.toInt_lt
        rw [Scalar.ordinalOf?_of_indexes indexes, leaf, Scalar.lowest, Option.some_inj]
          at numbered
        omega
  · rw [isRange] at unnumbered
    exact at?_of_all isRange (Nat.not_lt.mp unnumbered)

end ArrayView

namespace Axis

theorem integers_ordered : Int64.minValue ≤ Int64.maxValue := by
  decide

/-- All integers of 64 bits. -/
def integers : Bounds :=
  ⟨Int64.minValue, Int64.maxValue, integers_ordered⟩

theorem origin_ordered : (0 : Int64) ≤ 0 := by
  decide

/-- Nothing but zero, which takes no bits. -/
def origin : Bounds :=
  ⟨0, 0, origin_ordered⟩

/-- A point without extent for every integer of 64 bits. -/
def points : ArrayView :=
  ⟨0, .range integers, .scalar (.range origin)⟩

/-- The axis is accepted as an array and takes no bits, but the last integer
leads to no point. -/
theorem last_point_missing :
    Ty.Built (.array points.index points.element) ∧ points.width = 0 ∧
      points.index.Indexes Int64.maxValue.toInt ∧
      points.index.ordinalOf? Int64.maxValue = some points.length ∧
      points.at? Int64.maxValue = .error (.breach .elementMissing) := by
  have index : Ty.Built (.scalar points.index) :=
    .range (show Ty.range? Int64.minValue Int64.maxValue = _ from rfl)
  have element : Ty.Built points.element :=
    .range (show Ty.range? 0 0 = _ from rfl)
  have greatest : integers.Holds Int64.maxValue.toInt := by decide
  exact ⟨.array index element rfl, rfl, greatest, rfl, rfl⟩

end Axis

end StateSpace
