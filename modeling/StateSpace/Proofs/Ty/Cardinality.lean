import StateSpace.Proofs.View.Indexing

/-!
# How many values a type has

A type stands for a set of values: truth values, integers within bounds, names of
members, functions from the index values of an array, and tuples of fields. The
count of a type is the size of that set as the nearest word. A count that has
left the words stays at the greatest of them under every further factor, so it
makes no difference at which products it is cut off. A range or an enumeration
takes the fewest bits that tell its values apart.
-/

namespace StateSpace

/-! ## Saturating products -/

namespace Word

theorem saturate_of_lt
    {value : Nat}
    (small : value < limit) :
    saturate value = value := by
  unfold saturate
  omega

theorem saturate_eq_greatest
    {value : Nat} :
    saturate value = limit - 1 ↔ limit - 1 ≤ value := by
  unfold saturate
  omega

/-- A factor that has been cut off leads to the same word as the exact one. -/
theorem saturate_saturate_mul (left right : Nat) :
    saturate (saturate left * right) = saturate (left * right) := by
  rcases Nat.eq_zero_or_pos right with rfl | positive
  · rfl
  rcases Nat.lt_or_ge left limit with small | large
  · rw [saturate_of_lt small]
  · have cut : saturate left = limit - 1 := saturate_eq_greatest.mpr (by omega)
    have cutReaches : limit - 1 ≤ saturate left * right :=
      cut ▸ Nat.le_mul_of_pos_right _ positive
    have reaches : limit - 1 ≤ left * right :=
      Nat.le_trans (by omega) (Nat.le_mul_of_pos_right left positive)
    rw [saturate_eq_greatest.mpr cutReaches, saturate_eq_greatest.mpr reaches]

theorem saturate_mul_saturate (left right : Nat) :
    saturate (left * saturate right) = saturate (left * right) := by
  rw [Nat.mul_comm, saturate_saturate_mul, Nat.mul_comm]

/-- A base that has been cut off leads to the same word as the exact one. -/
theorem saturate_saturate_pow (base exponent : Nat) :
    saturate (saturate base ^ exponent) = saturate (base ^ exponent) := by
  induction exponent with
  | zero => rfl
  | succ exponent inductionHypothesis =>
      rw [Nat.pow_succ, ← saturate_saturate_mul, inductionHypothesis,
        saturate_saturate_mul, saturate_mul_saturate, Nat.pow_succ]

/-- Powers with exponents from 64 on are zero, one or beyond the words. -/
theorem saturate_pow_of_le
    (base : Nat)
    {exponent : Nat}
    (large : 64 ≤ exponent) :
    saturate (base ^ 64) = saturate (base ^ exponent) := by
  obtain rfl | rfl | several : base = 0 ∨ base = 1 ∨ 2 ≤ base := by omega
  · rw [Nat.zero_pow (by decide), Nat.zero_pow (by omega)]
  · rw [Nat.one_pow, Nat.one_pow]
  · have reaches : limit ≤ base ^ 64 := limit_eq ▸ Nat.pow_le_pow_left several 64
    have grows : base ^ 64 ≤ base ^ exponent := Nat.pow_le_pow_right (by omega) large
    rw [saturate_eq_greatest.mpr (by omega), saturate_eq_greatest.mpr (by omega)]

/-- A saturating power is the nearest word to the exact power. -/
theorem saturatingPow_eq (base exponent : Nat) :
    saturatingPow base exponent = saturate (base ^ exponent) := by
  rw [saturatingPow]
  rcases Nat.le_total exponent 64 with small | large
  · rw [Nat.min_eq_left small]
    rfl
  · rw [Nat.min_eq_right large]
    exact saturate_pow_of_le base large

/-- An exponent that has been cut off leads to the same word as the exact one. -/
theorem saturatingPow_saturate (base exponent : Nat) :
    saturatingPow base (saturate exponent) = saturate (base ^ exponent) := by
  have same : min (saturate exponent) 64 = min exponent 64 := by
    unfold saturate limit
    omega
  rw [← saturatingPow_eq, saturatingPow, same, saturatingPow]

/-- Multiply a number of times by the same factor. The rounds end early when
the product is the greatest word. -/
def multiplied (factor product : Nat) : Nat → Nat
  | 0 => product
  | rounds + 1 =>
    if saturate (product * factor) = limit - 1 then limit - 1
    else multiplied factor (saturate (product * factor)) rounds

/-- Leaving the rounds early makes no difference. -/
theorem multiplied_eq
    (factor rounds : Nat)
    {product : Nat}
    (small : product < limit) :
    multiplied factor product rounds = saturate (product * factor ^ rounds) := by
  induction rounds generalizing product with
  | zero => rw [multiplied, Nat.pow_zero, Nat.mul_one, saturate_of_lt small]
  | succ rounds inductionHypothesis =>
      have regroup : product * factor ^ (rounds + 1) =
          product * factor * factor ^ rounds := by
        rw [Nat.pow_succ', Nat.mul_assoc]
      rw [multiplied, regroup]
      split
      · rename_i reached
        have large := saturate_eq_greatest.mp reached
        have positive : 0 < factor := by
          refine Nat.pos_of_ne_zero fun zero => ?_
          rw [zero, Nat.mul_zero] at large
          exact absurd large (by decide)
        exact (saturate_eq_greatest.mpr (large.trans
          (Nat.le_mul_of_pos_right _ (Nat.pow_pos positive)))).symm
      · rw [inductionHypothesis (saturate_lt _), saturate_saturate_mul]

end Word

/-! ## What types stand for -/

/-- The values of a scalar type. -/
def Scalar.Values : Scalar → Type
  | boolean => Bool
  | range bounds => {value : Int // bounds.min.toInt ≤ value ∧ value ≤ bounds.max.toInt}
  | enumeration members => {name : String // name ∈ members.names}

mutual

/-- The values of a type. -/
def Ty.Values : Ty → Type
  | .scalar leaf => leaf.Values
  | .array index element => index.Values → Ty.Values element
  | .record fields => Ty.FieldsValues fields

/-- The ways to give every field a value. -/
def Ty.FieldsValues : List (String × Ty) → Type
  | [] => Unit
  | (_, ty) :: rest => Ty.Values ty × Ty.FieldsValues rest

end

mutual

/-- The exact number of values. -/
def Ty.cardinality : Ty → Nat
  | .scalar leaf => leaf.cardinality
  | .array index element => Ty.cardinality element ^ index.cardinality
  | .record fields => Ty.fieldsCardinality fields

/-- The exact number of ways to give every field a value. -/
def Ty.fieldsCardinality : List (String × Ty) → Nat
  | [] => 1
  | (_, ty) :: rest => Ty.cardinality ty * Ty.fieldsCardinality rest

end

theorem Scalar.card_values (leaf : Scalar) :
    Nat.card leaf.Values = leaf.cardinality := by
  cases leaf with
  | boolean => exact (Nat.card_eq_fintype_card (α := Bool)).trans Fintype.card_bool
  | range bounds =>
      have counted := Nat.subtype_card (Finset.Icc bounds.min.toInt bounds.max.toInt)
        fun value => Finset.mem_Icc
      have span := bounds.toInt_span
      rw [Int.card_Icc] at counted
      refine counted.trans ?_
      simp only [cardinality]
      omega
  | enumeration members =>
      have counted :=
        Nat.subtype_card (p := (· ∈ members.names)) members.names.toList.toFinset
        fun name => by simp
      rw [List.toFinset_card_of_nodup members.distinct] at counted
      exact counted

instance (leaf : Scalar) : Finite leaf.Values :=
  Nat.finite_of_card_ne_zero (leaf.card_values ▸ leaf.cardinality_pos.ne')

mutual

/-- A type has as many values as its cardinality says. -/
theorem Ty.card_values : (ty : Ty) → Nat.card ty.Values = ty.cardinality
  | .scalar leaf => leaf.card_values
  | .array index element => by
      rw [Ty.Values, Nat.card_fun, Ty.card_values element, index.card_values,
        Ty.cardinality]
  | .record fields => Ty.card_fieldsValues fields

theorem Ty.card_fieldsValues :
    (fields : List (String × Ty)) →
      Nat.card (Ty.FieldsValues fields) = Ty.fieldsCardinality fields
  | [] => Nat.card_unique (α := Unit)
  | (name, ty) :: rest => by
      rw [Ty.FieldsValues, Nat.card_prod, Ty.card_values ty,
        Ty.card_fieldsValues rest, Ty.fieldsCardinality]

end

/-! ## Counts -/

theorem Ty.fieldsCount_lt (fields : List (String × Ty)) :
    Ty.fieldsCount fields < Word.limit := by
  cases fields with
  | nil => exact (by decide : 1 < Word.limit)
  | cons field rest => exact Word.saturate_lt _

mutual

/-- The number of values, counted by one factor after the other. -/
def Ty.tally : Ty → Nat
  | .scalar leaf => leaf.count
  | .array index element => Word.multiplied (Ty.tally element) 1 index.count
  | .record fields => Ty.fieldsTally 1 fields

/-- A product that is multiplied by the tally of each field in turn. -/
def Ty.fieldsTally (product : Nat) : List (String × Ty) → Nat
  | [] => product
  | (_, ty) :: rest => Ty.fieldsTally (Word.saturate (product * Ty.tally ty)) rest

end

mutual

/-- The count does not depend on the order in which the factors are taken, nor
on where the products are cut off. -/
theorem Ty.tally_eq : (ty : Ty) → ty.tally = ty.count
  | .scalar _ => rfl
  | .array index element => by
      rw [Ty.tally, Ty.tally_eq element, Word.multiplied_eq _ _ (by decide), Nat.one_mul,
        Ty.count, Word.saturatingPow_eq]
  | .record fields => by
      rw [Ty.tally, Ty.fieldsTally_eq fields (by decide), Nat.one_mul, Ty.count,
        Word.saturate_of_lt (Ty.fieldsCount_lt fields)]

theorem Ty.fieldsTally_eq :
    (fields : List (String × Ty)) → {product : Nat} → product < Word.limit →
      Ty.fieldsTally product fields = Word.saturate (product * Ty.fieldsCount fields)
  | [], product, small => by
      rw [Ty.fieldsTally, Ty.fieldsCount, Nat.mul_one, Word.saturate_of_lt small]
  | (name, ty) :: rest, product, _ => by
      rw [Ty.fieldsTally, Ty.fieldsTally_eq rest (Word.saturate_lt _), Ty.tally_eq ty,
        Word.saturate_saturate_mul, Ty.fieldsCount, Word.saturate_mul_saturate,
        Nat.mul_assoc]

end

theorem Ty.fieldsCount_eq
    {fields : List (String × Ty)}
    (each : ∀ field ∈ fields, field.2.count = Word.saturate field.2.cardinality) :
    Ty.fieldsCount fields = Word.saturate (Ty.fieldsCardinality fields) := by
  induction fields with
  | nil => rfl
  | cons field rest inductionHypothesis =>
      obtain ⟨name, ty⟩ := field
      have first : ty.count = Word.saturate ty.cardinality := each (name, ty) (by simp)
      have others :=
        inductionHypothesis fun field member => each field (by simp [member])
      rw [Ty.fieldsCount, Ty.fieldsCardinality, first, others,
        Word.saturate_saturate_mul, Word.saturate_mul_saturate]

/-- The count of a built type is its cardinality as the nearest word. -/
theorem Ty.Built.count_eq
    {ty : Ty}
    (built : ty.Built) :
    ty.count = Word.saturate ty.cardinality := by
  induction built with
  | boolean => rfl
  | range accepted =>
      obtain ⟨bounds, rfl⟩ := Ty.range?_eq_ok accepted
      rfl
  | enumeration countable accepted =>
      obtain ⟨members, length, rfl⟩ := Ty.enumeration?_eq_ok accepted
      have word : members.count < Word.limit := length ▸ countable
      exact (Word.saturate_of_lt word).symm
  | @array index element ty _ _ accepted indexCount elementCount =>
      obtain ⟨leaf, rfl, rfl, -⟩ := Ty.array?_eq_ok accepted
      have positions : leaf.count = Word.saturate leaf.cardinality := indexCount
      rw [Ty.count, Ty.cardinality, positions, elementCount, Word.saturatingPow_saturate,
        Word.saturate_saturate_pow]
  | record _ accepted each =>
      obtain ⟨rfl, -⟩ := Ty.record?_eq_ok accepted
      exact Ty.fieldsCount_eq each

/-! ## Widths -/

/-- A number of bits suffices for a scalar exactly if it can tell the values
apart. -/
theorem Scalar.width_le_iff
    {leaf : Scalar}
    {bits : Nat} :
    leaf.width ≤ bits ↔ leaf.cardinality ≤ 2 ^ bits := by
  refine ⟨fun wide =>
    leaf.cardinality_le.trans (Nat.pow_le_pow_right (by decide) wide), ?_⟩
  intro enough
  cases leaf with
  | boolean =>
      have several : 1 < 2 ^ bits := enough
      exact Nat.pos_of_ne_zero fun zero => absurd several (by rw [zero]; decide)
  | range bounds =>
      simp only [cardinality] at enough
      simp only [width, Bounds.width]
      split
      · exact Nat.zero_le bits
      · rename_i several
        exact log2_add_one_le (by omega) several
  | enumeration members =>
      have nonempty : 0 < members.count := members.nonempty
      simp only [cardinality] at enough
      simp only [width, Members.width]
      split
      · exact Nat.zero_le bits
      · exact log2_add_one_le (by omega) (by omega)

/-- The values of a built type are as many as its cardinality says, and its count
is that number as the nearest word, whether it is computed at once or by one
factor after the other. A scalar takes the fewest bits that tell its values
apart. -/
theorem Ty.count_exact
    {ty : Ty}
    (built : ty.Built) :
    Nat.card ty.Values = ty.cardinality ∧
    ty.count = min (2 ^ 64 - 1) ty.cardinality ∧
    ty.tally = ty.count ∧
    (ty.isScalar = true → IsLeast {bits | ty.cardinality ≤ 2 ^ bits} ty.width) := by
  refine ⟨ty.card_values, built.count_eq.trans (Nat.min_comm _ _), ty.tally_eq,
    fun scalar => ?_⟩
  cases ty with
  | scalar leaf =>
    exact ⟨leaf.cardinality_le, fun bits enough => Scalar.width_le_iff.mpr enough⟩
  | array index element => cases scalar
  | record fields => cases scalar

namespace Axis

theorem lamps_ordered : (1 : Int64) ≤ 70 := by
  decide

/-- The numbers of seventy lamps. -/
def lampNumbers : Bounds :=
  ⟨1, 70, lamps_ordered⟩

/-- Seventy lamps, and a point without extent for every integer of 64 bits. -/
def streetFields : List (String × Ty) :=
  [("lamps", .array (.range lampNumbers) .boolean),
    ("points", .array (.range integers) (.scalar (.range origin)))]

theorem street_built : Ty.Built (.record streetFields) := by
  have number : Ty.Built (.scalar (.range lampNumbers)) :=
    .range (show Ty.range? 1 70 = _ from rfl)
  have place : Ty.Built (.scalar (.range integers)) :=
    .range (show Ty.range? Int64.minValue Int64.maxValue = _ from rfl)
  have point : Ty.Built (.scalar (.range origin)) :=
    .range (show Ty.range? 0 0 = _ from rfl)
  have accepted : Ty.record? streetFields = .ok (.record streetFields) := by
    simp [Ty.record?, Ty.fieldDefect?, streetFields]
    rfl
  refine .record ?_ accepted
  simp only [streetFields, List.mem_cons, List.not_mem_nil, or_false,
    forall_eq_or_imp, forall_eq]
  exact ⟨.array number .boolean rfl, .array place point rfl⟩

theorem street_cardinality : (Ty.record streetFields).cardinality = 2 ^ 70 := by
  have lamps : (Ty.array (.range lampNumbers) .boolean).cardinality = 2 ^ 70 := rfl
  -- The index stays a variable here, as the power is not to be computed.
  have points (index : Scalar) :
      (Ty.array index (.scalar (.range origin))).cardinality = 1 :=
    Nat.one_pow _
  rw [streetFields, Ty.cardinality, Ty.fieldsCardinality, Ty.fieldsCardinality,
    Ty.fieldsCardinality, lamps, points, Nat.mul_one]

/-- The lamps have more states than a word can count, and the points leave their
number as it is. -/
theorem count_exact_street :
    Nat.card (Ty.record streetFields).Values = 2 ^ 70 ∧
      (Ty.record streetFields).count = 2 ^ 64 - 1 ∧
      (Ty.record streetFields).tally = 2 ^ 64 - 1 := by
  obtain ⟨values, count, tally, -⟩ := Ty.count_exact street_built
  rw [street_cardinality] at values count
  have most : min (2 ^ 64 - 1) (2 ^ 70) = 2 ^ 64 - 1 := by decide
  rw [most] at count
  exact ⟨values, count, tally.trans count⟩

end Axis

end StateSpace
