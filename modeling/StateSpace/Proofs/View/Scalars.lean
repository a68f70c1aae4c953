import StateSpace.Proofs.View.Parts

/-!
# Scalars as numbers

A scalar is stored as the ordinal of its value. Every field of a scalar's width
decodes to some value, and different fields decode to different values, but only
ordinals below the number of values decode to values of the type. A setter
stores exactly these.
-/

namespace StateSpace

variable {size : Nat}

/-! ## Fields of a window -/

namespace Block

theorem read_window
    (block : Block size)
    {offset width : Nat}
    (window : HasWindow size offset width)
    (narrow : width ≤ 64) :
    block.read offset width = .ok (block.extract offset width) := by
  rcases Nat.eq_zero_or_pos width with rfl | nonempty
  · rw [block.extract_empty]
    rfl
  · exact block.read_eq (window.fits nonempty.ne') narrow

theorem write_window
    (block : Block size)
    {offset width value : Nat}
    (window : HasWindow size offset width)
    (narrow : width ≤ 64)
    (small : value < 2 ^ width) :
    block.write offset width value = .ok (block.deposit offset width value) := by
  rcases Nat.eq_zero_or_pos width with rfl | nonempty
  · rw [block.deposit_empty, Nat.lt_one_iff.mp small]
    rfl
  · exact block.write_eq (window.fits nonempty.ne') narrow small

end Block

/-! ## Updates one after the other -/

namespace Update

variable {α β : Type}

theorem runOn_bind
    (update : Update size α)
    (next : α → Update size β)
    (block : Block size) :
    (update >>= next).runOn block =
      match update.runOn block with
      | (.ok result, changed) => (next result).runOn changed
      | (.error stop, changed) => (.error stop, changed) := by
  simp only [runOn, ExceptT.run_bind, StateT.run_bind]
  rcases update.run.run block with ⟨result | stop, changed⟩ <;> rfl

theorem runOn_write
    {block : Block size}
    {offset width value : Nat}
    (window : HasWindow size offset width)
    (narrow : width ≤ 64)
    (small : value < 2 ^ width) :
    (write offset width value).runOn block =
      (.ok (), block.deposit offset width value) := by
  have written := block.write_window window narrow small
  have looked : (get : Update size (Block size)).runOn block = (.ok block, block) := rfl
  rw [write, runOn_bind, looked]
  simp only [written]
  rfl

end Update

/-! ## Ordinals and values -/

namespace Scalar

/-- The exact number of values. -/
def cardinality : Scalar → Nat
  | boolean => 2
  | range bounds => bounds.span + 1
  | enumeration members => members.count

/-- The value that a stored number stands for, whether or not it is the ordinal
of one. -/
def decode : Scalar → Nat → Value
  | boolean, number => .boolean (number != 0)
  | range bounds, number => .range (bounds.decode number)
  | enumeration _, number => .enumeration number

/-- The ordinal of a value, or the fault of storing it. -/
def encode : Scalar → Value → Except Fault Nat
  | boolean, .boolean value => .ok value.toNat
  | range bounds, .range value =>
    if bounds.contains value then .ok (value.toInt - bounds.min.toInt).toNat
    else .error (.valueOutOfRange value.toInt)
  | enumeration members, .enumeration ordinal =>
    if ordinal < members.count then .ok ordinal else .error (.valueOutOfRange ordinal)
  | leaf, value => .error (.kindMismatch value.kind.name (Ty.scalar leaf).kind.name)

end Scalar

/-- The ordinals fit the scalar's bits. -/
theorem Scalar.cardinality_le (leaf : Scalar) : leaf.cardinality ≤ 2 ^ leaf.width := by
  cases leaf with
  | boolean => decide
  | range bounds =>
      simp only [cardinality, width, Bounds.width]
      split
      · omega
      · exact Nat.lt_log2_self
  | enumeration members =>
      simp only [cardinality, width, Members.width]
      split
      · omega
      · have large : members.count - 1 < 2 ^ ((members.count - 1).log2 + 1) :=
          Nat.lt_log2_self
        omega

/-- Every scalar type has a value. -/
theorem Scalar.cardinality_pos (leaf : Scalar) : 0 < leaf.cardinality := by
  cases leaf with
  | boolean => exact Nat.two_pos
  | range bounds => exact Nat.succ_pos _
  | enumeration members => exact members.nonempty

/-! ## Ranges -/

namespace Bounds

theorem contains_iff
    {bounds : Bounds}
    {value : Int64} :
    bounds.contains value = true ↔
      bounds.min.toInt ≤ value.toInt ∧ value.toInt ≤ bounds.max.toInt := by
  simp [contains, Int64.le_iff_toInt_le]

theorem toInt_span (bounds : Bounds) :
    (bounds.span : Int) = bounds.max.toInt - bounds.min.toInt := by
  have ordered := Int64.le_iff_toInt_le.mp bounds.min_le_max
  unfold span
  omega

/-- Distances lead on from the lower bound, and from the largest integer to the
smallest. -/
theorem toInt_decode
    (bounds : Bounds)
    {distance : Nat}
    (small : distance < Word.limit) :
    (bounds.decode distance).toInt =
      if bounds.min.toInt + distance < 2 ^ 63 then bounds.min.toInt + distance
      else bounds.min.toInt + distance - 2 ^ 64 := by
  have low := bounds.min.le_toInt
  have high := bounds.min.toInt_lt
  unfold Word.limit at small
  rw [decode, Int64.toInt_ofInt, Int.bmod_def]
  simp only [Int64.size]
  split <;> split <;> omega

/-- The integers of the interval are those at distances up to the span. -/
theorem contains_decode
    {bounds : Bounds}
    {distance : Nat}
    (small : distance < Word.limit) :
    bounds.contains (bounds.decode distance) = true ↔ distance ≤ bounds.span := by
  have span := bounds.toInt_span
  have low := bounds.min.le_toInt
  have high := bounds.max.toInt_lt
  unfold Word.limit at small
  rw [contains_iff, toInt_decode _ small]
  split <;> omega

/-- Different distances lead to different integers. -/
theorem decode_injective
    {bounds : Bounds}
    {first second : Nat}
    (firstSmall : first < Word.limit)
    (secondSmall : second < Word.limit)
    (same : bounds.decode first = bounds.decode second) :
    first = second := by
  have equal := congrArg Int64.toInt same
  have low := bounds.min.le_toInt
  unfold Word.limit at firstSmall secondSmall
  rw [toInt_decode _ firstSmall, toInt_decode _ secondSmall] at equal
  split at equal <;> split at equal <;> omega

/-- An integer of the interval lies at its distance from the lower bound. -/
theorem decode_distance
    {bounds : Bounds}
    {value : Int64}
    (contained : bounds.contains value = true) :
    bounds.decode (value.toInt - bounds.min.toInt).toNat = value := by
  obtain ⟨low, -⟩ := contains_iff.mp contained
  rw [decode, Int.toNat_of_nonneg (by omega), add_sub_cancel, Int64.ofInt_toInt]

end Bounds

/-! ## Storing and reading a scalar -/

namespace Scalar

variable {leaf : Scalar}

/-- A scalar's field holds numbers below the limit of words. -/
theorem lt_limit
    (narrow : leaf.width ≤ 64)
    {number : Nat}
    (small : number < 2 ^ leaf.width) :
    number < Word.limit :=
  small.trans_le (Nat.pow_le_pow_right (by decide) narrow)

/-- The ordinal of a value is the number below the number of values that stands
for it. -/
theorem encode_eq_ok
    (narrow : leaf.width ≤ 64)
    {value : Value}
    {ordinal : Nat} :
    leaf.encode value = .ok ordinal ↔
      ordinal < leaf.cardinality ∧ value = leaf.decode ordinal := by
  cases leaf with
  | boolean =>
      cases value with
      | boolean value => cases value <;> simp [encode, decode, cardinality] <;> omega
      | _ => simp [encode, decode]
  | range bounds =>
      cases value with
      | range value =>
          simp only [encode, decode, cardinality, Value.range.injEq]
          constructor
          · intro encoded
            split at encoded
            · rename_i contained
              obtain ⟨low, high⟩ := Bounds.contains_iff.mp contained
              have span := bounds.toInt_span
              cases encoded
              exact ⟨by omega, (Bounds.decode_distance contained).symm⟩
            · cases encoded
          · rintro ⟨small, rfl⟩
            have bounded : ordinal < Word.limit :=
              lt_limit narrow (small.trans_le (cardinality_le (.range bounds)))
            have contained :=
              (Bounds.contains_decode bounded).mpr (Nat.lt_succ_iff.mp small)
            have back := Bounds.decode_distance contained
            have nearby :
                ((bounds.decode ordinal).toInt - bounds.min.toInt).toNat ≤
                  bounds.span := by
              obtain ⟨low, high⟩ := Bounds.contains_iff.mp contained
              have span := bounds.toInt_span
              omega
            have reached := bounds.span_lt
            rw [if_pos contained,
              Bounds.decode_injective (nearby.trans_lt reached) bounded back]
      | _ => simp [encode, decode]
  | enumeration members =>
      cases value with
      | enumeration value =>
          simp only [encode, decode, cardinality, Value.enumeration.injEq]
          constructor
          · intro encoded
            split at encoded
            · cases encoded
              exact ⟨by assumption, rfl⟩
            · cases encoded
          · rintro ⟨small, rfl⟩
            exact if_pos small
      | _ => simp [encode, decode]

/-- Different fields of a scalar's width decode to different values. -/
theorem decode_injective
    (narrow : leaf.width ≤ 64)
    {first second : Nat}
    (firstSmall : first < 2 ^ leaf.width)
    (secondSmall : second < 2 ^ leaf.width)
    (same : leaf.decode first = leaf.decode second) :
    first = second := by
  cases leaf with
  | boolean =>
      simp only [decode, Value.boolean.injEq] at same
      simp only [width] at firstSmall secondSmall
      interval_cases first <;> interval_cases second <;> simp_all
  | range bounds =>
      simp only [decode, Value.range.injEq] at same
      exact Bounds.decode_injective (lt_limit narrow firstSmall)
        (lt_limit narrow secondSmall) same
  | enumeration members => simpa [decode] using same

end Scalar

section Storing

variable
  {leaf : Scalar}
  {offset : Nat}
  {block : Block size}

/-- A scalar is read as what its field stands for. -/
theorem View.get_scalar
    (window : HasWindow size offset leaf.width)
    (narrow : leaf.width ≤ 64) :
    View.get ⟨.scalar leaf, offset⟩ block =
      .ok (leaf.decode (block.extract offset leaf.width)) := by
  have read := block.read_window window narrow
  cases leaf with
  | boolean =>
      have bit : block.read offset 1 = _ := read
      simp only [View.get, Ty.load, BoolView.get, bit]
      rfl
  | range bounds =>
      have field : block.read offset bounds.width = _ := read
      simp only [View.get, Ty.load, RangeView.get, field]
      rfl
  | enumeration members =>
      have field : block.read offset members.width = _ := read
      simp only [View.get, Ty.load, EnumView.get, field]
      rfl

/-- A value of a scalar is stored as its ordinal, and any other value is refused
with a fault. -/
theorem View.set_scalar
    (window : HasWindow size offset leaf.width)
    (narrow : leaf.width ≤ 64)
    (value : Value) :
    (View.set ⟨.scalar leaf, offset⟩ value).runOn block =
      match leaf.encode value with
      | .ok ordinal => (.ok (), block.deposit offset leaf.width ordinal)
      | .error fault => (.error (.fault fault), block) := by
  have stored : ∀ ordinal, leaf.encode value = .ok ordinal →
      (Update.write offset leaf.width ordinal).runOn block =
        (.ok (), block.deposit offset leaf.width ordinal) := fun ordinal encoded =>
    Update.runOn_write window narrow
      (((Scalar.encode_eq_ok narrow).mp encoded).1.trans_le leaf.cardinality_le)
  cases leaf with
  | boolean =>
      cases value with
      | boolean value => exact stored value.toNat rfl
      | _ => rfl
  | range bounds =>
      cases value with
      | range value =>
          cases contained : bounds.contains value with
          | true =>
              have encoded : (Scalar.range bounds).encode (.range value) =
                  .ok (value.toInt - bounds.min.toInt).toNat := if_pos contained
              rw [encoded]
              refine Eq.trans ?_ (stored _ encoded)
              simp only [View.set, Ty.store, RangeView.set, Bounds.checkValue,
                Bounds.encode, contained]
              rfl
          | false =>
              simp only [View.set, Ty.store, RangeView.set, Bounds.checkValue,
                Scalar.encode, contained]
              rfl
      | _ => rfl
  | enumeration members =>
      cases value with
      | enumeration ordinal =>
          by_cases present : ordinal < members.count
          · have encoded : (Scalar.enumeration members).encode (.enumeration ordinal) =
                .ok ordinal := if_pos present
            rw [encoded]
            refine Eq.trans ?_ (stored _ encoded)
            simp only [View.set, Ty.store, EnumView.set]
            rw [if_neg (by omega)]
            rfl
          · have refused : (Scalar.enumeration members).encode (.enumeration ordinal) =
                .error (.valueOutOfRange ordinal) := if_neg present
            rw [refused]
            simp only [View.set, Ty.store, EnumView.set]
            rw [if_pos (by omega)]
            rfl
      | _ => rfl

end Storing
end StateSpace
