import StateSpace.Proofs.Layout.Built

/-!
# Leaves of a state can be read

A read of a field breaks no precondition if the field is narrow and lies
inside its block. The leaves of a built layout are such fields, so every
block with room for the layout can be shown leaf by leaf.
-/

namespace StateSpace

variable {size : Nat}

/-- A run of bits that a block of `size` bytes has, and whose end is a word. -/
structure Fits (size offset width : Nat) : Prop where
  inside : offset + width ≤ 8 * size
  word : offset + width < Word.limit

/-- A part of a run of bits that fits also fits. -/
theorem Fits.part
    {offset width start length : Nat}
    (fits : Fits size offset width)
    (within : start + length ≤ width) :
    Fits size (offset + start) length :=
  ⟨by have := fits.inside; omega, by have := fits.word; omega⟩

/-- The empty field holds zero. -/
theorem Block.extract_empty
    (block : Block size)
    (offset : Nat) :
    block.extract offset 0 = 0 :=
  Nat.lt_one_iff.mp (BitVec.isLt _)

/-- Nothing can be deposited in the empty field. -/
theorem Block.deposit_empty
    (block : Block size)
    (offset value : Nat) :
    block.deposit offset 0 value = block := by
  ext index present
  rw [bit_deposit _ _ _ _ _ present, if_neg (by omega)]

theorem Block.read_eq
    (block : Block size)
    {offset width : Nat}
    (fits : Fits size offset width)
    (narrow : width ≤ 64) :
    block.read offset width = .ok (block.extract offset width) := by
  have inside := fits.inside
  have word := fits.word
  unfold Block.read
  rw [if_neg (by omega)]
  split
  · rename_i empty
    subst empty
    rw [block.extract_empty]
  · rw [if_neg (by omega), if_neg (by omega)]

theorem Block.write_eq
    (block : Block size)
    {offset width value : Nat}
    (fits : Fits size offset width)
    (narrow : width ≤ 64)
    (small : value < 2 ^ width) :
    block.write offset width value =
      .ok (block.deposit offset width value) := by
  have inside := fits.inside
  have word := fits.word
  have nothingAbove : value >>> width = 0 := by
    rw [Nat.shiftRight_eq_div_pow]
    exact Nat.div_eq_of_lt small
  unfold Block.write
  rw [if_neg (by omega), if_neg (by simp [nothingAbove])]
  split
  · rename_i empty
    subst empty
    rw [block.deposit_empty]
  · rw [if_neg (by omega), if_neg (by omega)]

theorem Scalar.render_ok
    (block : Block size)
    {offset : Nat}
    {leaf : Scalar}
    (fits : Fits size offset leaf.width)
    (narrow : leaf.width ≤ 64) :
    ∃ text, leaf.render block offset = .ok text := by
  cases leaf with
  | boolean =>
      have read : block.read offset 1 = .ok _ := block.read_eq fits narrow
      simp only [Scalar.render, BoolView.get, read]
      exact ⟨_, rfl⟩
  | range bounds =>
      have read : block.read offset bounds.width = .ok _ := block.read_eq fits narrow
      simp only [Scalar.render, RangeView.get, read]
      exact ⟨_, rfl⟩
  | enumeration members =>
      have read : block.read offset members.width = .ok _ := block.read_eq fits narrow
      simp only [Scalar.render, EnumView.get, read]
      exact ⟨_, rfl⟩

/-- A sequence of attempts that all succeed has results. -/
theorem mapM_ok
    {ε α β : Type}
    {attempt : α → Except ε β}
    {items : List α}
    (each : ∀ item ∈ items, ∃ result, attempt item = .ok result) :
    ∃ results, items.mapM attempt = .ok results := by
  induction items with
  | nil => exact ⟨[], rfl⟩
  | cons item rest inductionHypothesis =>
      obtain ⟨result, found⟩ := each item (by simp)
      obtain ⟨results, others⟩ :=
        inductionHypothesis fun item member => each item (by simp [member])
      exact ⟨result :: results, by rw [List.mapM_cons, found, others]; rfl⟩

/-- An element lies inside the bits of its array. -/
theorem element_within
    {position count : Nat}
    (width : Nat)
    (inside : position < count) :
    position * width + width ≤ count * width :=
  calc
    position * width + width = (position + 1) * width := (Nat.succ_mul ..).symm
    _ ≤ count * width := Nat.mul_le_mul_right width inside

theorem Ty.fieldsLeaves_ok
    (block : Block size)
    {fields : List (String × Ty)}
    (each : ∀ field ∈ fields, ∀ offset path,
      Fits size offset field.2.width →
      ∃ found, field.2.leaves block offset path = .ok found)
    {offset : Nat}
    (fits : Fits size offset (Ty.fieldsWidth fields))
    (path : String) :
    ∃ found, Ty.fieldsLeaves block offset path fields = .ok found := by
  induction fields generalizing offset with
  | nil => exact ⟨[], rfl⟩
  | cons field rest inductionHypothesis =>
      obtain ⟨name, ty⟩ := field
      have firstFits : Fits size offset ty.width :=
        fits.part (show 0 + ty.width ≤ _ by simp [Ty.fieldsWidth])
      have restFits : Fits size (offset + ty.width) (Ty.fieldsWidth rest) :=
        fits.part (by simp [Ty.fieldsWidth])
      obtain ⟨first, firstFound⟩ :=
        each (name, ty) (by simp) offset (path ++ "." ++ name) firstFits
      obtain ⟨others, othersFound⟩ :=
        inductionHypothesis (fun field member => each field (by simp [member])) restFits
      refine ⟨first ++ others, ?_⟩
      simp only [Ty.fieldsLeaves, firstFound, othersFound]
      rfl

theorem Ty.Shaped.leaves_ok
    (block : Block size)
    {ty : Ty}
    (shaped : ty.Shaped)
    {offset : Nat}
    (fits : Fits size offset ty.width)
    (path : String) :
    ∃ found, ty.leaves block offset path = .ok found := by
  induction shaped generalizing offset path with
  | @scalar leaf narrow =>
      obtain ⟨text, rendered⟩ := leaf.render_ok block fits narrow
      refine ⟨[(path, text)], ?_⟩
      simp only [Ty.leaves, rendered]
      rfl
  | @array index element elementShaped bounded inductionHypothesis =>
      have each : ∀ position ∈ List.range index.count, ∃ found,
          element.leaves block (offset + position * element.width)
            (path ++ "[" ++ index.label position ++ "]") = .ok found := by
        intro position member
        have present := List.mem_range.mp member
        apply inductionHypothesis
        exact fits.part (element_within _ present)
      obtain ⟨parts, found⟩ := mapM_ok each
      refine ⟨parts.flatten, ?_⟩
      simp only [Ty.leaves, eachBelow_eq_mapM, found]
      rfl
  | @record fields fieldsShaped bounded inductionHypothesis =>
      obtain ⟨found, read⟩ := Ty.fieldsLeaves_ok block
        (fun field member offset path fieldFits =>
          inductionHypothesis field member fieldFits path) fits path
      exact ⟨found, by simpa only [Ty.leaves] using read⟩

/-- Every variable of a built layout fits the state's bytes. -/
theorem Layout.Placed.fits
    {layout : Layout}
    (placed : layout.Placed)
    {declared : Variable}
    (member : declared ∈ layout.entries.toList) :
    Fits layout.bytes declared.offset declared.ty.width := by
  obtain ⟨-, high⟩ := placed.tiled.mem member
  have room := layout.bits_le_bytes
  have bounded := placed.bounded
  exact ⟨by omega, by omega⟩

/-- The leaves of a state of a built layout can be read. -/
theorem Layout.Built.leaves_ok
    {layout : Layout}
    (built : layout.Built)
    (block : Block layout.bytes) :
    ∃ found, layout.leaves block = .ok found := by
  have placed := built.placed
  have each : ∀ declared ∈ layout.entries.toList, ∃ found,
      declared.view.leaves block declared.name = .ok found := by
    intro declared member
    exact (placed.shaped declared member).leaves_ok block (placed.fits member)
      declared.name
  obtain ⟨parts, found⟩ := mapM_ok each
  exact ⟨parts.flatten, by simp only [Layout.leaves, found]; rfl⟩

/-- A state of a built layout can be shown. -/
theorem Layout.Built.stateLines_ok
    {layout : Layout}
    (built : layout.Built)
    (block : Block layout.bytes) :
    ∃ lines, layout.stateLines block = .ok lines := by
  obtain ⟨found, read⟩ := built.leaves_ok block
  exact ⟨found.map Leaf.line, by simp only [Layout.stateLines, read]; rfl⟩

end StateSpace
