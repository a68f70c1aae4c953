import StateSpace.Proofs.Layout.Places

/-!
# Blocks bit by bit

A block is determined by its bits, and so by the fields and the bytes that it
holds. A copy of a run of bits, which goes in steps of at most a word, is seen
here as what it does to every single bit.
-/

namespace StateSpace

variable {size : Nat}

namespace Block

/-- The block of the given bits. -/
def ofBits
    (size : Nat)
    (bits : Nat → Bool) : Block size :=
  ⟨BitVec.ofFnLE fun index : Fin (8 * size) => bits index⟩

theorem bit_ofBits
    {index : Nat}
    (bits : Nat → Bool)
    (inside : index < 8 * size) :
    (ofBits size bits).bit index = bits index := by
  simp [ofBits, bit, inside]

/-- There are no bits beyond the end of a block. -/
theorem bit_eq_false
    (block : Block size)
    {index : Nat}
    (beyond : 8 * size ≤ index) :
    block.bit index = false :=
  BitVec.getLsbD_of_ge _ _ beyond

/-- A bit of a field is a bit of the number that the field holds. -/
theorem bit_eq_testBit
    (block : Block size)
    {offset width index : Nat}
    (covers : Covers offset width index) :
    block.bit index = (block.extract offset width).testBit (index - offset) := by
  obtain ⟨low, high⟩ := covers
  rw [testBit_extract, Nat.add_sub_cancel' low, decide_eq_true (by omega), Bool.true_and]

theorem extract_lt
    (block : Block size)
    (offset width : Nat) :
    block.extract offset width < 2 ^ width :=
  BitVec.isLt _

/-- A field holds a number if its bits are those of the number. -/
theorem extract_eq
    {block : Block size}
    {offset width value : Nat}
    (small : value < 2 ^ width)
    (bits : ∀ index < width, block.bit (offset + index) = value.testBit index) :
    block.extract offset width = value := by
  apply Nat.eq_of_testBit_eq
  intro index
  rw [testBit_extract]
  by_cases inside : index < width
  · rw [decide_eq_true inside, Bool.true_and, bits index inside]
  · rw [decide_eq_false inside, Bool.false_and]
    have above : value < 2 ^ index :=
      Nat.lt_of_lt_of_le small (Nat.pow_le_pow_right (by decide) (by omega))
    rw [Nat.testBit_lt_two_pow above]

/-- Fields of blocks hold the same number if their bits agree. -/
theorem extract_congr
    {otherSize : Nat}
    {first : Block size}
    {second : Block otherSize}
    {firstOffset secondOffset width : Nat}
    (bits : ∀ index < width,
      first.bit (firstOffset + index) = second.bit (secondOffset + index)) :
    first.extract firstOffset width = second.extract secondOffset width := by
  apply extract_eq (extract_lt _ _ _)
  intro index inside
  rw [bits index inside, testBit_extract, decide_eq_true inside, Bool.true_and]

/-- A deposit leaves the bits outside its field. -/
theorem bit_deposit_outside
    (block : Block size)
    {offset width index : Nat}
    (value : Nat)
    (outside : ¬ Covers offset width index) :
    (block.deposit offset width value).bit index = block.bit index := by
  by_cases present : index < 8 * size
  · rw [bit_deposit _ _ _ _ _ present]
    exact if_neg outside
  · rw [bit_eq_false _ (by omega), bit_eq_false _ (by omega)]

/-- A field holds what was deposited in it. -/
theorem extract_deposit
    (block : Block size)
    {offset width value : Nat}
    (present : ∀ index, Covers offset width index → index < 8 * size)
    (small : value < 2 ^ width) :
    (block.deposit offset width value).extract offset width = value := by
  refine extract_eq small fun index inside => ?_
  have reached : offset + index < 8 * size :=
    present _ ⟨Nat.le_add_right .., Nat.add_lt_add_left inside _⟩
  rw [bit_deposit _ _ _ _ _ reached, if_pos (by omega), Nat.add_sub_cancel_left]

/-- Bit `offset` of a byte is one of the bits of the block. -/
theorem testBit_byte
    (block : Block size)
    (index : Nat)
    {offset : Nat}
    (inside : offset < 8) :
    (block.byte index).toNat.testBit offset = block.bit (8 * index + offset) := by
  have field : (block.byte index).toNat = block.extract (8 * index) 8 := rfl
  rw [field, testBit_extract, decide_eq_true inside, Bool.true_and]

/-- Blocks with the same bytes are the same. -/
theorem toBytes_injective :
    Function.Injective (toBytes : Block size → List UInt8) := by
  intro left right same
  ext index inside
  have byteInside : index / 8 < size := by omega
  have sameByte : left.byte (index / 8) = right.byte (index / 8) :=
    List.map_inj_left.mp same _ (List.mem_range.mpr byteInside)
  have leftBit := left.testBit_byte (index / 8) (Nat.mod_lt index (by decide))
  have rightBit := right.testBit_byte (index / 8) (Nat.mod_lt index (by decide))
  rw [Nat.div_add_mod] at leftBit rightBit
  rw [← leftBit, ← rightBit, sameByte]

/-! ## Patchworks -/

section Patchwork

variable {Patch : Type}

/-- A block in which the runs of bits of some patches are replaced. -/
def patchwork
    (patches : List Patch)
    (run : Patch → Nat × Nat)
    (bits : Patch → Nat → Bool)
    (source : Block size) : Block size :=
  ofBits size fun index =>
    match patches.find? fun patch => Covers (run patch).1 (run patch).2 index with
    | some patch => bits patch index
    | none => source.bit index

variable
  {patches : List Patch}
  {run : Patch → Nat × Nat}
  {bits : Patch → Nat → Bool}
  {source : Block size}
  {index : Nat}

/-- A bit of a patch is what the patch says, as no other patch has it. -/
theorem bit_patchwork
    (apart : ∀ first ∈ patches, ∀ second ∈ patches,
      first = second ∨
      ShareNoBit (run first).1 (run first).2 (run second).1 (run second).2)
    {patch : Patch}
    (present : patch ∈ patches)
    (covers : Covers (run patch).1 (run patch).2 index)
    (inside : index < 8 * size) :
    (patchwork patches run bits source).bit index = bits patch index := by
  rw [patchwork, bit_ofBits _ inside]
  split
  · rename_i other found
    have otherCovers := List.find?_some found
    rcases apart patch present other (List.mem_of_find?_eq_some found) with rfl | none
    · rfl
    · exact absurd (of_decide_eq_true otherCovers) (none index covers)
  · rename_i missing
    exact absurd (decide_eq_true covers) (List.find?_eq_none.mp missing patch present)

/-- A bit of no patch stays. -/
theorem bit_patchwork_of_free
    (free : ∀ patch ∈ patches, ¬ Covers (run patch).1 (run patch).2 index) :
    (patchwork patches run bits source).bit index = source.bit index := by
  rcases Nat.lt_or_ge index (8 * size) with inside | beyond
  · rw [patchwork, bit_ofBits _ inside]
    split
    · rename_i patch found
      have covers := List.find?_some found
      exact absurd (of_decide_eq_true covers)
        (free patch (List.mem_of_find?_eq_some found))
    · rfl
  · rw [bit_eq_false _ beyond, bit_eq_false _ beyond]

end Patchwork

/-! ## Copies -/

/-- A block that has taken over a run of bits from another one. -/
def Copied
    {sourceSize : Nat}
    (source : Block sourceSize)
    (sourceOffset : Nat)
    (target : Block size)
    (targetOffset width : Nat)
    (copied : Block size) : Prop :=
  (∀ index < width, copied.bit (targetOffset + index) =
    source.bit (sourceOffset + index)) ∧
    ∀ index, ¬ Covers targetOffset width index → copied.bit index = target.bit index

/-- A copy of at most a word is a field that is read and written. -/
theorem copied_deposit
    {sourceSize : Nat}
    (source : Block sourceSize)
    (sourceOffset : Nat)
    (target : Block size)
    {targetOffset width : Nat}
    (fits : Fits size targetOffset width) :
    Copied source sourceOffset target targetOffset width
      (target.deposit targetOffset width (source.extract sourceOffset width)) := by
  constructor
  · intro index inside
    have room := fits.inside
    rw [bit_deposit _ _ _ _ _ (by omega), if_pos (by omega), Nat.add_sub_cancel_left,
      testBit_extract, decide_eq_true inside, Bool.true_and]
  · intro index outside
    exact target.bit_deposit_outside _ outside

/-- Two copies of runs that follow one another are one copy. -/
theorem Copied.trans
    {sourceSize : Nat}
    {source : Block sourceSize}
    {target middle copied : Block size}
    {sourceOffset targetOffset length width : Nat}
    (first : Copied source sourceOffset target targetOffset length middle)
    (rest : Copied source (sourceOffset + length) middle (targetOffset + length)
      width copied) :
    Copied source sourceOffset target targetOffset (length + width) copied := by
  obtain ⟨firstInside, firstOutside⟩ := first
  obtain ⟨restInside, restOutside⟩ := rest
  constructor
  · intro index inside
    rcases Nat.lt_or_ge index length with early | late
    · rw [restOutside _ (by unfold Covers; omega), firstInside index early]
    · have moved := restInside (index - length) (by omega)
      rw [Nat.add_assoc, Nat.add_assoc, Nat.add_sub_cancel' late] at moved
      exact moved
  · intro index outside
    unfold Covers at outside
    rw [restOutside _ (by unfold Covers; omega),
      firstOutside _ (by unfold Covers; omega)]

/-- A copy between runs of bits that fit their blocks succeeds. -/
theorem copyBits_ok
    {sourceSize : Nat}
    (source : Block sourceSize)
    (target : Block size)
    {sourceOffset targetOffset width : Nat}
    (sourceFits : Fits sourceSize sourceOffset width)
    (targetFits : Fits size targetOffset width) :
    ∃ copied, copyBits source sourceOffset target targetOffset width = .ok copied ∧
      Copied source sourceOffset target targetOffset width copied := by
  induction width
    using Nat.strong_induction_on generalizing target sourceOffset targetOffset with
  | h width inductionHypothesis =>
      unfold copyBits
      by_cases empty : width = 0
      · refine ⟨target, if_pos empty, ?_, fun _ _ => rfl⟩
        intro index inside
        omega
      · have length : min 64 width ≤ width := Nat.min_le_right 64 width
        have narrow : min 64 width ≤ 64 := Nat.min_le_left 64 width
        have positive : 0 < min 64 width := by omega
        have firstSource : Fits sourceSize sourceOffset (min 64 width) :=
          sourceFits.part (show 0 + min 64 width ≤ width by omega)
        have firstTarget : Fits size targetOffset (min 64 width) :=
          targetFits.part (show 0 + min 64 width ≤ width by omega)
        have split : min 64 width + (width - min 64 width) = width :=
          Nat.add_sub_cancel' length
        obtain ⟨copied, done, rest⟩ :=
          inductionHypothesis (width - min 64 width) (by omega)
          (target.deposit targetOffset (min 64 width)
            (source.extract sourceOffset (min 64 width)))
          (sourceFits.part (Nat.le_of_eq split))
          (targetFits.part (Nat.le_of_eq split))
        refine ⟨copied, ?_, ?_⟩
        · rw [if_neg empty]
          apply bind_eq_ok.mpr
          refine ⟨_, source.read_eq firstSource narrow, ?_⟩
          apply bind_eq_ok.mpr
          exact ⟨_, target.write_eq firstTarget narrow (source.extract_lt _ _), done⟩
        · have whole :=
            (copied_deposit source sourceOffset target firstTarget).trans rest
          rwa [split] at whole

end Block
end StateSpace
