import StateSpace.Proofs.Bits.Bytes

/-!
# Fields through a register

A field of at most 64 bits touches no more than nine bytes. With these bytes in
a register of sixteen the field is cut out by one shift and one mask, and it is
replaced by clearing its bits and setting those of the value. What a block reads
and writes is what is read and written through the register, for a block of any
number of bytes: the binary number of the field's bits, and no bit of another
field.
-/

namespace StateSpace

variable {size : Nat}

namespace Bytes

/-- The number of bytes that the first `bits` bits touch. -/
def touched (bits : Nat) : Nat :=
  (bits + 7) / 8

/-- A register with the bytes from byte `first` up to byte `last` at its low end. -/
def load
    (bytes : List UInt8)
    (first last : Nat) : Block 16 :=
  .ofBytes 16 (bytes.extract first last)

/-- The bytes with those from byte `first` up to byte `last` taken from the low
end of a register. -/
def store
    (bytes : List UInt8)
    (first last : Nat)
    (register : Block 16) : List UInt8 :=
  bytes.take first ++ register.toBytes.take (last - first) ++ bytes.drop last

/-- The register of which the `width` low bits are set. -/
def mask (width : Nat) : BitVec 128 :=
  (1#128 <<< width) - 1#128

/-- A register with the `width` bits from `shift` on cleared, and those of the
value set in their place. -/
def blend
    (register : Block 16)
    (shift width value : Nat) : Block 16 :=
  let field := mask width <<< shift
  ⟨(register.bits &&& ~~~field) ||| (BitVec.ofNat 128 value <<< shift &&& field)⟩

/-- The word held by the `width` bits from `offset` on. -/
def extract
    (bytes : List UInt8)
    (offset width : Nat) : Nat :=
  let register := load bytes (offset / 8) (touched (offset + width))
  ((register.bits >>> (offset % 8) &&& mask width).setWidth 64).toNat

/-- The bytes with the `width` bits from `offset` on replaced by those of a word. -/
def deposit
    (bytes : List UInt8)
    (offset width value : Nat) : List UInt8 :=
  let first := offset / 8
  let last := touched (offset + width)
  store bytes first last (blend (load bytes first last) (offset % 8) width value)

/-- The bytes that a field of at most a word touches are present and fit the
register, wherever the field lies. -/
theorem touched_within
    {offset width length : Nat}
    (inside : offset + width ≤ 8 * length)
    (narrow : width ≤ 64) :
    offset / 8 ≤ touched (offset + width) ∧ touched (offset + width) ≤ length ∧
      touched (offset + width) - offset / 8 ≤ 9 := by
  unfold touched
  omega

/-! ## Registers bit by bit -/

theorem bit_load
    (bytes : List UInt8)
    {first last index : Nat}
    (within : index < 8 * (last - first))
    (inside : index < 128) :
    (load bytes first last).bit index = bit bytes (8 * first + index) := by
  have place : index / 8 < last - first := by omega
  rw [load, Block.bit_ofBytes _ inside, bit, bit, List.extract, List.getElem?_take,
    if_pos place, List.getElem?_drop, Nat.mul_add_div (by decide), Nat.mul_add_mod]

theorem length_store
    {bytes : List UInt8}
    {first last : Nat}
    (ordered : first ≤ last)
    (present : last ≤ bytes.length)
    (narrow : last - first ≤ 16)
    (register : Block 16) :
    (store bytes first last register).length = bytes.length := by
  simp only [store, Block.toBytes, List.length_append, List.length_take,
    List.length_drop, List.length_map, List.length_range]
  omega

/-- The stored bytes have the bits of the register, and all others are kept. -/
theorem bit_store
    {bytes : List UInt8}
    {first last : Nat}
    (ordered : first ≤ last)
    (present : last ≤ bytes.length)
    (narrow : last - first ≤ 16)
    (register : Block 16)
    (index : Nat) :
    bit (store bytes first last register) index =
      if Covers (8 * first) (8 * (last - first)) index then
        register.bit (index - 8 * first)
      else bit bytes index := by
  have taken : (register.toBytes.take (last - first)).length = last - first := by
    simp [Block.toBytes, narrow]
  have before : (bytes.take first).length = first := by
    simp [ordered.trans present]
  -- The bit's byte is in one of the three parts of which the new bytes are made.
  rcases Nat.lt_or_ge (index / 8) first with early | later
  · rw [if_neg (by unfold Covers; omega), bit, bit, store, List.append_assoc,
      List.getElem?_append_left (by omega), List.getElem?_take_of_lt early]
  · rcases Nat.lt_or_ge (index / 8) last with within | behind
    · have place : (index - 8 * first) / 8 = index / 8 - first := by omega
      have offset : (index - 8 * first) % 8 = index % 8 := by omega
      rw [if_pos (by unfold Covers; omega), ← Block.bit_toBytes, bit, bit, store,
        place, offset, List.getElem?_append_left (by rw [List.length_append]; omega),
        List.getElem?_append_right (by omega), before,
        List.getElem?_take_of_lt (by omega)]
    · have place : last + (index / 8 - (first + (last - first))) = index / 8 := by omega
      rw [if_neg (by unfold Covers; omega), bit, bit, store,
        List.getElem?_append_right (by rw [List.length_append]; omega),
        List.length_append, before, taken, List.getElem?_drop, place]

theorem getLsbD_mask
    {width : Nat}
    (narrow : width < 128)
    (index : Nat) :
    (mask width).getLsbD index = decide (index < width) := by
  -- The power does not leave the register, so the subtraction is that of numbers.
  have power : (1#128 <<< width).toNat = 2 ^ width := by
    rw [← BitVec.twoPow_eq, BitVec.toNat_twoPow_of_lt narrow]
  have positive : 1#128 ≤ 1#128 <<< width := by
    rw [BitVec.le_def, power]
    exact Nat.two_pow_pos width
  have number : (mask width).toNat = 2 ^ width - 1 := by
    rw [mask, BitVec.toNat_sub_of_le positive, power]
    rfl
  rw [← BitVec.testBit_toNat, number, Nat.testBit_two_pow_sub_one]

/-- Clearing and setting under a mask is the deposit of a field in the register. -/
theorem blend_eq_deposit
    (register : Block 16)
    (shift value : Nat)
    {width : Nat}
    (narrow : width < 128) :
    blend register shift width value = register.deposit shift width value := by
  ext index inside
  have reach : index < 128 := inside
  have shifted : index - shift < 128 := by omega
  have masked : (!decide (index < shift) && decide (index - shift < width)) =
      decide (shift ≤ index ∧ index < shift + width) := by
    rw [Bool.eq_iff_iff]
    simp only [Bool.and_eq_true, Bool.not_eq_true', decide_eq_true_eq,
      decide_eq_false_iff_not]
    omega
  rw [Block.bit_deposit _ _ _ _ _ inside]
  simp only [Block.bit, blend, BitVec.getLsbD_or, BitVec.getLsbD_and, BitVec.getLsbD_not,
    BitVec.getLsbD_shiftLeft, getLsbD_mask narrow, BitVec.getLsbD_ofNat, reach, shifted,
    decide_true, Bool.true_and, masked]
  by_cases covers : shift ≤ index ∧ index < shift + width
  · simp [covers, Nat.not_lt.mpr covers.1]
  · simp [covers]

/-! ## Fields of bytes -/

/-- The field that is cut out of the register has the bits of the bytes. -/
theorem testBit_extract
    (bytes : List UInt8)
    (offset : Nat)
    {width : Nat}
    (narrow : width ≤ 64)
    (index : Nat) :
    (extract bytes offset width).testBit index =
      (decide (index < width) && bit bytes (offset + index)) := by
  rw [extract, BitVec.testBit_toNat, BitVec.getLsbD_setWidth, BitVec.getLsbD_and,
    BitVec.getLsbD_ushiftRight, getLsbD_mask (by omega)]
  by_cases inside : index < width
  · have word : index < 64 := by omega
    have place : 8 * (offset / 8) + (offset % 8 + index) = offset + index := by omega
    have seen := bit_load bytes
      (show offset % 8 + index < 8 * (touched (offset + width) - offset / 8) by
        unfold touched
        omega)
      (by omega)
    rw [place] at seen
    simp [← seen, Block.bit, inside, word]
  · simp [inside]

theorem length_deposit
    {bytes : List UInt8}
    {offset width : Nat}
    (inside : offset + width ≤ 8 * bytes.length)
    (narrow : width ≤ 64)
    (value : Nat) :
    (deposit bytes offset width value).length = bytes.length := by
  obtain ⟨ordered, present, few⟩ := touched_within inside narrow
  exact length_store ordered present (few.trans (by decide)) _

/-- The bits of the field are those of the word, and all others are kept. -/
theorem bit_deposit
    {bytes : List UInt8}
    {offset width : Nat}
    (inside : offset + width ≤ 8 * bytes.length)
    (narrow : width ≤ 64)
    (value index : Nat) :
    bit (deposit bytes offset width value) index =
      if Covers offset width index then value.testBit (index - offset)
        else bit bytes index := by
  obtain ⟨ordered, present, few⟩ := touched_within inside narrow
  rw [deposit, bit_store ordered present (few.trans (by decide)),
    blend_eq_deposit _ _ _ (by omega)]
  by_cases within :
      Covers (8 * (offset / 8)) (8 * (touched (offset + width) - offset / 8)) index
  · obtain ⟨low, high⟩ := id within
    -- Counted from the low end of the register the field begins at the remainder of
    -- the offset.
    have reach : index - 8 * (offset / 8) < 128 := by omega
    have place : 8 * (offset / 8) + (index - 8 * (offset / 8)) = index :=
      Nat.add_sub_cancel' low
    have source : index - 8 * (offset / 8) - offset % 8 = index - offset := by omega
    have sameField : (offset % 8 ≤ index - 8 * (offset / 8) ∧
        index - 8 * (offset / 8) < offset % 8 + width) ↔ Covers offset width index := by
      unfold Covers
      omega
    rw [if_pos within, Block.bit_deposit _ _ _ _ _ reach,
      bit_load bytes (by omega) reach, place, source]
    simp only [sameField]
  · have outside : ¬ Covers offset width index := by
      unfold Covers touched at *
      omega
    rw [if_neg within, if_neg outside]

/-- A block cuts out the field that is cut out of its bytes. -/
theorem extract_toBytes
    (block : Block size)
    (offset : Nat)
    {width : Nat}
    (narrow : width ≤ 64) :
    extract block.toBytes offset width = block.extract offset width := by
  apply Nat.eq_of_testBit_eq
  intro index
  rw [testBit_extract _ _ narrow, Block.testBit_extract, Block.bit_toBytes]

/-- A block replaces the field that is replaced in its bytes. -/
theorem deposit_toBytes
    (block : Block size)
    {offset width : Nat}
    (inside : offset + width ≤ 8 * size)
    (narrow : width ≤ 64)
    (value : Nat) :
    deposit block.toBytes offset width value =
      (block.deposit offset width value).toBytes := by
  have length (other : Block size) : other.toBytes.length = size := by
    simp [Block.toBytes]
  have room : offset + width ≤ 8 * block.toBytes.length := by
    rwa [length]
  refine eq_of_bit_eq (by rw [length_deposit room narrow, length, length])
    fun index => ?_
  rw [bit_deposit room narrow, Block.bit_toBytes, Block.bit_toBytes]
  split
  · rename_i covers
    obtain ⟨low, high⟩ := covers
    rw [Block.bit_deposit _ _ _ _ _ (by omega), if_pos ⟨low, high⟩]
  · rename_i outside
    rw [block.bit_deposit_outside value outside]

end Bytes

/-- Reads of a field whose bits are the same end in the same way. -/
theorem Block.read_congr
    {first second : Block size}
    {offset width : Nat}
    (same : ∀ index, Covers offset width index → first.bit index = second.bit index) :
    first.read offset width = second.read offset width := by
  have equal : first.extract offset width = second.extract offset width :=
    extract_congr fun index inside =>
      same _ ⟨Nat.le_add_right .., Nat.add_lt_add_left inside _⟩
  unfold Block.read
  rw [equal]

/-- Any bytes are the contents of a block. A read of a field that lies in them
goes through the register and gives the binary number of the field's bits. A
write goes through the register too. It keeps the number of bytes and the bits
outside the field, which is read again as the value, and a field that shares no
bit with it is read as before. -/
theorem Block.fields_exact
    (block : Block size)
    {offset width value : Nat}
    (fits : Fits size offset width)
    (narrow : width ≤ 64)
    (small : value < 2 ^ width) :
    (∀ bytes : List UInt8, (ofBytes bytes.length bytes).toBytes = bytes) ∧
    block.read offset width = .ok (Bytes.extract block.toBytes offset width) ∧
    Bytes.extract block.toBytes offset width =
      ∑ place ∈ Finset.range width,
        (Bytes.bit block.toBytes (offset + place)).toNat * 2 ^ place ∧
    ∃ written, block.write offset width value = .ok written ∧
      written.toBytes = Bytes.deposit block.toBytes offset width value ∧
      written.toBytes.length = block.toBytes.length ∧
      (∀ index, ¬ Covers offset width index →
        Bytes.bit written.toBytes index = Bytes.bit block.toBytes index) ∧
      written.read offset width = .ok value ∧
      ∀ other otherWidth, ShareNoBit offset width other otherWidth →
        written.read other otherWidth = block.read other otherWidth := by
  have present (index : Nat) (covers : Covers offset width index) : index < 8 * size :=
    covers.2.trans_le fits.inside
  have kept (index : Nat) (outside : ¬ Covers offset width index) :
      (block.deposit offset width value).bit index = block.bit index :=
    block.bit_deposit_outside value outside
  refine ⟨toBytes_ofBytes, ?_, ?_, _, block.write_eq fits narrow small,
    (Bytes.deposit_toBytes block fits.inside narrow value).symm,
    by simp [toBytes], ?_, ?_, ?_⟩
  · rw [block.read_eq fits narrow, Bytes.extract_toBytes block offset narrow]
  · rw [Bytes.extract_toBytes block offset narrow, extract_eq_sum]
    simp only [bit_toBytes]
  · intro index outside
    rw [bit_toBytes, bit_toBytes, kept index outside]
  · rw [read_eq _ fits narrow, block.extract_deposit present small]
  · intro other otherWidth apart
    exact read_congr fun index covers => kept index fun within =>
      apart index within covers

namespace Tape

/-- Nine bytes that are all alike. -/
def striped : Block 9 :=
  .ofBytes 9 (.replicate 9 0xA5)

/-- A word may begin inside the first of nine bytes and end inside the last one.
The bits that are left of these two bytes are kept. -/
theorem fields_exact_striped :
    striped.read 3 64 = .ok 0xB4B4B4B4B4B4B4B4 ∧
    ∃ written, striped.write 3 64 (2 ^ 64 - 2) = .ok written ∧
      written.toBytes = [0xF5, 0xFF, 0xFF, 0xFF, 0xFF, 0xFF, 0xFF, 0xFF, 0xA7] ∧
      written.read 3 64 = .ok (2 ^ 64 - 2) ∧
      written.read 67 5 = .ok 20 := by
  have fits : Fits 9 3 64 := ⟨by decide, by decide⟩
  have small : 2 ^ 64 - 2 < 2 ^ 64 := by decide
  obtain ⟨-, read, -, written, done, bytes, -, -, again, others⟩ :=
    Block.fields_exact striped fits (by decide) small
  have behind : ShareNoBit 3 64 67 5 :=
    Apart.shareNoBit (.inl (by decide))
  exact ⟨read, written, done, bytes, again, others 67 5 behind⟩

end Tape
end StateSpace
