import Mathlib.Algebra.BigOperators.Group.Finset.Basic
import StateSpace.Proofs.Bits.Bitwise

/-!
# Bits of bytes

Bytes are a string of bits, in which bit `i` is bit `i % 8` of byte `i / 8`. A
block has the bits of its bytes, so any bytes are the contents of a block. A
field holds the sum of the powers of two whose bits are set in it.
-/

namespace StateSpace

variable {size : Nat}

namespace Bytes

/-- Bit `index` of some bytes, clear beyond their end. -/
def bit
    (bytes : List UInt8)
    (index : Nat) : Bool :=
  (bytes[index / 8]?.getD 0).toNat.testBit (index % 8)

/-- The bits of one byte are next to each other. -/
theorem bit_place
    (bytes : List UInt8)
    (place : Nat)
    {offset : Nat}
    (inside : offset < 8) :
    bit bytes (8 * place + offset) = (bytes[place]?.getD 0).toNat.testBit offset := by
  rw [bit, Nat.mul_add_div (by decide), Nat.div_eq_of_lt inside, Nat.add_zero,
    Nat.mul_add_mod, Nat.mod_eq_of_lt inside]

theorem bit_eq_false
    {bytes : List UInt8}
    {index : Nat}
    (beyond : 8 * bytes.length ≤ index) :
    bit bytes index = false := by
  rw [bit, List.getElem?_eq_none (by omega)]
  exact Nat.zero_testBit _

/-- As many bytes with the same bits are the same bytes. -/
theorem eq_of_bit_eq
    {left right : List UInt8}
    (sameLength : left.length = right.length)
    (sameBits : ∀ index, bit left index = bit right index) :
    left = right := by
  refine List.ext_getElem sameLength fun place inLeft inRight => ?_
  apply UInt8.toNat_inj.mp
  apply Nat.eq_of_testBit_eq
  intro offset
  rcases Nat.lt_or_ge offset 8 with inside | beyond
  · have same := sameBits (8 * place + offset)
    rwa [bit_place left place inside, bit_place right place inside,
      List.getElem?_eq_getElem inLeft, List.getElem?_eq_getElem inRight] at same
  · have small (byte : UInt8) : byte.toNat < 2 ^ offset :=
      byte.toNat_lt.trans_le (Nat.pow_le_pow_right (by decide) beyond)
    rw [Nat.testBit_lt_two_pow (small _), Nat.testBit_lt_two_pow (small _)]

/-- The number with some bytes as its digits, the least significant one first,
has the bits of the bytes. -/
theorem testBit_digits
    (bytes : List UInt8)
    (index : Nat) :
    (bytes.foldr (fun (byte : UInt8) rest => byte.toNat + 256 * rest) 0).testBit index =
      bit bytes index := by
  induction bytes generalizing index with
  | nil => simp [bit]
  | cons byte rest inductionHypothesis =>
      have digit (above : Nat) : (byte.toNat + 256 * above).testBit index =
          if index < 8 then byte.toNat.testBit index else above.testBit (index - 8) := by
        rw [Nat.add_comm]
        exact Nat.testBit_two_pow_mul_add above byte.toNat_lt index
      rw [List.foldr_cons, digit, inductionHypothesis]
      split
      · rename_i first
        simp [bit, Nat.div_eq_of_lt first, Nat.mod_eq_of_lt first]
      · have place : index / 8 = (index - 8) / 8 + 1 := by omega
        have offset : index % 8 = (index - 8) % 8 := by omega
        rw [bit, bit, place, offset, List.getElem?_cons_succ]

end Bytes

namespace Block

/-- A block has the bits of its bytes. -/
theorem bit_toBytes
    (block : Block size)
    (index : Nat) :
    Bytes.bit block.toBytes index = block.bit index := by
  rcases Nat.lt_or_ge index (8 * size) with inside | beyond
  · have place : index / 8 < size := by omega
    have byte : block.toBytes[index / 8]? = some (block.byte (index / 8)) := by
      simp [toBytes, place]
    rw [Bytes.bit, byte, Option.getD_some, testBit_byte _ _ (Nat.mod_lt _ (by decide)),
      Nat.div_add_mod]
  · rw [bit_eq_false _ beyond, Bytes.bit_eq_false (by simpa [toBytes] using beyond)]

/-- The block of some bytes has their bits, as far as it reaches. -/
theorem bit_ofBytes
    (bytes : List UInt8)
    {index : Nat}
    (inside : index < 8 * size) :
    (ofBytes size bytes).bit index = Bytes.bit bytes index := by
  rw [bit, ofBytes, BitVec.getLsbD_ofNat, decide_eq_true inside, Bool.true_and,
    Bytes.testBit_digits]

/-- Any bytes are the contents of a block. -/
theorem toBytes_ofBytes
    (bytes : List UInt8) :
    (ofBytes bytes.length bytes).toBytes = bytes := by
  refine Bytes.eq_of_bit_eq (by simp [toBytes]) fun index => ?_
  rw [bit_toBytes]
  rcases Nat.lt_or_ge index (8 * bytes.length) with inside | beyond
  · exact bit_ofBytes bytes inside
  · rw [bit_eq_false _ beyond, Bytes.bit_eq_false beyond]

end Block

/-- The low bits of a number make up what a power of two leaves of it. -/
theorem mod_two_pow_eq_sum
    (number width : Nat) :
    number % 2 ^ width =
      ∑ place ∈ Finset.range width, (number.testBit place).toNat * 2 ^ place := by
  induction width with
  | zero => simp [Nat.mod_one]
  | succ width inductionHypothesis =>
      rw [Finset.sum_range_succ, ← inductionHypothesis, Nat.mod_pow_succ,
        Nat.toNat_testBit, Nat.mul_comm]

/-- A field holds the sum of the powers of two at which its bits are set. -/
theorem Block.extract_eq_sum
    (block : Block size)
    (offset width : Nat) :
    block.extract offset width =
      ∑ place ∈ Finset.range width, (block.bit (offset + place)).toNat * 2 ^ place := by
  rw [← Nat.mod_eq_of_lt (block.extract_lt offset width), mod_two_pow_eq_sum]
  refine Finset.sum_congr rfl fun place member => ?_
  rw [testBit_extract, decide_eq_true (Finset.mem_range.mp member), Bool.true_and]

end StateSpace
