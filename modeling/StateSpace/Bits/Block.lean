import StateSpace.Breach
import StateSpace.Word

/-!
# Blocks of packed bits

A block is a fixed number of bytes seen as one string of bits: bit `i` of the block is
bit `i % 8` of byte `i / 8`. A field is a run of at most 64 bits anywhere in a block and
holds the natural number whose least significant bit is the field's first.

`extract` and `deposit` are the field operations without checks. `read` and `write` are
their checked forms: they refuse a field that is too wide or leaves the block, and a
value that does not fit.
-/

namespace StateSpace

/-- A string of `8 * size` bits, the storage of `size` bytes. -/
structure Block (size : Nat) where
  bits : BitVec (8 * size)
  deriving DecidableEq

/-- The number of bytes that hold `bits` bits. The count has to stay a word while it is
rounded up. -/
def bytesForBits (bits : Nat) : Except Breach Nat :=
  match Word.add? bits 7 with
  | some padded => .ok (padded / 8)
  | none => .error .sumTooLarge

namespace Block

variable {size : Nat}

/-- The block whose bits are all clear. -/
def zero (size : Nat) : Block size :=
  ⟨.zero (8 * size)⟩

instance : Inhabited (Block size) :=
  ⟨zero size⟩

/-- Bit `index`, clear beyond the end of the block. -/
def bit
    (block : Block size)
    (index : Nat) : Bool :=
  block.bits.getLsbD index

/-- The number held by the `width` bits from `offset` on. Bits beyond the end count as
clear. -/
def extract
    (block : Block size)
    (offset width : Nat) : Nat :=
  (block.bits.extractLsb' offset width).toNat

/-- The block with the `width` bits from `offset` on replaced by the low bits of
`value`. -/
def deposit
    (block : Block size)
    (offset width value : Nat) : Block size :=
  let changed := block.bits.extractLsb' offset width ^^^ BitVec.ofNat width value
  ⟨block.bits ^^^ changed.setWidth (8 * size) <<< offset⟩

/-- Read a field. The empty field holds zero wherever it lies. -/
def read
    (block : Block size)
    (offset width : Nat) : Except Breach Nat :=
  if 64 < width then .error .readTooWide
  else if width = 0 then .ok 0
  else if Word.limit ≤ offset + width then .error .sumTooLarge
  else if 8 * size < offset + width then .error .readOutOfBounds
  else .ok (block.extract offset width)

/-- Write a field. The empty field takes only zero, and takes it wherever it lies. -/
def write
    (block : Block size)
    (offset width value : Nat) : Except Breach (Block size) :=
  if 64 < width then .error .writeTooWide
  else if value >>> width ≠ 0 then .error .valueTooWide
  else if width = 0 then .ok block
  else if Word.limit ≤ offset + width then .error .sumTooLarge
  else if 8 * size < offset + width then .error .writeOutOfBounds
  else .ok (block.deposit offset width value)

/-- Copy `width` bits from one block into another, at most 64 at a time. -/
def copyBits
    {sourceSize : Nat}
    (source : Block sourceSize)
    (sourceOffset : Nat)
    (target : Block size)
    (targetOffset width : Nat) : Except Breach (Block size) :=
  if width = 0 then .ok target
  else do
    let length := min 64 width
    let copied ← target.write targetOffset length (← source.read sourceOffset length)
    copyBits source (sourceOffset + length) copied (targetOffset + length)
      (width - length)
termination_by width

/-- Byte `index`. -/
def byte
    (block : Block size)
    (index : Nat) : UInt8 :=
  ⟨block.bits.extractLsb' (8 * index) 8⟩

/-- The bytes of the block, first byte first. -/
def toBytes (block : Block size) : List UInt8 :=
  (List.range size).map block.byte

/-- The block of the given bytes, zeros where there are too few of them. -/
def ofBytes
    (size : Nat)
    (bytes : List UInt8) : Block size :=
  ⟨BitVec.ofNat (8 * size) (bytes.foldr (fun byte rest => byte.toNat + 256 * rest) 0)⟩

/-- Whether two blocks hold the same bytes, which needs them to be of one size. -/
def agrees
    {leftSize rightSize : Nat}
    (left : Block leftSize)
    (right : Block rightSize) : Bool :=
  left.toBytes = right.toBytes

/-- Whether `count` bytes of one block, from byte `first` on, come before those of
another. -/
def precedesFrom
    (left right : Block size)
    (first : Nat) : Nat → Bool
  | 0 => false
  | count + 1 =>
    left.byte first < right.byte first
      || left.byte first = right.byte first && precedesFrom left right (first + 1) count

/-- Whether the bytes of one block come before those of another in lexicographic
order. -/
def precedes (left right : Block size) : Bool :=
  left.precedesFrom right 0 size

/-- A byte as two lowercase hexadecimal digits. -/
def hexByte (byte : UInt8) : List Char :=
  [Nat.digitChar (byte.toNat / 16), Nat.digitChar (byte.toNat % 16)]

/-- The bytes of the block in hexadecimal. -/
def hex (block : Block size) : String :=
  String.ofList (block.toBytes.flatMap hexByte)

/-- The value of a hexadecimal digit. -/
def digitValue (digit : Char) : Nat :=
  if digit.isDigit then digit.toNat - '0'.toNat else digit.toNat - 'a'.toNat + 10

/-- The bytes that pairs of lowercase hexadecimal digits stand for. -/
def bytesOfHex : List Char → List UInt8
  | high :: low :: rest =>
    UInt8.ofNat (16 * digitValue high + digitValue low) :: bytesOfHex rest
  | _ => []

/-- Blocks are hashed word by word, so that blocks that differ late still spread. -/
instance : Hashable (Block size) where
  hash block :=
    (List.range ((size + 7) / 8)).foldl
      (fun seed index => mixHash seed (hash (block.extract (64 * index) 64))) 7

@[ext] theorem ext
    {left right : Block size}
    (equalBits : ∀ index, index < 8 * size → left.bit index = right.bit index) :
    left = right := by
  cases left; cases right
  congr 1
  exact BitVec.eq_of_getLsbD_eq equalBits

theorem testBit_extract
    (block : Block size)
    (offset width index : Nat) :
    (block.extract offset width).testBit index =
      (decide (index < width) && block.bit (offset + index)) := by
  simp [extract, bit, BitVec.testBit_toNat]

/-- The order of blocks is the lexicographic order of their bytes. -/
theorem precedes_iff {left right : Block size} :
    left.precedes right ↔ left.toBytes < right.toBytes := by
  have window (count first : Nat) : left.precedesFrom right first count ↔
      (List.range' first count).map left.byte <
        (List.range' first count).map right.byte := by
    induction count generalizing first with
    | zero => simp [precedesFrom]
    | succ count inductionHypothesis =>
        simp [precedesFrom, List.range'_succ, List.cons_lt_cons_iff, inductionHypothesis]
  rw [precedes, window, toBytes, toBytes, List.range_eq_range']

/-- A write changes the bits of its field, to those of the value, and no others. -/
theorem bit_deposit
    (block : Block size)
    (offset width value index : Nat)
    (inside : index < 8 * size) :
    (block.deposit offset width value).bit index =
      if offset ≤ index ∧ index < offset + width then value.testBit (index - offset)
      else block.bit index := by
  have reach : index - offset < 8 * size := by omega
  simp only [bit, deposit, BitVec.getLsbD_xor, BitVec.getLsbD_shiftLeft,
    BitVec.getLsbD_setWidth, BitVec.getLsbD_extractLsb', BitVec.getLsbD_ofNat, inside,
    reach, decide_true, Bool.true_and]
  by_cases above : offset ≤ index
  · by_cases below : index < offset + width
    · simp [above, below, Nat.not_lt.mpr above, show index - offset < width by omega,
        Nat.add_sub_cancel' above]
    · simp [below, show ¬ index - offset < width by omega]
  · simp [above, Nat.not_le.mp above]

end Block
end StateSpace
