/-!
# Broken preconditions

Storage operations have preconditions that their callers promise to keep: a field lies
inside its block, a value fits its field, a shard exists. A call that breaks one has no
answer, and the breach it committed ends whatever was being computed. A breach is not a
fault of the checked model's own arithmetic (`StateSpace.Fault`), which a search reports
and survives.
-/

namespace StateSpace

/-- A precondition of a storage operation that a caller did not keep. -/
inductive Breach where
  /-- A field of more than 64 bits was read. -/
  | readTooWide
  /-- A field that leaves its block was read. -/
  | readOutOfBounds
  /-- A field of more than 64 bits was written. -/
  | writeTooWide
  /-- A value that needs more bits than its field has was written. -/
  | valueTooWide
  /-- A field that leaves its block was written. -/
  | writeOutOfBounds
  /-- An integer outside a range was encoded as a member of it. -/
  | valueNotContained
  /-- A block was given back while another one was waiting for reuse. -/
  | slotOccupied
  /-- A block of another size than the recycled ones was given back. -/
  | returnedSize (found expected : Nat)
  /-- A block was copied into one of another size. -/
  | copiedSize (source target : Nat)
  /-- More storage was asked for than one allocation can have. -/
  | storageTooLarge
  /-- A hash table was asked for with more room than one allocation can have. -/
  | tableTooLarge
  /-- A state was pushed to a shard that does not exist. -/
  | shardMissing
  /-- An array was asked for an element beyond its last. -/
  | elementMissing
  /-- A sum of sizes or offsets is no machine word. -/
  | sumTooLarge
  /-- A product of sizes or offsets is no machine word. -/
  | productTooLarge
  deriving DecidableEq, Repr

/-- What is said of a broken precondition. -/
def Breach.message : Breach → String
  | .readTooWide => "read of too large a value"
  | .readOutOfBounds => "out of bounds read"
  | .writeTooWide => "write of too large a value"
  | .valueTooWide => "write of a value wider than its field"
  | .writeOutOfBounds => "out of bounds write"
  | .valueNotContained => "assertion failed: self.contains(v)"
  | .slotOccupied => "state freed while another is already cached"
  | .returnedSize found expected =>
    "assertion `left == right` failed\n  left: " ++ toString found ++ "\n right: "
      ++ toString expected
  | .copiedSize source target =>
    "copy_from_slice: source slice length (" ++ toString source
      ++ ") does not match destination slice length (" ++ toString target ++ ")"
  | .storageTooLarge => "capacity overflow"
  | .tableTooLarge => "Hash table capacity overflow"
  | .shardMissing => "assertion failed: shard < self.shards.len()"
  | .elementMissing => "assertion failed: ordinal < self.len()"
  | .sumTooLarge => "attempt to add with overflow"
  | .productTooLarge => "attempt to multiply with overflow"

end StateSpace
