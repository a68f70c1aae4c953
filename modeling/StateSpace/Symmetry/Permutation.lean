import StateSpace.Symmetry.Heap
import StateSpace.View.Basic

/-!
# Symmetry under relabelling

A permutation symmetry names the places of a state that depend on a domain of
interchangeable identities `0, …, size - 1`: arrays indexed by the domain, whose
elements move with a relabelling, and scalar fields that hold an identity, which is
relabelled. A stored number that is no identity is left alone.

`canonicalize` relabels a state by every permutation of the domain and keeps the result
whose bytes come first in lexicographic order.
-/

namespace StateSpace

/-- A choice of the representative of the class of a block. -/
abbrev Canonicalizer (size : Nat) : Type :=
  Block size → Except Breach (Block size)

/-- The places of a state that depend on a domain of interchangeable identities. -/
structure PermutationSymmetry where
  /-- The number of identities. -/
  size : Nat
  /-- The offset and the element width of each array indexed by the domain. -/
  arrays : List (Nat × Nat)
  /-- The offset and the width of each field that holds an identity. -/
  members : List (Nat × Nat)

namespace PermutationSymmetry

variable {blockSize : Nat}

/-- A domain on which nothing depends yet. -/
def ofSize (size : Nat) : PermutationSymmetry :=
  ⟨size, [], []⟩

/-- Let the elements of an array move with the domain that indexes it. -/
def permuteArray
    (symmetry : PermutationSymmetry)
    (view : ArrayView) :
    Except LayoutError PermutationSymmetry :=
  if view.length = symmetry.size then
    .ok { symmetry with arrays := symmetry.arrays ++
      [(view.offset, view.element.width)] }
  else .error (.symmetryMismatch symmetry.size view.length)

/-- Let the ordinal in a range or enumeration field be relabelled. -/
def rename
    (symmetry : PermutationSymmetry)
    (view : View) :
    Except LayoutError PermutationSymmetry :=
  match view.ty with
  | .scalar (.range _) | .scalar (.enumeration _) =>
    .ok { symmetry with members := symmetry.members ++ [(view.offset, view.width)] }
  | _ => .error .notAnOrdinal

/-- Replace the identity in a field of `target` by its image, reading it from
`source`. -/
def relabelMember
    (symmetry : PermutationSymmetry)
    (permutation : Array Nat)
    (source target : Block blockSize)
    (member : Nat × Nat) : Except Breach (Block blockSize) := do
  let (offset, width) := member
  let identity ← source.read offset width
  if identity < symmetry.size then
    target.write offset width (permutation[identity]?.getD identity)
  else return target

/-- Move every element of an array of `source` to the image of its position in
`target`. -/
def moveElements
    (permutation : Array Nat)
    (source target : Block blockSize)
    (array : Nat × Nat) :
    Except Breach (Block blockSize) :=
  let (offset, width) := array
  permutation.toList.zipIdx.foldlM
    (fun moved (image, position) =>
      Block.copyBits source (offset + position * width) moved
        (offset + image * width) width)
    target

/-- The relabelling of a block by a permutation: fields first, then the elements of
arrays. -/
def relabel
    (symmetry : PermutationSymmetry)
    (permutation : Array Nat)
    (source : Block blockSize) : Except Breach (Block blockSize) := do
  let renamed ← symmetry.members.foldlM
    (symmetry.relabelMember permutation source) source
  symmetry.arrays.foldlM (moveElements permutation renamed) renamed

/-- Whether some relabelling can change a block at all. -/
def isTrivial (symmetry : PermutationSymmetry) : Bool :=
  symmetry.size < 2 || (symmetry.arrays.isEmpty && symmetry.members.isEmpty)

/-- The relabelling of a block whose bytes come first in lexicographic order. A
relabelling takes a word for each identity, and all of them have to fit one
allocation. -/
def canonicalize
    (symmetry : PermutationSymmetry) : Canonicalizer blockSize := fun source =>
  if symmetry.isTrivial then .ok source
  else if Word.allocationLimit ≤ 8 * symmetry.size then .error .storageTooLarge
  else
    Heap.foldPermutations
      (fun best permutation => do
        let candidate ← symmetry.relabel permutation source
        return if candidate.precedes best then candidate else best)
      symmetry.size source

end PermutationSymmetry
end StateSpace
