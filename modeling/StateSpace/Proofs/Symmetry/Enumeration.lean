import StateSpace.Proofs.Symmetry.Canonical

/-!
# The enumeration visits every permutation once

With the identity, from which it starts, the enumeration reaches all
permutations. A level repeats the shorter enumeration once for each item that
its position can hold, so there are only as many visits as permutations, and
no permutation is visited twice.
-/

namespace StateSpace

open Equiv

namespace Heap

/-! ## The number of visits -/

theorem length_exchangesFrom (level turn : Nat) :
    (exchangesFrom level turn).length =
      (level - turn) * ((exchanges level).length + 1) := by
  simp [exchangesFrom]

/-- A level has a turn for each item of its position, the first of which takes
no exchange. -/
theorem length_exchanges (length : Nat) :
    (exchanges length).length + 1 = length.factorial := by
  induction length with
  | zero => rfl
  | succ level inductionHypothesis =>
      rw [exchanges_succ_eq_append, List.length_append, length_exchangesFrom,
        Nat.sub_zero, Nat.factorial_succ, ← inductionHypothesis]
      ring

theorem length_arrangements
    (current : Array Nat)
    (moves : List (Nat × Nat)) :
    (arrangements current moves).length = moves.length := by
  induction moves generalizing current with
  | nil => rfl
  | cons _ _ inductionHypothesis => exact congrArg (· + 1) (inductionHypothesis _)

theorem length_permutations (length : Nat) :
    (permutations length).length + 1 = length.factorial := by
  rw [permutations, length_arrangements, length_exchanges]

/-! ## The visited arrangements -/

/-- The listing of a permutation rearranges the positions. -/
theorem listing_perm
    {length : Nat}
    (permutation : Perm (Fin length)) :
    (listing length (image permutation)).toList.Perm (List.range length) := by
  rw [listing, Array.toList_map, Array.toList_range]
  have distinct : ((List.range length).map (image permutation)).Nodup :=
    List.nodup_range.map (image permutation).injective
  refine (List.perm_ext_iff_of_nodup distinct List.nodup_range).mpr fun item => ?_
  rw [List.mem_map, List.mem_range]
  constructor
  · rintro ⟨position, inside, rfl⟩
    exact image_lt permutation (List.mem_range.mp inside)
  · intro inside
    refine ⟨image permutation⁻¹ item, List.mem_range.mpr (image_lt _ inside), ?_⟩
    exact ((image_inv_eq_iff permutation).mp rfl).symm

/-- A rearrangement of the positions is the listing of a permutation. -/
theorem exists_listing_eq
    {length : Nat}
    {array : Array Nat}
    (rearranged : array.toList.Perm (List.range length)) :
    ∃ permutation : Perm (Fin length), array = listing length (image permutation) := by
  obtain rfl : array.size = length := by
    simpa using rearranged.length_eq
  have item : ∀ position : Fin array.size, array[position] < array.size := by
    intro position
    exact List.mem_range.mp (rearranged.subset (by simp))
  have injective : Function.Injective fun position : Fin array.size =>
      (⟨array[position], item position⟩ : Fin array.size) := by
    intro left right same
    have distinct := rearranged.nodup_iff.mpr List.nodup_range
    exact Fin.ext ((distinct.getElem_inj_iff).mp (congrArg Fin.val same))
  refine ⟨.ofBijective _ (Finite.injective_iff_bijective.mp injective), ?_⟩
  apply Array.ext
  · simp
  · intro position inside _
    have placed :=
      image_fin (.ofBijective _ (Finite.injective_iff_bijective.mp injective))
      ⟨position, inside⟩
    simp only [listing, Array.getElem_map, Array.getElem_range]
    exact placed.symm

/-- The identity and the visited arrays are the rearrangements of the
positions. -/
theorem mem_permutations_iff
    {length : Nat}
    {array : Array Nat} :
    array ∈ Array.range length :: permutations length ↔
      array.toList.Perm (List.range length) := by
  rw [mem_permutations]
  constructor
  · rintro ⟨placed, fixed, rfl⟩
    obtain ⟨permutation, rfl⟩ := exists_image_eq fixed
    exact listing_perm permutation
  · intro rearranged
    obtain ⟨permutation, rfl⟩ := exists_listing_eq rearranged
    exact ⟨_, fun _ => image_of_le permutation, rfl⟩

/-- There are no more visits than permutations, so each of these is visited
only once. -/
theorem nodup_permutations (length : Nat) :
    (Array.range length :: permutations length).Nodup := by
  have covered : (List.range length).permutations ⊆
      (Array.range length :: permutations length).map Array.toList := by
    intro rearranged member
    rw [List.mem_permutations] at member
    exact List.mem_map.mpr ⟨rearranged.toArray, mem_permutations_iff.mpr member, rfl⟩
  have distinct : (List.range length).permutations.Nodup :=
    List.nodup_permutations _ List.nodup_range
  have same := (List.subperm_of_subset distinct covered).perm_of_length_le (by
    rw [List.length_map, List.length_cons, length_permutations, List.length_permutations,
      List.length_range])
  exact (same.nodup_iff.mp distinct).of_map _

/-! ## The enumeration of relabellings -/

/-- A list of arrays is what an enumeration visits, one after the other, and
with the identity it has every permutation of the positions once. -/
structure Enumerated
    (length : Nat)
    (visited : List (Array Nat)) : Prop where
  /-- Whatever is done at a visit, it is done for these arrays and no others. -/
  runs : ∀ {ε σ : Type} (visit : σ → Array Nat → Except ε σ) (state : σ),
    foldPermutations visit length state = visited.foldlM visit state
  /-- The identity is no visit. -/
  count : visited.length = length.factorial - 1
  /-- No permutation is visited twice. -/
  once : (Array.range length :: visited).Nodup
  /-- Every permutation is visited, and nothing else is. -/
  all : ∀ array : Array Nat,
    array ∈ Array.range length :: visited ↔ array.toList.Perm (List.range length)

theorem permutations_enumerated (length : Nat) :
    Enumerated length (permutations length) where
  runs visit state := foldPermutations_eq visit length state
  count := by
    have total := length_permutations length
    omega
  once := nodup_permutations length
  all _ := mem_permutations_iff

end Heap

namespace PermutationSymmetry

/-- The search for the canonical form makes one relabelling for each
permutation of the identities, the identity excepted. It ends after all of
these unless one of them fails. -/
theorem canonicalize_enumerates
    {blockSize : Nat}
    (symmetry : PermutationSymmetry)
    (source : Block blockSize) :
    ∃ visited, Heap.Enumerated symmetry.size visited ∧
      (symmetry.isTrivial = false → 8 * symmetry.size < Word.allocationLimit →
        symmetry.canonicalize source =
          visited.foldlM
            (fun best permutation => better best <$> symmetry.relabel permutation source)
            source) := by
  have enumerated := Heap.permutations_enumerated symmetry.size
  refine ⟨_, enumerated, fun nontrivial room => ?_⟩
  unfold canonicalize
  rw [if_neg (by simp [nontrivial]), if_neg (by omega), enumerated.runs]
  rfl

/-- A place that holds one of three identities. -/
def trio : PermutationSymmetry :=
  ⟨3, [], [(0, 2)]⟩

/-- Five relabellings, of which one exchanges the outer identities, find the
least one. -/
theorem canonicalize_enumerates_trio :
    ∃ visited, Heap.Enumerated 3 visited ∧ visited.length = 5 ∧ #[2, 1, 0] ∈ visited ∧
      visited.foldlM
        (fun best permutation => better best <$> trio.relabel permutation ⟨2⟩)
        (⟨2⟩ : Block 1) = .ok ⟨0⟩ := by
  obtain ⟨visited, enumerated, found⟩ := canonicalize_enumerates trio (⟨2⟩ : Block 1)
  refine ⟨visited, enumerated, enumerated.count, ?_, ?_⟩
  · have present := (enumerated.all #[2, 1, 0]).mpr (by decide)
    exact (List.mem_cons.mp present).resolve_left (by decide)
  · rw [← found rfl (by decide)]
    decide +kernel

end PermutationSymmetry
end StateSpace
