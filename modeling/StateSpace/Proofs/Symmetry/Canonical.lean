import StateSpace.Proofs.Symmetry.Registered
import StateSpace.Proofs.Symmetry.Relabel

/-!
# The canonical form of a state

`canonicalize` goes through all relabellings of a state and keeps the one whose
bytes come first. As relabellings form a group action, the states with one
canonical form are exactly the relabellings of one another.
-/

namespace StateSpace

open Equiv

variable {size : Nat}

namespace PermutationSymmetry

/-- The relabellings of a state do not need more storage than one allocation
can have. -/
def Storable (symmetry : PermutationSymmetry) : Prop :=
  symmetry.isTrivial = false → 8 * symmetry.size < Word.allocationLimit

/-! ## The least of several candidates -/

/-- One step of the search for the least bytes. -/
def better (best candidate : Block size) : Block size :=
  if candidate.precedes best then candidate else best

theorem better_le (best candidate : Block size) :
    (better best candidate).toBytes ≤ best.toBytes ∧
      (better best candidate).toBytes ≤ candidate.toBytes := by
  unfold better
  split
  · rename_i precedes
    exact ⟨List.le_of_lt (Block.precedes_iff.mp precedes), List.le_refl _⟩
  · rename_i notPrecedes
    exact ⟨List.le_refl _, List.not_lt.mp (mt Block.precedes_iff.mpr notPrecedes)⟩

theorem foldlM_least
    {Item : Type}
    {candidate : Item → Except Breach (Block size)}
    {items : List Item}
    (each : ∀ item ∈ items, ∃ block, candidate item = .ok block)
    (best : Block size) :
    ∃ least,
      items.foldlM (fun best item => do
        let found ← candidate item
        return if found.precedes best then found else best) best = .ok least ∧
      (least = best ∨ ∃ item ∈ items, candidate item = .ok least) ∧
      least.toBytes ≤ best.toBytes ∧
      ∀ item ∈ items, ∀ block, candidate item = .ok block →
        least.toBytes ≤ block.toBytes := by
  induction items generalizing best with
  | nil => exact ⟨best, rfl, .inl rfl, List.le_refl _, by simp⟩
  | cons item rest inductionHypothesis =>
      obtain ⟨block, found⟩ := each item (by simp)
      obtain ⟨least, finished, origin, below, belowRest⟩ :=
        inductionHypothesis
          (fun item present => each item (List.mem_cons_of_mem _ present))
          (better best block)
      obtain ⟨belowBest, belowBlock⟩ := better_le best block
      refine ⟨least, ?_, ?_, List.le_trans below belowBest, ?_⟩
      · rw [List.foldlM_cons]
        apply bind_eq_ok.mpr
        exact ⟨better best block, by rw [found]; rfl, finished⟩
      · rcases origin with rfl | ⟨other, present, isCandidate⟩
        · unfold better
          split
          · exact .inr ⟨item, by simp, found⟩
          · exact .inl rfl
        · exact .inr ⟨other, List.mem_cons_of_mem _ present, isCandidate⟩
      · intro other present otherBlock otherFound
        rcases List.mem_cons.mp present with rfl | present
        · rw [found] at otherFound
          cases otherFound
          exact List.le_trans below belowBlock
        · exact belowRest other present otherBlock otherFound

section Canonical

variable
  {symmetry : PermutationSymmetry}
  {source target : Block size}

/-- Every permutation but the identity is among the enumerated ones. -/
theorem listing_mem_permutations
    {count : Nat}
    {permutation : Perm (Fin count)}
    (moved : permutation ≠ 1) :
    Heap.listing count (image permutation) ∈ Heap.permutations count := by
  have listed : Heap.listing count (image permutation) ∈
      Array.range count :: Heap.permutations count :=
    Heap.mem_permutations.mpr ⟨_, fun _ => image_of_le permutation, rfl⟩
  refine (List.mem_cons.mp listed).resolve_left fun identity => moved ?_
  ext position
  have place := Heap.getElem_listing (image permutation) position.isLt
  rw [identity, ← Heap.listing_one, Heap.getElem_listing 1 position.isLt,
    Option.some_inj, image_fin] at place
  exact place.symm

/-- The enumerated arrays are those of permutations. -/
theorem exists_listing
    {count : Nat}
    {array : Array Nat}
    (present : array ∈ Heap.permutations count) :
    ∃ permutation : Perm (Fin count), array =
      Heap.listing count (image permutation) := by
  obtain ⟨placed, fixed, listed⟩ :=
    Heap.mem_permutations.mp (List.mem_cons_of_mem _ present)
  obtain ⟨permutation, rfl⟩ := exists_image_eq fixed
  exact ⟨permutation, listed⟩

/-- If no relabelling fails, the canonical form is the one with the least bytes
among the state and its relabellings. -/
theorem canonicalize_least_of_ok
    (storable : symmetry.Storable)
    (computed : ∀ permutation : Perm (Fin symmetry.size), ∃ target,
      symmetry.relabel (Heap.listing symmetry.size (image permutation)) source =
        .ok target) :
    ∃ canonical, symmetry.canonicalize source = .ok canonical ∧
      (canonical = source ∨ ∃ permutation : Perm (Fin symmetry.size),
        symmetry.relabel (Heap.listing symmetry.size (image permutation)) source =
          .ok canonical) ∧
      canonical.toBytes ≤ source.toBytes ∧
      (symmetry.isTrivial = false →
        ∀ permutation : Perm (Fin symmetry.size), permutation ≠ 1 → ∀ target,
          symmetry.relabel (Heap.listing symmetry.size (image permutation)) source =
            .ok target → canonical.toBytes ≤ target.toBytes) := by
  cases trivial : symmetry.isTrivial with
  | true => exact ⟨source, if_pos trivial, .inl rfl, List.le_refl _, nofun⟩
  | false =>
      have room := storable trivial
      have each : ∀ array ∈ Heap.permutations symmetry.size,
          ∃ block, symmetry.relabel array source = .ok block := by
        intro array present
        obtain ⟨permutation, rfl⟩ := exists_listing present
        exact computed permutation
      obtain ⟨least, finished, origin, belowSource, below⟩ := foldlM_least each source
      refine ⟨least, ?_, ?_, belowSource, ?_⟩
      · unfold canonicalize
        rw [if_neg (by simp [trivial]), if_neg (by omega), Heap.foldPermutations_eq]
        exact finished
      · refine origin.imp_right ?_
        rintro ⟨array, present, found⟩
        obtain ⟨permutation, rfl⟩ := exists_listing present
        exact ⟨permutation, found⟩
      · intro _ permutation moved target found
        exact below _ (listing_mem_permutations moved) target found

/-- A symmetry with fewer than two identities or without places relabels every
state to itself. -/
theorem Relabels.eq_of_isTrivial
    (trivial : symmetry.isTrivial = true)
    {permutation : Perm (Fin symmetry.size)}
    (relabels : symmetry.Relabels permutation source target) :
    target = source := by
  suffices same : symmetry.Relabels permutation source source from relabels.unique same
  simp only [isTrivial, Bool.or_eq_true, decide_eq_true_eq, Bool.and_eq_true,
    List.isEmpty_iff] at trivial
  rcases trivial with few | ⟨noArrays, noMembers⟩
  · have alone : Subsingleton (Fin symmetry.size) :=
      ⟨fun left right => by omega⟩
    rw [Subsingleton.elim permutation 1]
    exact Relabels.refl source
  · refine ⟨source, ⟨?_, fun _ _ => rfl⟩, ⟨?_, fun _ _ => rfl⟩⟩
    · intro member present
      rw [noMembers] at present
      cases present
    · intro array present
      rw [noArrays] at present
      cases present

/-- The canonical form is the relabelling with the least bytes. -/
theorem Regular.canonicalize_least
    (regular : symmetry.Regular size)
    (storable : symmetry.Storable)
    (source : Block size) :
    ∃ canonical, symmetry.canonicalize source = .ok canonical ∧
      (∃ permutation, symmetry.Relabels permutation source canonical) ∧
      ∀ permutation target, symmetry.Relabels permutation source target →
        canonical.toBytes ≤ target.toBytes := by
  have computed (permutation : Perm (Fin symmetry.size)) : ∃ target,
      symmetry.relabel (Heap.listing symmetry.size (image permutation)) source =
        .ok target ∧ symmetry.Relabels permutation source target := by
    obtain ⟨target, relabels, -⟩ := regular.existsUnique_relabels permutation source
    exact ⟨target, relabel_ok regular relabels, relabels⟩
  obtain ⟨canonical, found, origin, belowSource, below⟩ :=
    canonicalize_least_of_ok storable fun permutation =>
      (computed permutation).imp fun _ => And.left
  refine ⟨canonical, found, ?_, ?_⟩
  · rcases origin with rfl | ⟨permutation, relabelled⟩
    · exact ⟨1, Relabels.refl canonical⟩
    · obtain ⟨target, relabelledTarget, relabels⟩ := computed permutation
      cases relabelled.symm.trans relabelledTarget
      exact ⟨permutation, relabels⟩
  · intro permutation target relabels
    cases trivial : symmetry.isTrivial with
    | true => rwa [relabels.eq_of_isTrivial trivial]
    | false =>
        by_cases moved : permutation = 1
        · subst moved
          rwa [relabels.unique (Relabels.refl source)]
        · exact below trivial permutation moved target (relabel_ok regular relabels)

/-- Relabellings of one another have the same canonical form. -/
theorem Regular.canonicalize_relabels
    (regular : symmetry.Regular size)
    (storable : symmetry.Storable)
    {permutation : Perm (Fin symmetry.size)}
    (relabels : symmetry.Relabels permutation source target) :
    symmetry.canonicalize target = symmetry.canonicalize source := by
  obtain ⟨first, firstFound, ⟨firstPermutation, firstRelabels⟩, firstLeast⟩ :=
    regular.canonicalize_least storable source
  obtain ⟨second, secondFound, ⟨secondPermutation, secondRelabels⟩, secondLeast⟩ :=
    regular.canonicalize_least storable target
  have secondOfSource := relabels.trans regular secondRelabels
  have firstOfTarget := (relabels.symm regular).trans regular firstRelabels
  have same : first = second := by
    apply Block.toBytes_injective
    exact List.le_antisymm (firstLeast _ _ secondOfSource)
      (secondLeast _ _ firstOfTarget)
  rw [firstFound, secondFound, same]

end Canonical

/-- The canonical form of a state is the relabelling of it whose bytes come
first. Every permutation relabels a state to one state, all of these have the
same canonical form, which is its own, and no other state has it. Bits outside
the registered places stay. -/
theorem OfLayout.canonicalize_represents
    {layout : Layout}
    (built : layout.Built)
    {symmetry : PermutationSymmetry}
    (registered : OfLayout layout symmetry)
    (coherent : symmetry.Coherent)
    (storable : symmetry.Storable) :
    (∀ permutation (source : Block layout.bytes),
      ∃! target, symmetry.Relabels permutation source target) ∧
    ∀ source : Block layout.bytes, ∃ canonical,
      symmetry.canonicalize source = .ok canonical ∧
      (∃ permutation, symmetry.Relabels permutation source canonical) ∧
      (∀ permutation target, symmetry.Relabels permutation source target →
        canonical.toBytes ≤ target.toBytes ∧
          symmetry.canonicalize target = .ok canonical) ∧
      symmetry.canonicalize canonical = .ok canonical ∧
      (∀ other, symmetry.canonicalize other = .ok canonical ↔
        ∃ permutation, symmetry.Relabels permutation source other) ∧
      ∀ index,
        (∀ member ∈ symmetry.members, ¬ Covers member.1 member.2 index) →
        (∀ array ∈ symmetry.arrays, ¬ Covers array.1 (symmetry.size * array.2) index) →
          canonical.bit index = source.bit index := by
  have regular := registered.regular built.placed coherent
  refine ⟨regular.existsUnique_relabels, fun source => ?_⟩
  obtain ⟨canonical, found, ⟨permutation, relabels⟩, least⟩ :=
    regular.canonicalize_least storable source
  have shared : ∀ permutation target, symmetry.Relabels permutation source target →
      symmetry.canonicalize target = .ok canonical := by
    intro permutation target relabels
    rw [regular.canonicalize_relabels storable relabels, found]
  refine ⟨canonical, found, ⟨permutation, relabels⟩, ?_, shared _ _ relabels, ?_, ?_⟩
  · intro permutation target relabels
    exact ⟨least permutation target relabels, shared permutation target relabels⟩
  · intro other
    constructor
    · intro otherFound
      obtain ⟨form, formFound, ⟨otherPermutation, otherRelabels⟩, -⟩ :=
        regular.canonicalize_least storable other
      rw [formFound] at otherFound
      cases otherFound
      exact ⟨_, relabels.trans regular (otherRelabels.symm regular)⟩
    · rintro ⟨otherPermutation, otherRelabels⟩
      exact shared otherPermutation other otherRelabels
  · intro index noMember noArray
    exact relabels.bit_eq noMember noArray

end PermutationSymmetry

/-! ## A lock with a queue of two processes -/

namespace Twins

/-- A process. -/
def process : Scalar :=
  .range ⟨0, 1, by decide⟩

/-- A process, or two for none. -/
def holder : Scalar :=
  .range ⟨0, 2, by decide⟩

/-- The process that holds a lock, and the successor of each process. -/
def layout : Layout :=
  ⟨#[⟨"owner", .scalar holder, 0⟩, ⟨"next", .array process (.scalar process), 2⟩], 4⟩

theorem layout_built : layout.Built := by
  have processBuilt : Ty.Built (.scalar process) :=
    .range (show Ty.range? 0 1 = .ok (.scalar process) from rfl)
  have holderBuilt : Ty.Built (.scalar holder) :=
    .range (show Ty.range? 0 2 = .ok (.scalar holder) from rfl)
  refine ⟨[("owner", .scalar holder), ("next", .array process (.scalar process))],
    ?_, ?_⟩
  · simp only [List.mem_cons, List.not_mem_nil, or_false, forall_eq_or_imp, forall_eq]
    exact ⟨holderBuilt, .array processBuilt processBuilt rfl⟩
  · simp [Layout.of?, Layout.extend, Layout.empty, Layout.maxVariables]
    rfl

/-- Both processes are interchangeable, wherever they are named. -/
def symmetry : PermutationSymmetry :=
  ⟨2, [(2, 1)], [(0, 2), (2, 1), (3, 1)]⟩

theorem symmetry_ofLayout : PermutationSymmetry.OfLayout layout symmetry := by
  have owner : layout.HasView ⟨.scalar holder, 0⟩ :=
    .declared (show layout.view? "owner" = some _ from rfl)
  have next : layout.HasView ⟨.array process (.scalar process), 2⟩ :=
    .declared (show layout.view? "next" = some _ from rfl)
  have first : layout.HasView ⟨.scalar process, 2⟩ :=
    .element next rfl (show ArrayView.element? _ 0 = _ from rfl)
  have second : layout.HasView ⟨.scalar process, 3⟩ :=
    .element next rfl (show ArrayView.element? _ 1 = _ from rfl)
  exact .rename (.rename (.rename (.permuteArray (.ofSize 2) next rfl rfl) owner rfl)
    first rfl) second rfl

theorem symmetry_coherent : symmetry.Coherent where
  arraysApart := by
    intro first firstPresent second secondPresent
    left
    rw [List.mem_singleton.mp firstPresent, List.mem_singleton.mp secondPresent]
  wide := by decide
  siblings := by
    intro array present width relative within position inside member other otherInside
    obtain rfl := List.mem_singleton.mp present
    simp only [symmetry, List.mem_cons, Prod.mk.injEq, List.not_mem_nil, or_false] at *
    omega

theorem symmetry_storable : symmetry.Storable :=
  fun _ => by decide

/-- The exchange of both processes, where the owner points to itself. -/
theorem exchanged :
    symmetry.Relabels (swap ⟨0, by decide⟩ ⟨1, by decide⟩)
      (⟨9⟩ : Block layout.bytes) ⟨8⟩ := by
  have small : ∀ value : BitVec (8 * layout.bytes), value.toNat < 2 ^ 4 →
      ∀ index, 4 ≤ index → Block.bit ⟨value⟩ index = false := by
    intro value bound index above
    apply Nat.testBit_lt_two_pow
    exact Nat.lt_of_lt_of_le bound (Nat.pow_le_pow_right (by decide) above)
  refine ⟨⟨4⟩, ⟨by decide, ?_⟩, ⟨by decide, ?_⟩⟩
  · intro index free
    have above : 4 ≤ index := by
      simp [symmetry, Covers] at free
      omega
    rw [small _ (by decide) _ above, small _ (by decide) _ above]
  · intro index free
    have places : index = 0 ∨ index = 1 ∨ 4 ≤ index := by
      simp [symmetry, Covers] at free
      omega
    rcases places with rfl | rfl | above
    · rfl
    · rfl
    · rw [small _ (by decide) _ above, small _ (by decide) _ above]

/-- Which of the two processes holds the lock and points to itself does not
matter. -/
theorem canonicalize_represents_twins :
    ∃ canonical,
      symmetry.canonicalize (⟨9⟩ : Block layout.bytes) = .ok canonical ∧
      symmetry.canonicalize (⟨8⟩ : Block layout.bytes) = .ok canonical ∧
      canonical.toBytes ≤ (⟨8⟩ : Block layout.bytes).toBytes := by
  obtain ⟨-, represents⟩ := PermutationSymmetry.OfLayout.canonicalize_represents
    layout_built symmetry_ofLayout symmetry_coherent symmetry_storable
  obtain ⟨canonical, found, -, relabellings, -⟩ := represents ⟨9⟩
  obtain ⟨least, shared⟩ := relabellings _ _ exchanged
  exact ⟨canonical, found, shared, least⟩

end Twins

end StateSpace
