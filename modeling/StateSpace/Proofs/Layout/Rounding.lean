import StateSpace.Proofs.Layout.Declarations
import StateSpace.Proofs.View.Indexing

/-!
# Rounding up to bytes

The bytes of a state are the fewest with room for its bits. To count them, the
bits are first padded by seven, and the padded number has to be a word as well.
Types and layouts are refused only if their bits are no word. So the seven
greatest words are sizes of layouts whose bytes cannot be counted.
-/

namespace StateSpace

/-- The greatest number of bits that is still a word when it is padded. -/
def roundableBits : Nat :=
  2 ^ 64 - 8

theorem padded_lt_iff {bits : Nat} :
    bits + 7 < Word.limit ↔ bits ≤ roundableBits := by
  unfold Word.limit roundableBits
  omega

/-- Padding by seven gives every begun byte its full length. -/
theorem isLeast_bytes (bits : Nat) :
    IsLeast { count | bits ≤ 8 * count } ((bits + 7) / 8) := by
  constructor
  · rw [Set.mem_ofPred_eq]
    omega
  · intro count enough
    rw [Set.mem_ofPred_eq] at enough
    omega

theorem bytesForBits_of_le
    {bits : Nat}
    (few : bits ≤ roundableBits) :
    bytesForBits bits = .ok ((bits + 7) / 8) := by
  have padded : Word.add? bits 7 = some (bits + 7) :=
    Word.add?_eq_some.mpr ⟨rfl, padded_lt_iff.mpr few⟩
  rw [bytesForBits, padded]

theorem bytesForBits_of_lt
    {bits : Nat}
    (many : roundableBits < bits) :
    bytesForBits bits = .error .sumTooLarge := by
  have overflow : Word.add? bits 7 = none :=
    if_neg fun small => absurd (padded_lt_iff.mp small) (Nat.not_le.mpr many)
  rw [bytesForBits, overflow]

/-- Bits can be rounded up to the fewest bytes exactly if there are few enough of
them to be padded. -/
structure RoundsUp (bits : Nat) : Prop where
  countable : (∃ count, bytesForBits bits = .ok count) ↔ bits ≤ roundableBits
  fewest : ∀ count, bytesForBits bits = .ok count →
    IsLeast { count | bits ≤ 8 * count } count
  overflow : ∀ breach, bytesForBits bits = .error breach → breach = .sumTooLarge

theorem roundsUp (bits : Nat) : RoundsUp bits := by
  rcases Nat.lt_or_ge roundableBits bits with many | few
  · rw [← Nat.not_le] at many
    have failed := bytesForBits_of_lt (Nat.not_le.mp many)
    constructor
    · simp [failed, many]
    · simp [failed]
    · intro breach broken
      cases failed.symm.trans broken
      rfl
  · have rounded := bytesForBits_of_le few
    constructor
    · simp [rounded, few]
    · intro count counted
      cases rounded.symm.trans counted
      exact isLeast_bytes bits
    · simp [rounded]

theorem Ty.Shaped.width_lt
    {ty : Ty}
    (shaped : ty.Shaped) :
    ty.width < Word.limit := by
  cases shaped with
  | scalar narrow =>
      rw [Ty.width]
      unfold Word.limit
      omega
  | array _ bounded => exact bounded
  | record _ bounded => exact bounded

namespace Layout

/-- A layout has a block exactly if its bits can be rounded up. -/
theorem zeroed_ok_iff (layout : Layout) :
    (∃ block, layout.zeroed = .ok block) ↔ layout.bits ≤ roundableBits := by
  rw [← (roundsUp layout.bits).countable]
  constructor
  · rintro ⟨block, made⟩
    obtain ⟨count, counted, -⟩ := bind_eq_ok.mp made
    exact ⟨count, counted⟩
  · rintro ⟨count, counted⟩
    exact ⟨.zero layout.bytes, bind_eq_ok.mpr ⟨count, counted, rfl⟩⟩

end Layout

/-! ## Sizes at the end of the words -/

namespace Brink

theorem positions_ordered : (0 : Int64) ≤ 2305843009213693950 := by
  decide

theorem octets_ordered : (0 : Int64) ≤ 255 := by
  decide

/-- As many octets as fit into the bits that can be rounded up. -/
def octets : Ty :=
  .array (.range ⟨0, 2305843009213693950, positions_ordered⟩)
    (.scalar (.range ⟨0, 255, octets_ordered⟩))

theorem octets_built : octets.Built :=
  .array (.range (show Ty.range? 0 2305843009213693950 = _ from rfl))
    (.range (show Ty.range? 0 255 = _ from rfl)) rfl

theorem octets_width : octets.width = roundableBits := rfl

/-- The octets and so many switches behind them. -/
def octetsAnd (count : Nat) : List (String × Ty) :=
  ("octets", octets) :: Crowd.switches count

theorem octetsAnd_built (count : Nat) :
    ∀ declaration ∈ octetsAnd count, declaration.2.Built := by
  intro declaration member
  rcases List.mem_cons.mp member with rfl | switch
  · exact octets_built
  · obtain ⟨number, -, rfl⟩ := List.mem_map.mp switch
    exact .boolean

theorem declaredBits_octetsAnd (count : Nat) :
    Layout.declaredBits (octetsAnd count) = roundableBits + count := by
  rw [octetsAnd, ← List.singleton_append, Layout.declaredBits_append,
    Layout.declaredBits_singleton, octets_width, Crowd.declaredBits_switches]

theorem octetsAnd_acceptable
    {count : Nat}
    (few : count < 8) :
    Layout.Acceptable (octetsAnd count) where
  distinct := by
    have room : count ≤ Layout.maxVariables := by
      unfold Layout.maxVariables
      omega
    have switches := (Crowd.switches_acceptable room).distinct
    refine List.nodup_cons.mpr ⟨fun member => ?_, switches⟩
    have named : "octets" ∈ (List.range count).map Crowd.name :=
      Crowd.declaredNames_switches count ▸ member
    obtain ⟨number, -, same⟩ := List.mem_map.mp named
    -- No switch has an 'o' in its name.
    have letter : 'o' ∈ (Crowd.name number).toList := by
      rw [same]
      decide
    simp [Crowd.name] at letter
  few := by
    simp only [octetsAnd, Crowd.switches, List.length_cons, List.length_map,
      List.length_range]
    unfold Layout.maxVariables
    omega
  narrow := by
    rw [declaredBits_octetsAnd]
    unfold roundableBits Word.limit
    omega

end Brink

/-- Every word of bits is the size of some layout, also one that cannot be rounded
up. -/
theorem Layout.exists_size
    {bits : Nat}
    (many : roundableBits ≤ bits)
    (word : bits < Word.limit) :
    ∃ declarations layout, (∀ declaration ∈ declarations, declaration.2.Built) ∧
      Layout.of? declarations = .ok layout ∧ layout.bits = bits := by
  have few : bits - roundableBits < 8 := by
    unfold roundableBits Word.limit at *
    omega
  obtain ⟨layout, accepted, places⟩ := (Brink.octetsAnd_acceptable few).of?_eq_ok
  refine ⟨_, layout, Brink.octetsAnd_built _, accepted, ?_⟩
  rw [places.bits, Brink.declaredBits_octetsAnd]
  omega

/-- The bytes of declared variables can be counted exactly if their bits can be
rounded up, and so it is with the bits of a built type. Bits are refused only
beyond the words, so each of the words that cannot be rounded up is the size of
some layout. -/
theorem Layout.countable_bytes
    (declarations : List (String × Ty))
    (ty : Ty)
    (bits : Nat) :
    (∀ layout, Layout.of? declarations = .ok layout →
      layout.bits = declaredBits declarations ∧ layout.bits < Word.limit ∧
        IsLeast { count | layout.bits ≤ 8 * count } layout.bytes ∧ RoundsUp layout.bits ∧
        ((∃ block, layout.zeroed = .ok block) ↔ layout.bits ≤ roundableBits)) ∧
    (ty.Built → ty.width < Word.limit ∧ RoundsUp ty.width) ∧
    (roundableBits < bits → bits < Word.limit →
      ∃ others layout, (∀ declaration ∈ others, declaration.2.Built) ∧
        Layout.of? others = .ok layout ∧ layout.bits = bits ∧
        bytesForBits layout.bits = .error .sumTooLarge) := by
  refine ⟨fun layout accepted => ?_, fun built => ?_, fun many word => ?_⟩
  · obtain ⟨acceptable, places⟩ := Layout.acceptable_of_of? accepted
    exact ⟨places.bits, places.bits ▸ acceptable.narrow, isLeast_bytes layout.bits,
      roundsUp layout.bits, layout.zeroed_ok_iff⟩
  · exact ⟨built.shaped.width_lt, roundsUp ty.width⟩
  · obtain ⟨others, layout, built, accepted, rfl⟩ := Layout.exists_size many.le word
    exact ⟨others, layout, built, accepted, rfl, bytesForBits_of_lt many⟩

namespace Brink

/-- A switch for every integer of 64 bits but one: the number of integers is
cut off at the greatest word. -/
def integers : Ty :=
  .array (.range Axis.integers) .boolean

theorem integers_built : integers.Built :=
  .array (.range (show Ty.range? Int64.minValue Int64.maxValue = _ from rfl))
    .boolean rfl

/-- The switches take a word of bits, so they are accepted as a type and as a
variable, but the bytes of neither can be counted. -/
theorem bytes_uncountable :
    integers.Built ∧ bytesForBits integers.width = .error .sumTooLarge ∧
      ∃ layout, Layout.of? [("a", integers)] = .ok layout ∧
        layout.bits = 2 ^ 64 - 1 ∧ bytesForBits layout.bits = .error .sumTooLarge ∧
        ∀ block, layout.zeroed ≠ .ok block := by
  have width : integers.width = 2 ^ 64 - 1 := rfl
  have many : roundableBits < integers.width := by
    rw [width]
    decide
  have acceptable : Layout.Acceptable [("a", integers)] :=
    Layout.Acceptable.nil.concat (by simp [Layout.declaredNames]) (by decide)
      (by rw [width]; decide)
  obtain ⟨layout, accepted, places⟩ := acceptable.of?_eq_ok
  have bits : layout.bits = integers.width := by
    rw [places.bits, Layout.declaredBits_singleton]
  refine ⟨integers_built, bytesForBits_of_lt many, layout, accepted,
    bits.trans width, ?_, ?_⟩
  · rw [bits]
    exact bytesForBits_of_lt many
  · intro block made
    have few := layout.zeroed_ok_iff.mp ⟨block, made⟩
    rw [bits] at few
    omega

/-- The octets fill the bits that can be rounded up, and with any switch behind
them there are too many. -/
theorem countable_bytes_octets :
    (∃ layout, Layout.of? (octetsAnd 0) = .ok layout ∧
      bytesForBits layout.bits = .ok (2 ^ 61 - 1) ∧ ∃ block, layout.zeroed = .ok block) ∧
    (∃ count, bytesForBits octets.width = .ok count) ∧
    ∃ declarations layout, Layout.of? declarations = .ok layout ∧
      layout.bits = 2 ^ 64 - 7 ∧ bytesForBits layout.bits = .error .sumTooLarge := by
  obtain ⟨layouts, types, every⟩ :=
    Layout.countable_bytes (octetsAnd 0) octets (2 ^ 64 - 7)
  refine ⟨?_, ?_, ?_⟩
  · obtain ⟨layout, accepted, -⟩ :=
      (octetsAnd_acceptable (show 0 < 8 by decide)).of?_eq_ok
    obtain ⟨bits, -, least, rounds, blocks⟩ := layouts layout accepted
    rw [declaredBits_octetsAnd, Nat.add_zero] at bits
    obtain ⟨count, counted⟩ := rounds.countable.mpr bits.le
    have fewest := (rounds.fewest count counted).unique least
    refine ⟨layout, accepted, ?_, blocks.mpr bits.le⟩
    rw [counted, fewest, Layout.bytes, bits]
    rfl
  · obtain ⟨-, rounds⟩ := types octets_built
    exact rounds.countable.mpr octets_width.le
  · obtain ⟨declarations, layout, -, made⟩ := every (by decide) (by decide)
    exact ⟨declarations, layout, made⟩

end Brink
end StateSpace
