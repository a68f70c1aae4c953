import Mathlib
import StateSpace.Symmetry.Heap

/-!
# Heap's method reaches every permutation

An arrangement of `0, …, length - 1` is a permutation of the positions, and an
exchange of two positions multiplies it by a transposition on the right. The
enumeration of one more position repeats the shorter enumeration once for each
item that the new position can hold. Which item it holds at a turn depends on
the parity of the level: the exchanges of an odd number of positions add up to
one transposition, those of an even number to a cycle through all positions.
-/

namespace StateSpace
namespace Heap

open Equiv

/-! ## A cycle grows by one point -/

/-- A cycle on some points, after an exchange of one of them with a new point,
is a cycle on all of these points. -/
theorem isCycleOn_mul_swap
    {cycle : Perm Nat}
    {points : Finset Nat}
    {old new : Nat}
    (cyclic : cycle.IsCycleOn points)
    (member : old ∈ points)
    (apart : new ∉ points)
    (fixed : cycle new = new) :
    (cycle * swap old new).IsCycleOn (insert new points : Finset Nat) := by
  have different : old ≠ new := ne_of_mem_of_not_mem member apart
  have newTo : (cycle * swap old new) new = cycle old := by simp
  have oldTo : (cycle * swap old new) old = new := by simp [fixed]
  have otherTo : ∀ point, point ≠ old → point ≠ new →
      (cycle * swap old new) point = cycle point := by
    intro point notOld notNew
    rw [Perm.mul_apply, swap_apply_of_ne_of_ne notOld notNew]
  -- From the new point the larger cycle follows the old one, which passes
  -- through all of its points.
  have follows : ∀ steps : Nat,
      (cycle * swap old new).SameCycle new ((cycle ^ steps) (cycle old)) := by
    intro steps
    induction steps with
    | zero => exact ⟨1, by simp⟩
    | succ steps inductionHypothesis =>
        rw [pow_succ', Perm.mul_apply]
        have inside : (cycle ^ steps) (cycle old) ∈ points := by
          rw [← Perm.mul_apply, ← pow_succ]
          exact (cyclic.1.perm_pow _).mapsTo member
        by_cases again : (cycle ^ steps) (cycle old) = old
        · rw [again]
          exact ⟨1, by simp⟩
        · rw [← otherTo _ again (ne_of_mem_of_not_mem inside apart)]
          exact Perm.sameCycle_apply_right.mpr inductionHypothesis
  have oldInside : cycle old ∈ points := cyclic.apply_mem_iff.mpr member
  have reaches : ∀ point ∈ insert new points,
      (cycle * swap old new).SameCycle new point := by
    intro point present
    rcases Finset.mem_insert.mp present with rfl | present
    · exact Perm.SameCycle.refl _ _
    · obtain ⟨steps, -, reached⟩ := cyclic.exists_pow_eq oldInside present
      rw [← reached]
      exact follows steps
  constructor
  · apply Equiv.bijOn
    intro point
    simp only [Finset.coe_insert, Set.mem_insert_iff, Finset.mem_coe]
    by_cases isOld : point = old
    · rw [isOld, oldTo]
      simp [member]
    by_cases isNew : point = new
    · rw [isNew, newTo]
      simp [oldInside]
    · rw [otherTo point isOld isNew]
      have kept : cycle point ∈ points ↔ point ∈ points := cyclic.apply_mem_iff
      have notNew : cycle point ≠ new := by
        intro same
        exact isNew (cycle.injective (same.trans fixed.symm))
      simp [isNew, notNew, kept]
  · intro left leftPresent right rightPresent
    exact (reaches left leftPresent).symm.trans (reaches right rightPresent)

/-! ## What exchanges do together -/

/-- The permutation of positions that exchanges amount to. -/
def effect (moves : List (Nat × Nat)) : Perm Nat :=
  (moves.map fun positions => swap positions.1 positions.2).prod

@[simp] theorem effect_nil : effect [] = 1 := rfl

@[simp] theorem effect_cons
    (positions : Nat × Nat)
    (rest : List (Nat × Nat)) :
    effect (positions :: rest) =
      swap positions.1 positions.2 * effect rest :=
  List.prod_cons

@[simp] theorem effect_append
    (earlier later : List (Nat × Nat)) :
    effect (earlier ++ later) = effect earlier * effect later := by
  simp [effect]

/-- Exchanges of positions below a bound fix everything from the bound on. -/
theorem effect_fixes
    {bound : Nat}
    {moves : List (Nat × Nat)}
    (below : ∀ positions ∈ moves, positions.1 < bound ∧ positions.2 < bound)
    {point : Nat}
    (above : bound ≤ point) :
    effect moves point = point := by
  induction moves with
  | nil => rfl
  | cons positions rest inductionHypothesis =>
      obtain ⟨leftBelow, rightBelow⟩ := below positions (by simp)
      rw [effect_cons, Perm.mul_apply,
        inductionHypothesis fun other member => below other (by simp [member])]
      exact swap_apply_of_ne_of_ne (by omega) (by omega)

theorem exchange_lt
    {level turn : Nat}
    (inside : turn < level) :
    (exchange level turn).1 < level + 1 ∧ (exchange level turn).2 < level + 1 := by
  unfold exchange
  split
  · exact ⟨by omega, by omega⟩
  · exact ⟨by omega, by omega⟩

/-- Only the enumerated positions are exchanged. -/
theorem exchanges_lt
    {length : Nat}
    {positions : Nat × Nat}
    (member : positions ∈ exchanges length) :
    positions.1 < length ∧ positions.2 < length := by
  induction length with
  | zero => cases member
  | succ level inductionHypothesis =>
      have lower : positions ∈ exchanges level →
          positions.1 < level + 1 ∧ positions.2 < level + 1 := by
        intro earlier
        obtain ⟨left, right⟩ := inductionHypothesis earlier
        exact ⟨by omega, by omega⟩
      rcases List.mem_append.mp member with earlier | later
      · exact lower earlier
      · obtain ⟨turn, present, found⟩ := List.mem_flatMap.mp later
        rcases List.mem_cons.mp found with rfl | earlier
        · exact exchange_lt (List.mem_range.mp present)
        · exact lower earlier

/-- The enumeration of some positions leaves the later ones alone. -/
theorem effect_exchanges_fixes
    {length point : Nat}
    (above : length ≤ point) :
    effect (exchanges length) point = point :=
  effect_fixes (fun _ member => exchanges_lt member) above

/-! ## The turns of a level -/

/-- The exchanges of a level up to the end of a turn. -/
def turns (level count : Nat) : List (Nat × Nat) :=
  exchanges level
    ++ (List.range count).flatMap fun turn => exchange level turn :: exchanges level

theorem exchanges_succ (level : Nat) :
    exchanges (level + 1) = turns level level := rfl

theorem turns_zero (level : Nat) :
    turns level 0 = exchanges level := by
  simp [turns]

theorem turns_succ (level count : Nat) :
    turns level (count + 1) =
      turns level count ++ exchange level count :: exchanges level := by
  simp [turns, List.range_succ, List.append_assoc]

/-- The arrangement with which a turn of a level begins. -/
def opening (level : Nat) : Nat → Perm Nat
  | 0 => 1
  | turn + 1 =>
    opening level turn * effect (exchanges level)
      * swap (exchange level turn).1 (exchange level turn).2

theorem effect_turns (level count : Nat) :
    effect (turns level count) =
      opening level count * effect (exchanges level) := by
  induction count with
  | zero => simp [turns_zero, opening]
  | succ count inductionHypothesis =>
      rw [turns_succ, effect_append, effect_cons, inductionHypothesis, opening]
      simp only [mul_assoc]

/-- Within a turn, the arrangements of the lower positions follow one another
as they do without the level. -/
theorem exists_initial_turns
    {level count turn : Nat}
    (before : turn ≤ count)
    {initial : List (Nat × Nat)}
    (isInitial : initial <+: exchanges level) :
    ∃ longer, longer <+: turns level count ∧
      effect longer = opening level turn * effect initial := by
  induction count with
  | zero =>
      obtain rfl : turn = 0 := by omega
      refine ⟨initial, ?_, ?_⟩
      · rw [turns_zero]
        exact isInitial
      · rw [opening, one_mul]
  | succ count inductionHypothesis =>
      rw [turns_succ]
      rcases Nat.lt_or_ge count turn with last | earlier
      · obtain rfl : turn = count + 1 := by omega
        refine ⟨turns level count ++ exchange level count :: initial, ?_, ?_⟩
        · rw [List.prefix_append_right_inj, List.prefix_cons_inj]
          exact isInitial
        · rw [effect_append, effect_cons, effect_turns, opening]
          simp only [mul_assoc]
      · obtain ⟨longer, isLonger, same⟩ := inductionHypothesis earlier
        exact ⟨longer, isLonger.trans (List.prefix_append _ _), same⟩

/-- A level fixes the positions above its own. -/
theorem opening_fixes
    {level turn : Nat}
    (before : turn ≤ level)
    {point : Nat}
    (above : level < point) :
    opening level turn point = point := by
  induction turn with
  | zero => rfl
  | succ turn inductionHypothesis =>
      obtain ⟨left, right⟩ := exchange_lt (show turn < level from before)
      rw [opening, Perm.mul_apply, Perm.mul_apply,
        swap_apply_of_ne_of_ne (by omega) (by omega),
        effect_exchanges_fixes (by omega), inductionHypothesis (by omega)]

/-! ## Even levels -/

/-- At an even level every turn goes one step further along one cycle. -/
theorem opening_even
    {level : Nat}
    (even : level % 2 = 0)
    (turn : Nat) :
    opening level turn = (effect (exchanges level) * swap 0 level) ^ turn := by
  induction turn with
  | zero => rfl
  | succ turn inductionHypothesis =>
      rw [opening, inductionHypothesis, exchange, if_pos even, pow_succ, mul_assoc]

/-- The cycle of an even level comes back after its last turn, but for one
exchange. -/
theorem effect_succ_even
    {level : Nat}
    (even : level % 2 = 0)
    (cyclic : (effect (exchanges level) * swap 0 level).IsCycleOn
      (Finset.range (level + 1))) :
    effect (exchanges (level + 1)) = swap 0 level := by
  have full : (effect (exchanges level) * swap 0 level) ^ (level + 1) = 1 := by
    ext point
    by_cases inside : point < level + 1
    · have back := cyclic.pow_card_apply (Finset.mem_range.mpr inside)
      rw [Finset.card_range] at back
      rw [back, Perm.one_apply]
    · apply Perm.pow_apply_eq_self_of_apply_eq_self
      rw [Perm.mul_apply, swap_apply_of_ne_of_ne (by omega) (by omega)]
      exact effect_exchanges_fixes (by omega)
  rw [exchanges_succ, effect_turns, opening_even even]
  rw [pow_succ, ← mul_assoc] at full
  rw [eq_inv_of_mul_eq_one_left full, swap_inv]

/-! ## Odd levels -/

/-- A product of transpositions that share a point. -/
def star
    (hub : Nat)
    (place : Nat → Nat) : Nat → Perm Nat
  | 0 => 1
  | count + 1 => star hub place count * swap (place count) hub

/-- The transpositions of a star fix what is neither the shared point nor one
of the others. -/
theorem star_fixes
    {hub count point : Nat}
    {place : Nat → Nat}
    (notHub : point ≠ hub)
    (notPlaced : ∀ index < count, point ≠ place index) :
    star hub place count point = point := by
  induction count with
  | zero => rfl
  | succ count inductionHypothesis =>
      rw [star, Perm.mul_apply,
        swap_apply_of_ne_of_ne (notPlaced count (by omega)) notHub]
      exact inductionHypothesis fun index before => notPlaced index (by omega)

/-- The transpositions of a star make up one cycle. -/
theorem star_isCycleOn
    {hub count : Nat}
    {place : Nat → Nat}
    (injective : place.Injective)
    (notHub : ∀ index < count, place index ≠ hub) :
    (star hub place count).IsCycleOn
      (insert hub ((Finset.range count).image place) : Finset Nat) := by
  induction count with
  | zero => simp [star]
  | succ count inductionHypothesis =>
      have new : ∀ index < count, place count ≠ place index := by
        intro index before same
        exact absurd (injective same) (by omega)
      have newNotHub : place count ≠ hub := notHub count (by omega)
      have cyclic := inductionHypothesis fun index before => notHub index (by omega)
      rw [Finset.range_add_one, Finset.image_insert, Finset.insert_comm, star, swap_comm]
      apply isCycleOn_mul_swap cyclic
      · exact Finset.mem_insert_self _ _
      · simp only [Finset.mem_insert, Finset.mem_image, Finset.mem_range, not_or,
          not_exists, not_and]
        exact ⟨newNotHub, fun index before same => new index before same.symm⟩
      · exact star_fixes newNotHub new

section Odd

variable
  {level : Nat}
  (odd : level % 2 = 1)
  (lower : effect (exchanges level) = swap 0 (level - 1))

include odd

/-- The exchange that an odd level finds comes twice between exchanges of one
parity, and positions of the other parity are none of its own. -/
theorem swap_pow_apply (turn : Nat) :
    (swap 0 (level - 1) ^ (turn + 1)) turn = swap 0 (level - 1) turn := by
  rcases Nat.mod_two_eq_zero_or_one turn with evenTurn | oddTurn
  · have half : turn + 1 = 2 * (turn / 2) + 1 := by omega
    have square : swap 0 (level - 1) ^ 2 = 1 := by
      rw [pow_two, swap_mul_self]
    rw [half, pow_succ, pow_mul, square, one_pow, one_mul]
  · have apart : swap 0 (level - 1) turn = turn :=
      swap_apply_of_ne_of_ne (by omega) (by omega)
    rw [apart]
    exact Perm.pow_apply_eq_self_of_apply_eq_self apart _

theorem swap_lt
    {turn : Nat}
    (before : turn < level) :
    swap 0 (level - 1) turn < level := by
  rw [swap_apply_def]
  split
  · omega
  · split
    · omega
    · exact before

theorem swap_pow_level (count : Nat) :
    (swap 0 (level - 1) ^ count) level = level := by
  apply Perm.pow_apply_eq_self_of_apply_eq_self
  exact swap_apply_of_ne_of_ne (by omega) (by omega)

include lower

/-- At an odd level the turns make up a star around the level's position. -/
theorem opening_odd (turn : Nat) :
    opening level turn =
      star level (swap 0 (level - 1)) turn * swap 0 (level - 1) ^ turn := by
  induction turn with
  | zero => rfl
  | succ turn inductionHypothesis =>
      rw [opening, inductionHypothesis, lower, exchange, if_neg (by omega), star]
      have moved : swap 0 (level - 1) ^ (turn + 1) * swap turn level =
          swap (swap 0 (level - 1) turn) level * swap 0 (level - 1) ^ (turn + 1) := by
        rw [mul_swap_eq_swap_mul, swap_pow_apply odd, swap_pow_level odd]
      rw [mul_assoc (star _ _ _), ← pow_succ, mul_assoc, moved, ← mul_assoc]

/-- At an odd level the item of the new position is another one at each turn. -/
theorem opening_succ_odd
    {turn : Nat}
    (before : turn < level) :
    opening level (turn + 1) level = swap 0 (level - 1) turn := by
  have below := swap_lt odd before
  rw [opening, lower, exchange, if_neg (by omega), opening_odd odd lower]
  simp only [Perm.mul_apply, swap_apply_right]
  rw [← Perm.mul_apply (swap 0 (level - 1) ^ turn), ← pow_succ, swap_pow_apply odd]
  apply star_fixes (by omega)
  intro index earlier same
  exact absurd ((swap 0 (level - 1)).injective same) (by omega)

/-- An odd level leaves a cycle to the next one. -/
theorem isCycleOn_succ_odd :
    (effect (exchanges (level + 1)) * swap 0 (level + 1)).IsCycleOn
      (Finset.range (level + 2)) := by
  have whole : effect (exchanges (level + 1)) =
      star level (swap 0 (level - 1)) level := by
    have square : swap 0 (level - 1) ^ 2 = 1 := by
      rw [pow_two, swap_mul_self]
    have half : level + 1 = 2 * ((level + 1) / 2) := by omega
    rw [exchanges_succ, effect_turns, opening_odd odd lower, lower,
      mul_assoc, ← pow_succ, half, pow_mul, square, one_pow, mul_one]
  have rearranged : (Finset.range level).image (swap 0 (level - 1)) =
      Finset.range level := by
    apply Finset.eq_of_subset_of_card_le
    · apply Finset.image_subset_iff.mpr
      intro turn before
      exact Finset.mem_range.mpr (swap_lt odd (Finset.mem_range.mp before))
    · rw [Finset.card_image_of_injective _ (swap 0 (level - 1)).injective]
  have cyclic := star_isCycleOn (swap 0 (level - 1)).injective
    fun turn (before : turn < level) => Nat.ne_of_lt (swap_lt odd before)
  rw [rearranged, ← Finset.range_add_one, ← whole] at cyclic
  rw [Finset.range_add_one]
  apply isCycleOn_mul_swap cyclic
  · exact Finset.mem_range.mpr (Nat.succ_pos level)
  · exact Finset.notMem_range_self
  · exact effect_exchanges_fixes (Nat.le_refl _)

end Odd

/-! ## All permutations -/

/-- What two consecutive levels of the enumeration amount to. -/
theorem effect_exchanges (half : Nat) :
    (effect (exchanges (2 * half)) * swap 0 (2 * half)).IsCycleOn
        (Finset.range (2 * half + 1)) ∧
      effect (exchanges (2 * half + 1)) = swap 0 (2 * half) := by
  have step : ∀ level, level % 2 = 0 →
      (effect (exchanges level) * swap 0 level).IsCycleOn (Finset.range (level + 1)) →
        (effect (exchanges level) * swap 0 level).IsCycleOn (Finset.range (level + 1)) ∧
          effect (exchanges (level + 1)) = swap 0 level :=
    fun _ even cyclic => ⟨cyclic, effect_succ_even even cyclic⟩
  induction half with
  | zero =>
      apply step 0 rfl
      simp [exchanges]
  | succ half inductionHypothesis =>
      apply step (2 * (half + 1)) (by omega)
      exact isCycleOn_succ_odd (show (2 * half + 1) % 2 = 1 by omega)
        inductionHypothesis.2

/-- A level puts every position up to its own in its position at some turn. -/
theorem exists_opening
    {level point : Nat}
    (inside : point ≤ level) :
    ∃ turn ≤ level, opening level turn level = point := by
  rcases Nat.mod_two_eq_zero_or_one level with even | odd
  · obtain ⟨cyclic, -⟩ := effect_exchanges (level / 2)
    have same : 2 * (level / 2) = level := by omega
    rw [same] at cyclic
    obtain ⟨turn, before, reached⟩ := cyclic.exists_pow_eq
      (Finset.mem_range.mpr (Nat.lt_succ_self level))
      (Finset.mem_range.mpr (Nat.lt_succ_of_le inside))
    rw [Finset.card_range] at before
    refine ⟨turn, by omega, ?_⟩
    rw [opening_even even, reached]
  · obtain ⟨-, lower⟩ := effect_exchanges (level / 2)
    have same : 2 * (level / 2) = level - 1 := by omega
    rw [same, Nat.sub_add_cancel (by omega)] at lower
    rcases Nat.lt_or_eq_of_le inside with below | rfl
    · refine ⟨swap 0 (level - 1) point + 1, swap_lt odd below, ?_⟩
      rw [opening_succ_odd odd lower (swap_lt odd below), swap_apply_self]
    · exact ⟨0, Nat.zero_le _, rfl⟩

/-- Every permutation of the first positions is the arrangement after some of
the exchanges. -/
theorem exists_initial
    {length : Nat}
    (placed : Perm Nat)
    (fixed : ∀ point, length ≤ point → placed point = point) :
    ∃ initial, initial <+: exchanges length ∧ effect initial = placed := by
  induction length generalizing placed with
  | zero =>
      refine ⟨[], List.nil_prefix, ?_⟩
      ext point
      rw [fixed point (Nat.zero_le point), effect_nil, Perm.one_apply]
  | succ level inductionHypothesis =>
      have inside : placed level ≤ level := by
        by_contra above
        have stays := fixed (placed level) (by omega)
        exact above (Nat.le_of_eq (placed.injective stays))
      obtain ⟨turn, before, opened⟩ := exists_opening inside
      -- The turn that begins with the right item in the last position
      -- leaves a permutation of the positions below it.
      have rest : ∀ point, level ≤ point →
          ((opening level turn)⁻¹ * placed) point = point := by
        intro point above
        rw [Perm.mul_apply, Perm.inv_eq_iff_eq]
        rcases Nat.lt_or_eq_of_le above with above | rfl
        · rw [opening_fixes before above, fixed point above]
        · exact opened.symm
      obtain ⟨initial, isInitial, same⟩ := inductionHypothesis _ rest
      obtain ⟨longer, isLonger, found⟩ := exists_initial_turns before isInitial
      refine ⟨longer, isLonger, ?_⟩
      rw [found, same, mul_inv_cancel_left]

/-! ## The arrays of the enumeration -/

/-- The first positions, each with the item that a permutation puts there. -/
def listing
    (length : Nat)
    (placed : Perm Nat) : Array Nat :=
  (Array.range length).map placed

@[simp] theorem size_listing
    (length : Nat)
    (placed : Perm Nat) :
    (listing length placed).size = length := by
  simp [listing]

theorem getElem_listing
    {length position : Nat}
    (placed : Perm Nat)
    (inside : position < length) :
    (listing length placed)[position]? = some (placed position) := by
  simp [listing, inside]

theorem listing_one (length : Nat) :
    listing length 1 = Array.range length := by
  simp [listing]

/-- An exchange of two positions of an array is one of the permutation. -/
theorem listing_swapIfInBounds
    {length left right : Nat}
    (placed : Perm Nat)
    (leftInside : left < length)
    (rightInside : right < length) :
    (listing length placed).swapIfInBounds left right =
      listing length (placed * swap left right) := by
  apply Array.ext
  · simp
  · intro position _ _
    simp only [listing, Array.getElem_swapIfInBounds, Array.size_map, Array.size_range,
      Array.getElem_map, Array.getElem_range, Perm.mul_apply, swap_apply_def,
      leftInside, rightInside]
    grind

/-- Exchanges one after the other reach the arrangements of their initial
parts, and no others. -/
theorem mem_arrangements
    {length : Nat}
    {placed : Perm Nat}
    {moves : List (Nat × Nat)}
    (below : ∀ positions ∈ moves, positions.1 < length ∧ positions.2 < length)
    {array : Array Nat} :
    array ∈ listing length placed :: arrangements (listing length placed) moves ↔
      ∃ initial, initial <+: moves ∧
        array = listing length (placed * effect initial) := by
  induction moves generalizing placed with
  | nil => simp [arrangements]
  | cons positions rest inductionHypothesis =>
      obtain ⟨leftBelow, rightBelow⟩ := below positions (by simp)
      have restBelow : ∀ positions ∈ rest, positions.1 < length ∧ positions.2 < length :=
        fun positions member => below positions (List.mem_cons_of_mem _ member)
      rw [List.mem_cons, arrangements,
        listing_swapIfInBounds placed leftBelow rightBelow,
        inductionHypothesis restBelow]
      simp only [List.prefix_cons_iff]
      constructor
      · rintro (rfl | ⟨initial, isInitial, rfl⟩)
        · exact ⟨[], .inl rfl, by simp⟩
        · refine ⟨positions :: initial, .inr ⟨initial, rfl, isInitial⟩, ?_⟩
          rw [effect_cons, mul_assoc]
      · rintro ⟨_, rfl | ⟨initial, rfl, isInitial⟩, rfl⟩
        · exact .inl (by simp)
        · refine .inr ⟨initial, isInitial, ?_⟩
          rw [effect_cons, mul_assoc]

/-- With the identity, the enumeration has the arrangements of all
permutations of its positions and nothing else. -/
theorem mem_permutations
    {length : Nat}
    {array : Array Nat} :
    array ∈ Array.range length :: permutations length ↔
      ∃ placed : Perm Nat, (∀ point, length ≤ point → placed point = point) ∧
        array = listing length placed := by
  rw [permutations, ← listing_one, mem_arrangements fun _ member => exchanges_lt member]
  constructor
  · rintro ⟨initial, isInitial, rfl⟩
    refine ⟨1 * effect initial, fun point above => ?_, rfl⟩
    rw [one_mul]
    exact effect_fixes (fun _ member => exchanges_lt (isInitial.subset member)) above
  · rintro ⟨placed, fixed, rfl⟩
    obtain ⟨initial, isInitial, rfl⟩ := exists_initial placed fixed
    exact ⟨initial, isInitial, by rw [one_mul]⟩

end Heap
end StateSpace
