/-!
# Enumeration of permutations

Heap's method runs through the permutations of a list by exchanging two positions at a
time. Which positions are exchanged does not depend on the arrangement, so the exchanges
are data: `exchanges n` lists them, and `arrangements` performs them one after the
other.

`foldPermutations` goes through the permutations in this order without listing them, so
that it can stop early. It keeps a counter for every level and repeats one step;
`sweep_eq` says which exchanges are ahead of it. `foldPermutations_eq` says that it is
the fold along the list.
-/

namespace StateSpace
namespace Heap

/-- The positions exchanged when position `level` is given its next item for the
`turn`-th time. -/
def exchange (level turn : Nat) : Nat × Nat :=
  if level % 2 = 0 then (0, level) else (turn, level)

/-- The exchanges that run through the arrangements of the first `length` positions.
Before and after each of the `length - 1` exchanges that involve the last position, the
positions below it are run through. -/
def exchanges : Nat → List (Nat × Nat)
  | 0 => []
  | level + 1 =>
    exchanges level
      ++ (List.range level).flatMap fun turn => exchange level turn :: exchanges level

/-- The arrangements after each exchange, from an initial one, which is not listed
itself. -/
def arrangements (current : Array Nat) : List (Nat × Nat) → List (Array Nat)
  | [] => []
  | (left, right) :: rest =>
    let next := current.swapIfInBounds left right
    next :: arrangements next rest

/-- The permutations of the numbers below `length`, the identity excepted. -/
def permutations (length : Nat) : List (Array Nat) :=
  arrangements (Array.range length) (exchanges length)

/-- The exchanges of a level from a turn on, with those of the positions below it. -/
def exchangesFrom (level turn : Nat) : List (Nat × Nat) :=
  (List.range' turn (level - turn)).flatMap fun turn =>
    exchange level turn :: exchanges level

/-- A place in the enumeration. -/
structure Counters where
  /-- The turns that each level has taken since the last one above it. -/
  turns : Array Nat
  /-- The level that is considered next. -/
  level : Nat
  /-- The levels below have all their turns ahead of them. -/
  cleared : ∀ (lower : Nat) (inside : lower < turns.size), lower < level →
    turns[lower] = 0

namespace Counters

/-- No level has taken a turn. -/
def start (length : Nat) : Counters where
  turns := Array.replicate length 0
  level := 1
  cleared := by simp

variable (counters : Counters) (inside : counters.level < counters.turns.size)

/-- Take a turn and go back to the lowest level. -/
def turn (more : counters.turns[counters.level] < counters.level) : Counters where
  turns := counters.turns.set counters.level (counters.turns[counters.level] + 1) inside
  level := 1
  cleared lower inBounds below := by
    obtain rfl : lower = 0 := by omega
    rw [Array.getElem_set_ne _ _ (by omega)]
    exact counters.cleared 0 (by omega) (by omega)

/-- Give a level all its turns again and consider the one above it. -/
def climb : Counters where
  turns := counters.turns.set counters.level 0 inside
  level := counters.level + 1
  cleared lower inBounds below := by
    rw [Array.getElem_set]
    split
    · rfl
    · exact counters.cleared lower _ (by omega)

/-- The exchanges of the levels from `level` on, given the turns that these have
taken. -/
def exchangesAbove
    (turns : Array Nat)
    (level : Nat) : List (Nat × Nat) :=
  (List.range' level (turns.size - level)).flatMap fun level =>
    exchangesFrom level (turns.getD level 0)

/-- The exchanges that are ahead. -/
def exchangesLeft : List (Nat × Nat) :=
  exchangesAbove counters.turns counters.level

end Counters

theorem exchangesFrom_of_le
    {level turn : Nat}
    (done : level ≤ turn) :
    exchangesFrom level turn = [] := by
  rw [exchangesFrom, Nat.sub_eq_zero_of_le done, List.range'_zero, List.flatMap_nil]

theorem exchangesFrom_of_lt
    {level turn : Nat}
    (more : turn < level) :
    exchangesFrom level turn =
      exchange level turn :: exchanges level ++ exchangesFrom level (turn + 1) := by
  have split : level - turn = level - (turn + 1) + 1 := by omega
  rw [exchangesFrom, split, List.range'_succ, List.flatMap_cons, exchangesFrom]

theorem exchanges_succ_eq_append (level : Nat) :
    exchanges (level + 1) = exchanges level ++ exchangesFrom level 0 := by
  rw [exchanges, exchangesFrom, Nat.sub_zero, List.range_eq_range']

namespace Counters

theorem exchangesAbove_of_lt
    {turns : Array Nat}
    {level : Nat}
    (inside : level < turns.size) :
    exchangesAbove turns level =
      exchangesFrom level turns[level] ++ exchangesAbove turns (level + 1) := by
  have split : turns.size - level = turns.size - (level + 1) + 1 := by omega
  rw [exchangesAbove, split, List.range'_succ, List.flatMap_cons, exchangesAbove,
    Array.getD_eq_getD_getElem?, Array.getElem?_eq_getElem inside, Option.getD_some]

theorem exchangesAbove_of_le
    {turns : Array Nat}
    {level : Nat}
    (outside : turns.size ≤ level) :
    exchangesAbove turns level = [] := by
  rw [exchangesAbove, Nat.sub_eq_zero_of_le outside, List.range'_zero, List.flatMap_nil]

/-- What a lower level has done is not ahead. -/
theorem exchangesAbove_set
    {turns : Array Nat}
    {lower level count : Nat}
    (inside : lower < turns.size)
    (below : lower < level) :
    exchangesAbove (turns.set lower count inside) level =
      exchangesAbove turns level := by
  simp only [exchangesAbove, Array.size_set, List.flatMap_def]
  congr 1
  refine List.map_congr_left fun other member => ?_
  have above := (List.mem_range'_1.mp member).1
  rw [Array.getD_eq_getD_getElem?, Array.getElem?_set_ne inside (by omega),
    ← Array.getD_eq_getD_getElem?]

/-- Cleared levels have the whole enumeration of the positions below them ahead. -/
theorem exchangesAbove_one
    {turns : Array Nat}
    {level : Nat}
    (positive : 0 < level)
    (bounded : level ≤ turns.size)
    (cleared :
      ∀ (lower : Nat) (inside : lower < turns.size), lower < level → turns[lower] = 0) :
    exchangesAbove turns 1 = exchanges level ++ exchangesAbove turns level := by
  induction level with
  | zero => exact absurd positive (Nat.lt_irrefl 0)
  | succ level inductionHypothesis =>
      rcases Nat.eq_zero_or_pos level with rfl | positive
      · rfl
      · rw [inductionHypothesis positive (by omega) fun lower inside below =>
            cleared lower inside (by omega),
          exchangesAbove_of_lt (by omega), cleared level (by omega) (by omega),
          exchanges_succ_eq_append, List.append_assoc]

theorem exchangesLeft_start (length : Nat) :
    (start length).exchangesLeft = exchanges length := by
  rcases Nat.eq_zero_or_pos length with rfl | positive
  · rfl
  · have size : (Array.replicate length 0).size = length := Array.size_replicate
    have whole := exchangesAbove_one positive (Nat.le_of_eq size.symm) (by simp)
    rw [exchangesAbove_of_le (Nat.le_of_eq size), List.append_nil] at whole
    exact whole

theorem exchangesLeft_turn
    (counters : Counters)
    (inside : counters.level < counters.turns.size)
    (more : counters.turns[counters.level] < counters.level) :
    counters.exchangesLeft =
      exchange counters.level counters.turns[counters.level] ::
        (counters.turn inside more).exchangesLeft := by
  have later : (counters.turn inside more).exchangesLeft =
      exchanges counters.level ++
        exchangesAbove (counters.turn inside more).turns counters.level :=
    exchangesAbove_one (by omega) (by simp [turn]; omega) fun lower inBounds below => by
      simp only [turn] at inBounds ⊢
      rw [Array.getElem_set_ne _ _ (Nat.ne_of_gt below)]
      exact counters.cleared lower (by omega) below
  have same : counters.level < (counters.turn inside more).turns.size := by
    simp only [turn, Array.size_set, inside]
  rw [later, exchangesLeft, exchangesAbove_of_lt inside, exchangesFrom_of_lt more,
    exchangesAbove_of_lt same]
  simp only [turn, Array.getElem_set_self,
    exchangesAbove_set inside (Nat.lt_succ_self _), List.cons_append, List.append_assoc]

theorem exchangesLeft_climb
    (counters : Counters)
    (inside : counters.level < counters.turns.size)
    (done : ¬ counters.turns[counters.level] < counters.level) :
    (counters.climb inside).exchangesLeft = counters.exchangesLeft := by
  rw [exchangesLeft, exchangesLeft, exchangesAbove_of_lt inside,
    exchangesFrom_of_le (Nat.not_lt.mp done), List.nil_append]
  exact exchangesAbove_set inside (Nat.lt_succ_self _)

/-- A bound on the steps that are ahead. -/
def stepsLeft (counters : Counters) : Nat :=
  counters.exchangesLeft.length * (counters.turns.size + 1)
    + (counters.turns.size - counters.level)

theorem stepsLeft_turn
    (counters : Counters)
    (inside : counters.level < counters.turns.size)
    (more : counters.turns[counters.level] < counters.level) :
    (counters.turn inside more).stepsLeft < counters.stepsLeft := by
  have same : (counters.turn inside more).turns.size = counters.turns.size :=
    Array.size_set inside
  rw [stepsLeft, stepsLeft, exchangesLeft_turn counters inside more, List.length_cons,
    Nat.succ_mul, same]
  omega

theorem stepsLeft_climb
    (counters : Counters)
    (inside : counters.level < counters.turns.size)
    (done : ¬ counters.turns[counters.level] < counters.level) :
    (counters.climb inside).stepsLeft < counters.stepsLeft := by
  have same : (counters.climb inside).turns.size = counters.turns.size :=
    Array.size_set inside
  rw [stepsLeft, stepsLeft, exchangesLeft_climb counters inside done, same]
  exact Nat.add_lt_add_left (Nat.sub_succ_lt_self _ _ inside) _

end Counters

variable {ε σ : Type}

/-- Visit the arrangements that are ahead. The lowest level with a turn left takes it,
and the levels below begin again. -/
def sweep
    (visit : σ → Array Nat → Except ε σ)
    (current : Array Nat)
    (counters : Counters)
    (state : σ) : Except ε σ :=
  if inside : counters.level < counters.turns.size then
    if more : counters.turns[counters.level] < counters.level then
      let (left, right) := exchange counters.level counters.turns[counters.level]
      let next := current.swapIfInBounds left right
      match visit state next with
      | .ok state => sweep visit next (counters.turn inside more) state
      | .error failure => .error failure
    else sweep visit current (counters.climb inside) state
  else .ok state
termination_by counters.stepsLeft
decreasing_by
  · exact counters.stepsLeft_turn inside more
  · exact counters.stepsLeft_climb inside more

/-- Visit the permutations of the numbers below `length` in order, the identity
excepted. -/
def foldPermutations
    (visit : σ → Array Nat → Except ε σ)
    (length : Nat)
    (state : σ) :
    Except ε σ :=
  sweep visit (Array.range length) (.start length) state

/-- The visits are those of the arrangements after each exchange that is ahead. -/
theorem sweep_eq
    (visit : σ → Array Nat → Except ε σ)
    (current : Array Nat)
    (counters : Counters)
    (state : σ) :
    sweep visit current counters state =
      (arrangements current counters.exchangesLeft).foldlM visit state := by
  fun_induction sweep visit current counters state with
  | case1 current counters state inside more left right same next after visited
      inductionHypothesis =>
      rw [inductionHypothesis, counters.exchangesLeft_turn inside more, same,
        arrangements, List.foldlM_cons, visited]
      rfl
  | case2 current counters state inside more left right same next failure visited =>
      rw [counters.exchangesLeft_turn inside more, same, arrangements, List.foldlM_cons,
        visited]
      rfl
  | case3 current counters state inside done inductionHypothesis =>
      rw [inductionHypothesis, counters.exchangesLeft_climb inside done]
  | case4 current counters state outside =>
      rw [Counters.exchangesLeft, Counters.exchangesAbove_of_le (Nat.not_lt.mp outside)]
      rfl

/-- The visits are those of the listed permutations. -/
theorem foldPermutations_eq
    (visit : σ → Array Nat → Except ε σ)
    (length : Nat)
    (state : σ) :
    foldPermutations visit length state = (permutations length).foldlM visit state := by
  rw [foldPermutations, sweep_eq, Counters.exchangesLeft_start, permutations]

end Heap
end StateSpace
