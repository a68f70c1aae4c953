/-!
# Machine words

Sizes, offsets and counts are natural numbers that have to fit 64 bits. Sums and
products that may leave that range are partial, and counts of values saturate at the
largest word.
-/

namespace StateSpace
namespace Word

/-- The first natural number that does not fit a word, the 64th power of two. -/
def limit : Nat := 0x10000000000000000

/-- The first number of bytes that is too large for one allocation, the 63rd power of
two. -/
def allocationLimit : Nat := 0x8000000000000000

/-- The sum of two words, when it is a word. -/
def add? (left right : Nat) : Option Nat :=
  if left + right < limit then some (left + right) else none

/-- The product of two words, when it is a word. -/
def mul? (left right : Nat) : Option Nat :=
  if left * right < limit then some (left * right) else none

/-- The nearest word to a natural number. -/
def saturate (value : Nat) : Nat :=
  min value (limit - 1)

/-- The nearest word to a power. An exponent beyond 64 adds nothing: a base of two or
more has left the range by then, and the powers of zero and one no longer change. -/
def saturatingPow (base exponent : Nat) : Nat :=
  saturate (Nat.pow base (min exponent 64))

theorem saturate_lt (value : Nat) : saturate value < limit := by
  unfold saturate limit; omega

theorem add?_eq_some {left right sum : Nat} :
    add? left right = some sum ↔ left + right = sum ∧ sum < limit := by
  unfold add?; split <;> simp <;> omega

theorem mul?_eq_some {left right product : Nat} :
    mul? left right = some product ↔ left * right = product ∧ product < limit := by
  unfold mul?
  split
  · simp only [Option.some.injEq]
    constructor
    · rintro rfl; exact ⟨rfl, by assumption⟩
    · exact fun h => h.1
  · simp only [reduceCtorEq, false_iff, not_and]
    rintro rfl; assumption

end Word
end StateSpace
