/-!
# Durations

A stretch of time in whole seconds and the nanoseconds beyond them.
-/

namespace StateSpace

/-- A stretch of time. -/
structure Duration where
  seconds : Nat
  /-- Fewer than a thousand million. -/
  nanoseconds : Nat
  deriving DecidableEq, Repr

namespace Duration

/-- No time at all. -/
def zero : Duration :=
  ⟨0, 0⟩

/-- The duration of a number of milliseconds. -/
def ofMilliseconds (milliseconds : Nat) : Duration :=
  ⟨milliseconds / 1000, milliseconds % 1000 * 1000000⟩

end Duration
end StateSpace
