/-!
# Executions

A system is given by its steps, each of which leaves some events behind. An
execution is any number of steps, with the events of all of them in order.
-/

namespace StateSpace

/-- Any number of steps one after the other, with the history of their events. -/
inductive Execution
    {System Event : Type}
    (step : System → List Event → System → Prop) :
    System → List Event → System → Prop
  | refl {system : System} : Execution step system [] system
  | step
      {first system next : System}
      {history events : List Event}
      (earlier : Execution step first history system)
      (last : step system events next) :
      Execution step first (history ++ events) next

namespace Execution

variable {System Event : Type} {step : System → List Event → System → Prop}

theorem single
    {system next : System}
    {events : List Event}
    (only : step system events next) :
    Execution step system events next :=
  .step .refl only

theorem trans
    {first middle last : System}
    {earlier later : List Event}
    (before : Execution step first earlier middle)
    (after : Execution step middle later last) :
    Execution step first (earlier ++ later) last := by
  induction after with
  | refl => simpa using before
  | step _ last inductionHypothesis =>
      rw [← List.append_assoc]
      exact .step inductionHypothesis last

/-- Where an execution has ended, the next one begins. -/
theorem resume
    {first last : System}
    {history : List Event}
    (_ : Execution step first history last) :
    Execution step last [] last :=
  .refl

/-- What holds of a system and its history and is kept by every step holds
throughout an execution. -/
theorem invariant
    (Holds : List Event → System → Prop)
    (kept : ∀ {history system events next}, step system events next →
      Holds history system → Holds (history ++ events) next)
    {first last : System}
    {history : List Event}
    (execution : Execution step first history last)
    (initially : Holds [] first) :
    Holds history last := by
  induction execution with
  | refl => exact initially
  | step _ last inductionHypothesis => exact kept last inductionHypothesis

end Execution
end StateSpace
