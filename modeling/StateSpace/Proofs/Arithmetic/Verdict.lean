import StateSpace.Proofs.View.Reading

/-!
# What becomes of a bounded operation

A bounded operation is judged by exact arithmetic on integers, where division
truncates. The verdict makes four checks in turn: the free operand lies within
the bounds, the divisor is not zero, the exact result is a signed word, and the
result lies within the bounds. Without overflow checks the third one is left
out, and the result is reduced to a signed word before the fourth.
-/

namespace StateSpace

/-- An integer of 64 bits. -/
def SignedWord (value : Int) : Prop :=
  -2 ^ 63 ≤ value ∧ value < 2 ^ 63

instance (value : Int) : Decidable (SignedWord value) :=
  inferInstanceAs (Decidable (_ ∧ _))

namespace ArithOp

/-- The exact result of an operation. -/
def exact : ArithOp → Int → Int → Int
  | add, left, right => left + right
  | sub, left, right => left - right
  | mul, left, right => left * right
  | div, left, right => left.tdiv right
  | rem, left, right => left.tmod right

/-- Whether the right operand is a divisor. -/
def divides : ArithOp → Bool
  | div | rem => true
  | add | sub | mul => false

/-- The operation as overflows and divisions by zero call it. -/
def operation : ArithOp → String
  | add => "addition"
  | sub => "subtraction"
  | mul => "multiplication"
  | div => "division"
  | rem => "modulus"

/-- An operation overflows if its exact result is no signed word. The remainder
of the least signed word by minus one, which is zero, counts as overflow too. -/
def Overflows
    (op : ArithOp)
    (left right : Int) : Prop :=
  ¬ SignedWord (op.exact left right) ∨ op = rem ∧ left = -2 ^ 63 ∧ right = -1

instance (op : ArithOp) (left right : Int) : Decidable (op.Overflows left right) :=
  inferInstanceAs (Decidable (_ ∨ _))

end ArithOp

/-- The result that a policy goes on with. -/
def OverflowPolicy.reduce : OverflowPolicy → Int → Int
  | trap, exact => exact
  | wrap, exact => exact.bmod (2 ^ 64)

namespace Bounds

/-- An integer within the bounds. -/
def Holds
    (bounds : Bounds)
    (value : Int) : Prop :=
  bounds.min.toInt ≤ value ∧ value ≤ bounds.max.toInt

instance (bounds : Bounds) (value : Int) : Decidable (bounds.Holds value) :=
  inferInstanceAs (Decidable (_ ∧ _))

/-- What becomes of an operation one of whose operands is free. -/
def verdict
    (bounds : Bounds)
    (policy : OverflowPolicy)
    (op : ArithOp)
    (free left right : Int) : Except Fault Int :=
  let result := policy.reduce (op.exact left right)
  if ¬ bounds.Holds free then .error (.operandOutOfRange free op.name)
  else if op.divides ∧ right = 0 then .error (.divisionByZero op.operation)
  else if policy = .trap ∧ op.Overflows left right then .error (.overflow op.operation)
  else if ¬ bounds.Holds result then .error (.resultOutOfRange op.name)
  else .ok result

end Bounds

/-! ## Results that are signed words -/

theorem signedWord_toInt (value : Int64) : SignedWord value.toInt :=
  ⟨value.le_toInt, value.toInt_lt⟩

theorem OverflowPolicy.fits_iff
    {exact : Int} :
    OverflowPolicy.fits exact = true ↔ SignedWord exact := by
  have least : Int64.minValue.toInt = -2 ^ 63 := rfl
  have greatest : Int64.maxValue.toInt = 2 ^ 63 - 1 := rfl
  simp only [fits, Bool.and_eq_true, decide_eq_true_eq, SignedWord, least, greatest]
  omega

theorem bmod_signedWord
    {exact : Int}
    (signed : SignedWord exact) :
    exact.bmod (2 ^ 64) = exact := by
  unfold SignedWord at signed
  exact Int.bmod_eq_of_le (by omega) (by omega)

/-- The truncated quotient of signed words is one, but for one pair of
operands. -/
theorem signedWord_tdiv
    {left right : Int}
    (signed : SignedWord left)
    (nonzero : right ≠ 0) :
    SignedWord (left.tdiv right) ↔ ¬ (left = -2 ^ 63 ∧ right = -1) := by
  have magnitude : (left.tdiv right).natAbs = left.natAbs / right.natAbs :=
    Int.natAbs_tdiv left right
  unfold SignedWord at signed ⊢
  by_cases unit : right = -1
  · subst unit
    rw [Int.tdiv_neg, Int.tdiv_one]
    omega
  · by_cases one : right = 1
    · subst one
      rw [Int.tdiv_one]
      omega
    · have halved : left.natAbs / right.natAbs ≤ left.natAbs / 2 :=
        Nat.div_le_div_left (by omega) (by decide)
      omega

/-- A remainder by a signed word is always one. -/
theorem signedWord_tmod
    {left right : Int}
    (divisorSigned : SignedWord right)
    (nonzero : right ≠ 0) :
    SignedWord (left.tmod right) := by
  have magnitude : (left.tmod right).natAbs = left.natAbs % right.natAbs :=
    Int.natAbs_tmod left right
  have below : left.natAbs % right.natAbs < right.natAbs := Nat.mod_lt _ (by omega)
  unfold SignedWord at divisorSigned ⊢
  omega

/-! ## Exact results of the operations -/

/-- A settled result is the reduced exact one, if the checked integer does not
miss an overflow. -/
theorem OverflowPolicy.settle_toInt
    (policy : OverflowPolicy)
    (operation : String)
    {witness exact : Int}
    (sound : SignedWord witness → SignedWord exact) :
    (policy.settle operation witness exact).map Int64.toInt =
      if policy = .trap ∧ ¬ SignedWord witness then .error (.overflow operation)
      else .ok (policy.reduce exact) := by
  cases policy with
  | trap =>
      by_cases signed : SignedWord witness
      · have kept : (Int64.ofInt exact).toInt = exact := by
          rw [Int64.toInt_ofInt]
          exact bmod_signedWord (sound signed)
        rw [settle, if_pos (fits_iff.mpr signed), if_neg (by simp [signed])]
        exact congrArg Except.ok kept
      · rw [settle, if_neg (mt fits_iff.mp signed), if_pos ⟨rfl, signed⟩]
        rfl
  | wrap =>
      rw [if_neg (by simp)]
      exact congrArg Except.ok Int64.toInt_ofInt

namespace ArithOp

section Operation

variable
  {op : ArithOp}
  {left right : Int64}

/-- The integer by which an operation is checked for overflow: its result, but
for the remainder the quotient. -/
def checked : ArithOp → Int → Int → Int
  | rem, left, right => left.tdiv right
  | add, left, right => add.exact left right
  | sub, left, right => sub.exact left right
  | mul, left, right => mul.exact left right
  | div, left, right => div.exact left right

theorem apply_zero
    (policy : OverflowPolicy)
    (divides : op.divides = true) :
    op.apply policy left 0 = .error (.divisionByZero op.operation) := by
  cases op with
  | add | sub | mul => cases divides
  | div | rem => rfl

theorem apply_eq_settle
    (policy : OverflowPolicy)
    (defined : ¬ (op.divides = true ∧ right = 0)) :
    op.apply policy left right =
      policy.settle op.operation (op.checked left.toInt right.toInt)
        (op.exact left.toInt right.toInt) := by
  cases op with
  | add | sub | mul => rfl
  | div | rem => exact if_neg fun zero => defined ⟨rfl, zero⟩

/-- An operation on signed words overflows exactly if the integer by which it is
checked is no signed word. -/
theorem overflows_iff
    (defined : ¬ (op.divides = true ∧ right = 0)) :
    op.Overflows left.toInt right.toInt ↔
      ¬ SignedWord (op.checked left.toInt right.toInt) := by
  cases op with
  | add | sub | mul | div => simp [Overflows, checked]
  | rem =>
      have nonzero : right.toInt ≠ 0 :=
        fun zero => defined ⟨rfl, Int64.toInt_inj.mp zero⟩
      have remainder : SignedWord (left.toInt.tmod right.toInt) :=
        signedWord_tmod (signedWord_toInt right) nonzero
      rw [checked, signedWord_tdiv (signedWord_toInt left) nonzero, not_not]
      simp [Overflows, exact, remainder]

/-- An operation gives its exact result, reduced as the policy says, unless it
divides by zero or overflows. -/
theorem apply_toInt
    (op : ArithOp)
    (policy : OverflowPolicy)
    (left right : Int64) :
    (op.apply policy left right).map Int64.toInt =
      if op.divides = true ∧ right.toInt = 0 then .error (.divisionByZero op.operation)
      else if policy = .trap ∧ op.Overflows left.toInt right.toInt then
        .error (.overflow op.operation)
      else .ok (policy.reduce (op.exact left.toInt right.toInt)) := by
  have zero : right.toInt = 0 ↔ right = 0 := Int64.toInt_inj (y := 0)
  simp only [zero]
  by_cases undefined : op.divides = true ∧ right = 0
  · rw [if_pos undefined, undefined.2, apply_zero policy undefined.1]
    rfl
  · have sound : SignedWord (op.checked left.toInt right.toInt) →
        SignedWord (op.exact left.toInt right.toInt) := fun signed => by
      by_contra large
      exact (overflows_iff undefined).mp (.inl large) signed
    rw [if_neg undefined, apply_eq_settle policy undefined, policy.settle_toInt _ sound]
    simp only [overflows_iff undefined]

end Operation

end ArithOp

/-! ## The verdict -/

theorem map_toInt_injective :
    Function.Injective (Except.map Int64.toInt : Except Fault Int64 →
      Except Fault Int) := by
  intro first second same
  cases first with
  | error fault =>
      cases second with
      | error other => exact congrArg Except.error (Except.error.inj same)
      | ok value => cases same
  | ok value =>
      cases second with
      | error other => cases same
      | ok other => exact congrArg Except.ok (Int64.toInt_inj.mp (Except.ok.inj same))

namespace Bounds

variable {bounds : Bounds}

theorem contains_iff_holds
    {value : Int64} :
    bounds.contains value = true ↔ bounds.Holds value.toInt :=
  contains_iff

/-- The check of a result is one of the integer that it stands for. -/
theorem map_toInt_check
    (bounds : Bounds)
    (op : ArithOp)
    (attempt : Except Fault Int64) :
    (attempt >>= fun result =>
        if bounds.contains result then return result
        else throw (.resultOutOfRange op.name)).map Int64.toInt =
      attempt.map Int64.toInt >>= fun result =>
        if ¬ bounds.Holds result then throw (.resultOutOfRange op.name)
          else return result := by
  cases attempt with
  | error fault => rfl
  | ok result =>
      change Except.map Int64.toInt
        (if bounds.contains result then .ok result else .error _) =
        if ¬ bounds.Holds result.toInt then .error _ else .ok result.toInt
      by_cases holds : bounds.Holds result.toInt
      · rw [if_pos (contains_iff_holds.mpr holds), if_neg (not_not.mpr holds)]
        rfl
      · rw [if_neg (mt contains_iff_holds.mp holds), if_pos holds]
        rfl

/-- Bounded arithmetic comes to the verdict on its operands. -/
theorem arith_toInt
    (bounds : Bounds)
    (policy : OverflowPolicy)
    (op : ArithOp)
    (side : FreeSide)
    (value free : Int64) :
    (bounds.arith policy op side value free).map Int64.toInt =
      bounds.verdict policy op free.toInt (side.arrange value free).1.toInt
        (side.arrange value free).2.toInt := by
  unfold arith checkOperand verdict
  by_cases holds : bounds.Holds free.toInt
  · rw [if_pos (contains_iff_holds.mpr holds), if_neg (not_not.mpr holds)]
    refine (map_toInt_check bounds op
      (op.apply policy (side.arrange value free).1 (side.arrange value free).2)).trans ?_
    rw [ArithOp.apply_toInt]
    by_cases zero : op.divides = true ∧ (side.arrange value free).2.toInt = 0
    · rw [if_pos zero, if_pos zero]
      rfl
    · rw [if_neg zero, if_neg zero]
      split
      · rfl
      · rfl
  · rw [if_neg (mt contains_iff_holds.mp holds), if_pos holds]
    rfl

section Verdict

variable
  {op : ArithOp}
  {free left right : Int}

/-- Accepted results lie within the bounds. -/
theorem holds_of_verdict
    {policy : OverflowPolicy}
    {result : Int}
    (accepted : bounds.verdict policy op free left right = .ok result) :
    bounds.Holds result := by
  unfold verdict at accepted
  dsimp only at accepted
  split_ifs at accepted with _ _ _ inside
  cases accepted
  exact inside

theorem verdict_wrap_ne_overflow (name : String) :
    bounds.verdict .wrap op free left right ≠ .error (.overflow name) := by
  unfold verdict
  dsimp only
  split_ifs <;> simp_all [Fault.operandOutOfRange, Fault.resultOutOfRange]

/-- Without overflow checks only the verdict on an overflow is another one. -/
theorem verdict_wrap
    (bounds : Bounds)
    (op : ArithOp)
    (free left right : Int) :
    bounds.verdict .trap op free left right = .error (.overflow op.operation) ∨
      bounds.verdict .wrap op free left right =
        bounds.verdict .trap op free left right := by
  unfold verdict
  by_cases large : op.Overflows left right
  · simp only [large]
    split_ifs <;> simp_all
  · have signed : SignedWord (op.exact left right) := by
      by_contra unsigned
      exact large (.inl unsigned)
    have same : OverflowPolicy.wrap.reduce (op.exact left right) =
        OverflowPolicy.trap.reduce (op.exact left right) := bmod_signedWord signed
    rw [same]
    simp only [large, and_false, if_false, or_true]

end Verdict

end Bounds

/-! ## Stored operands -/

namespace RangeView

variable
  {size : Nat}
  {place : RangeView}
  {block : Block size}

/-- The stored operand is what the bits stand for, if that is within the
bounds. -/
theorem operand_eq
    (window : HasWindow size place.offset place.bounds.width) :
    place.operand block =
      if block.extract place.offset place.bounds.width ≤ place.bounds.span then
        .ok (place.bounds.decode (block.extract place.offset place.bounds.width))
      else
        .error (.fault (.valueOutOfRange (place.bounds.decode
          (block.extract place.offset place.bounds.width)).toInt)) := by
  have narrow := place.bounds.width_le
  have small : block.extract place.offset place.bounds.width < Word.limit :=
    @Scalar.lt_limit (.range place.bounds) narrow _ (block.extract_lt _ _)
  have contains := @Bounds.contains_decode place.bounds _ small
  rw [operand, get, block.read_window window narrow]
  change (do
    place.bounds.checkValue (place.bounds.decode (block.extract _ _))
    return place.bounds.decode (block.extract _ _) : Except Stop Int64) = _
  rw [Bounds.checkValue]
  by_cases inside : block.extract place.offset place.bounds.width ≤ place.bounds.span
  · rw [if_pos (contains.mpr inside), if_pos inside]
    rfl
  · rw [if_neg (mt contains.mp inside), if_neg inside]
    rfl

theorem arith_of_operand
    {value : Int64}
    (found : place.operand block = .ok value)
    (policy : OverflowPolicy)
    (op : ArithOp)
    (side : FreeSide)
    (free : Int64) :
    place.arith policy block op side free =
      (place.bounds.arith policy op side value free).mapError .fault := by
  rw [arith, found]
  rfl

theorem arith_of_refused
    {stop : Stop}
    (refused : place.operand block = .error stop)
    (policy : OverflowPolicy)
    (op : ArithOp)
    (side : FreeSide)
    (free : Int64) :
    place.arith policy block op side free = .error stop := by
  rw [arith, refused]
  rfl

end RangeView

/-- Bounded arithmetic comes to its verdict, whose accepted results lie within
the bounds, and which overflow checks change only where there is an overflow.
The place of a number gives what the number gives, and a place that holds none
refuses every operation. -/
theorem RangeValue.arith_verdict
    (stored : RangeValue)
    (op : ArithOp)
    (side : FreeSide)
    (free : Int64) :
    (∀ policy, (stored.arith policy op side free).map Int64.toInt =
      stored.bounds.verdict policy op free.toInt (side.arrange stored.value free).1.toInt
        (side.arrange stored.value free).2.toInt) ∧
    (∀ policy result, stored.arith policy op side free = .ok result →
      stored.bounds.contains result = true) ∧
    (∀ name, stored.arith .wrap op side free ≠ .error (.overflow name)) ∧
    (stored.arith .trap op side free = .error (.overflow op.operation) ∨
      stored.arith .wrap op side free = stored.arith .trap op side free) ∧
    ∀ size (block : Block size) (place : RangeView), place.bounds = stored.bounds →
      HasWindow size place.offset place.bounds.width →
      ∀ number, block.extract place.offset place.bounds.width = number →
        (number = (stored.value.toInt - stored.bounds.min.toInt).toNat →
          ∀ policy, place.arith policy block op side free =
            (stored.arith policy op side free).mapError .fault) ∧
        (stored.bounds.span < number →
          ∀ policy, place.arith policy block op side free =
            .error (.fault (.valueOutOfRange (stored.bounds.decode number).toInt))) := by
  have verdict (policy : OverflowPolicy) :=
    stored.bounds.arith_toInt policy op side stored.value free
  refine ⟨verdict, fun policy result accepted => ?_, fun name overflow => ?_, ?_, ?_⟩
  · refine Bounds.contains_iff_holds.mpr
      (Bounds.holds_of_verdict ((verdict policy).symm.trans ?_))
    exact congrArg (Except.map Int64.toInt) accepted
  · refine Bounds.verdict_wrap_ne_overflow name ((verdict .wrap).symm.trans ?_)
    exact congrArg (Except.map Int64.toInt) overflow
  · rcases Bounds.verdict_wrap stored.bounds op free.toInt _ _ with overflow | same
    · exact .inl (map_toInt_injective ((verdict .trap).trans overflow))
    · exact .inr
        (map_toInt_injective ((verdict .wrap).trans (same.trans (verdict .trap).symm)))
  · rintro size block ⟨offset, bounds⟩ rfl window number rfl
    have operand := @RangeView.operand_eq size ⟨offset, stored.bounds⟩ block window
    dsimp only at operand ⊢
    refine ⟨fun holds policy => ?_, fun above policy => ?_⟩
    · obtain ⟨low, high⟩ := Bounds.contains_iff.mp stored.contained
      have span := stored.bounds.toInt_span
      rw [if_pos (by omega), holds, Bounds.decode_distance stored.contained] at operand
      exact RangeView.arith_of_operand operand policy op side free
    · rw [if_neg (by omega)] at operand
      exact RangeView.arith_of_refused operand policy op side free

namespace Depth

theorem bounds_ordered : Int64.minValue ≤ 0 := by
  decide

/-- Depths below a surface, down to the least integer of 64 bits. -/
def bounds : Bounds :=
  ⟨Int64.minValue, 0, bounds_ordered⟩

/-- The place of a depth in a block of eight bytes. -/
def place : RangeView :=
  ⟨0, bounds⟩

/-- The greatest depth, which a clear block holds. -/
def bottom : RangeValue :=
  ⟨bounds, Int64.minValue, by decide⟩

/-- The remainder of the greatest depth by minus one is an overflow if there are
checks, and zero if there are none. A block without a clear bit holds no
depth. -/
theorem arith_verdict_bottom :
    (bottom.arith .wrap .rem .right (-1)).map Int64.toInt = .ok 0 ∧
    place.arith .trap (.zero 8) .rem .right (-1) =
      .error (.fault (.overflow "modulus")) ∧
    place.arith .wrap (⟨.allOnes 64⟩ : Block 8) .rem .right (-1) =
      .error (.fault (.valueOutOfRange (2 ^ 63 - 1))) := by
  obtain ⟨verdict, -, -, -, places⟩ := RangeValue.arith_verdict bottom .rem .right (-1)
  have window : HasWindow 8 place.offset place.bounds.width :=
    Fits.window ⟨by decide, by decide⟩
  refine ⟨verdict .wrap, ?_, ?_⟩
  · exact (places 8 (.zero 8) place rfl window 0 rfl).1 rfl .trap
  · exact (places 8 ⟨.allOnes 64⟩ place rfl window (2 ^ 64 - 1) rfl).2 (by decide) .wrap

end Depth

end StateSpace
