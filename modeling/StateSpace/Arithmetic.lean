import StateSpace.Ty.Scalar

/-!
# Arithmetic of models

Models compute with 64-bit integers. An `OverflowPolicy` says what becomes of an exact
result that does not fit: a fault, or the integer that is left modulo `2 ^ 64`. Division
truncates, and a remainder has the sign of its dividend.

Bounded arithmetic combines a value of a range with a free integer on either side. The
free operand has to lie in the range, and so has the result.
-/

namespace StateSpace

/-- What becomes of a result that does not fit 64 bits. -/
inductive OverflowPolicy where
  /-- It is a fault. -/
  | trap
  /-- It is reduced modulo `2 ^ 64`. -/
  | wrap
  deriving DecidableEq, Repr

namespace OverflowPolicy

/-- The policy that traps exactly if overflow checks are on. -/
def ofChecks (checks : Bool) : OverflowPolicy :=
  if checks then trap else wrap

/-- Whether overflow checks are on. -/
def checks : OverflowPolicy → Bool
  | trap => true
  | wrap => false

/-- Whether an exact result fits 64 bits. -/
def fits (exact : Int) : Bool :=
  Int64.minValue.toInt ≤ exact && exact ≤ Int64.maxValue.toInt

/-- The result of an operation, judged by whether the integer `witness` fits. -/
def settle
    (policy : OverflowPolicy)
    (operation : String)
    (witness exact : Int) :
    Except Fault Int64 :=
  match policy with
  | trap =>
    if fits witness then .ok (Int64.ofInt exact) else .error (.overflow operation)
  | wrap => .ok (Int64.ofInt exact)

def add
    (policy : OverflowPolicy)
    (left right : Int64) : Except Fault Int64 :=
  let sum := left.toInt + right.toInt
  policy.settle "addition" sum sum

def sub
    (policy : OverflowPolicy)
    (left right : Int64) : Except Fault Int64 :=
  let difference := left.toInt - right.toInt
  policy.settle "subtraction" difference difference

def mul
    (policy : OverflowPolicy)
    (left right : Int64) : Except Fault Int64 :=
  let product := left.toInt * right.toInt
  policy.settle "multiplication" product product

/-- The truncated quotient. -/
def div
    (policy : OverflowPolicy)
    (left right : Int64) : Except Fault Int64 :=
  if right = 0 then .error (.divisionByZero "division")
  else
    let quotient := left.toInt.tdiv right.toInt
    policy.settle "division" quotient quotient

/-- The remainder of the truncated quotient. It overflows where the quotient does. -/
def rem
    (policy : OverflowPolicy)
    (left right : Int64) : Except Fault Int64 :=
  if right = 0 then .error (.divisionByZero "modulus")
  else policy.settle "modulus" (left.toInt.tdiv right.toInt)
    (left.toInt.tmod right.toInt)

def neg
    (policy : OverflowPolicy)
    (operand : Int64) : Except Fault Int64 :=
  policy.settle "negation" (-operand.toInt) (-operand.toInt)

end OverflowPolicy

/-- The binary operations on integers. -/
inductive ArithOp where
  | add
  | sub
  | mul
  | div
  | rem
  deriving DecidableEq, Repr

namespace ArithOp

/-- The operation as messages about bounds call it. -/
def name : ArithOp → String
  | add => "addition"
  | sub => "subtraction"
  | mul => "multiplication"
  | div => "division"
  | rem => "mod"

/-- Combine two integers. -/
def apply
    (op : ArithOp)
    (policy : OverflowPolicy)
    (left right : Int64) : Except Fault Int64 :=
  match op with
  | add => policy.add left right
  | sub => policy.sub left right
  | mul => policy.mul left right
  | div => policy.div left right
  | rem => policy.rem left right

end ArithOp

/-- The comparisons of integers. -/
inductive CmpOp where
  | lt
  | le
  | eq
  | ne
  | ge
  | gt
  deriving DecidableEq, Repr

namespace CmpOp

/-- The comparison as messages about bounds write it. -/
def symbol : CmpOp → String
  | lt => "<"
  | le => "<="
  | eq => "=="
  | ne => "!="
  | ge => ">="
  | gt => ">"

/-- Compare two integers. -/
def apply
    (op : CmpOp)
    (left right : Int64) : Bool :=
  match op with
  | lt => left < right
  | le => left ≤ right
  | eq => left == right
  | ne => left != right
  | ge => right ≤ left
  | gt => right < left

end CmpOp

/-- The side on which the free operand of a bounded operation stands. -/
inductive FreeSide where
  | right
  | left
  deriving DecidableEq, Repr

/-- The operands in order, from the bounded value and the free integer. -/
def FreeSide.arrange
    (side : FreeSide)
    (value free : Int64) : Int64 × Int64 :=
  match side with
  | right => (value, free)
  | left => (free, value)

namespace Bounds

/-- An integer that is stored in a place with these bounds. -/
def checkValue
    (bounds : Bounds)
    (value : Int64) : Except Fault Unit :=
  if bounds.contains value then .ok () else .error (.valueOutOfRange value.toInt)

/-- A free operand, which has to lie in the bounds of the value it is combined with. -/
def checkOperand
    (bounds : Bounds)
    (operation : String)
    (operand : Int64) : Except Fault Unit :=
  if bounds.contains operand then .ok ()
    else .error (.operandOutOfRange operand.toInt operation)

/-- Combine a value of the interval with a free integer. -/
def arith
    (bounds : Bounds)
    (policy : OverflowPolicy)
    (op : ArithOp)
    (side : FreeSide)
    (value free : Int64) : Except Fault Int64 := do
  bounds.checkOperand op.name free
  let (left, right) := side.arrange value free
  let result ← op.apply policy left right
  if bounds.contains result then return result else throw (.resultOutOfRange op.name)

/-- Compare a value of the interval with a free integer. -/
def cmp
    (bounds : Bounds)
    (op : CmpOp)
    (side : FreeSide)
    (value free : Int64) :
    Except Fault Bool := do
  bounds.checkOperand op.symbol free
  let (left, right) := side.arrange value free
  return op.apply left right

end Bounds

/-- An integer within bounds that no state stores. -/
structure RangeValue where
  bounds : Bounds
  value : Int64
  contained : bounds.contains value = true

namespace RangeValue

/-- The lower bound. -/
def ofBounds (bounds : Bounds) : RangeValue where
  bounds := bounds
  value := bounds.min
  contained := by simp [Bounds.contains, bounds.min_le_max]

/-- The same place holding another integer. -/
def set
    (place : RangeValue)
    (value : Int64) : Except Fault RangeValue :=
  if contained : place.bounds.contains value = true then
    .ok ⟨place.bounds, value, contained⟩
  else .error (.valueOutOfRange value.toInt)

/-- A place that holds the given integer. -/
def of?
    (bounds : Bounds)
    (value : Int64) : Except Fault RangeValue :=
  (ofBounds bounds).set value

/-- Combine the stored integer with a free one. -/
def arith
    (place : RangeValue)
    (policy : OverflowPolicy)
    (op : ArithOp)
    (side : FreeSide)
    (free : Int64) : Except Fault Int64 :=
  place.bounds.arith policy op side place.value free

/-- Compare the stored integer with a free one. -/
def cmp
    (place : RangeValue)
    (op : CmpOp)
    (side : FreeSide)
    (free : Int64) : Except Fault Bool :=
  place.bounds.cmp op side place.value free

/-- The stored integer in decimal digits. -/
def describe (place : RangeValue) : String :=
  toString place.value.toInt

end RangeValue
end StateSpace
