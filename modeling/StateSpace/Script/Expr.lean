import StateSpace.View.Basic

/-!
# Expressions

Expressions of a script give an integer or a truth value. They read the variables of a
block through views and never change it. Evaluation goes from left to right and ends at
the first stop.
-/

namespace StateSpace
namespace Script

mutual

/-- A step from a value to one of its parts. -/
inductive Segment where
  | field (name : String)
  /-- The element for an index that is computed. -/
  | index (index : Expr)
  /-- The element at a fixed position. -/
  | position (position : Nat)

/-- An expression. Paths are the name of a variable with the steps that lead on from
it. -/
inductive Expr where
  | integer (value : Int64)
  | truth (value : Bool)
  /-- The value of the quantified variable. -/
  | quantified
  | get (root : String) (segments : List Segment)
  | arith (op : ArithOp) (left right : Expr)
  | neg (operand : Expr)
  | cmp (op : CmpOp) (left right : Expr)
  | not (operand : Expr)
  | all (operands : List Expr)
  | any (operands : List Expr)
  | ite (condition yes no : Expr)
  /-- Arithmetic on a range variable, within its bounds. -/
  | rangeArith (root : String) (segments : List Segment) (side : FreeSide) (op : ArithOp)
    (free : Expr)
  /-- Comparison of a range variable, within its bounds. -/
  | rangeCmp (root : String) (segments : List Segment) (side : FreeSide) (op : CmpOp)
    (free : Expr)
  /-- Whether an enumeration variable holds a member. -/
  | is (root : String) (segments : List Segment) (member : String)
  /-- Whether two places hold the same value. -/
  | same (left : String) (leftSegments : List Segment) (right : String)
    (rightSegments : List Segment)
  /-- A fault of the model. -/
  | fault (message : String)
  /-- A failed assumption. -/
  | infeasible (name : String)

end

/-- What an expression evaluates to. -/
inductive Datum where
  | integer (value : Int64)
  | truth (value : Bool)

/-- The integer that is needed, or the fault that there is none. -/
def Datum.toInteger : Datum → Except Stop Int64
  | integer value => .ok value
  | truth _ => .error (.fault (.model "expected integer"))

/-- The truth value that is needed, or the fault that there is none. -/
def Datum.toTruth : Datum → Except Stop Bool
  | truth value => .ok value
  | integer _ => .error (.fault (.model "expected boolean expression"))

/-- What expressions are evaluated with. -/
structure Env where
  layout : Layout
  policy : OverflowPolicy
  /-- The value of the quantified variable, zero where none is bound. -/
  quantified : Int64 := 0

/-- The view of a variable, or the fault that there is none. -/
def Env.place
    (env : Env)
    (name : String) : Except Stop View :=
  match env.layout.view? name with
  | some view => .ok view
  | none => .error (.fault (.model ("no variable " ++ name)))

variable {size : Nat}

/-- The scalar in a place as an integer or a truth value. -/
def loadScalar
    (view : View)
    (block : Block size) : Except Stop Datum := do
  match view.ty with
  | .scalar .boolean => return .truth (← (⟨view.offset⟩ : BoolView).get block)
  | .scalar (.range bounds) =>
    return .integer (← (⟨view.offset, bounds⟩ : RangeView).get block)
  | .scalar (.enumeration members) =>
    return .integer (Int64.ofNat (← (⟨view.offset, members⟩ : EnumView).get block))
  | _ => throw (.fault (.model "expected scalar"))

mutual

/-- Evaluate an expression. -/
def Expr.eval
    (env : Env)
    (block : Block size) : Expr → Except Stop Datum
  | .integer value => return .integer value
  | .truth value => return .truth value
  | .quantified => return .integer env.quantified
  | .get root segments => do
    loadScalar (← follow env block (← env.place root) segments) block
  | .arith op left right => do
    let left ← (← left.eval env block).toInteger
    let right ← (← right.eval env block).toInteger
    return .integer (← op.apply env.policy left right)
  | .neg operand => do
    let operand ← (← operand.eval env block).toInteger
    return .integer (← env.policy.neg operand)
  | .cmp op left right => do
    let left ← (← left.eval env block).toInteger
    let right ← (← right.eval env block).toInteger
    return .truth (op.apply left right)
  | .not operand => return .truth !(← (← operand.eval env block).toTruth)
  | .all operands => return .truth (← evalAll env block operands)
  | .any operands => return .truth (← evalAny env block operands)
  | .ite condition yes no => do
    if ← (← condition.eval env block).toTruth then yes.eval env block
      else no.eval env block
  | .rangeArith root segments side op free => do
    let view ← (← follow env block (← env.place root) segments).toRange
    let free ← (← free.eval env block).toInteger
    return .integer (← view.arith env.policy block op side free)
  | .rangeCmp root segments side op free => do
    let view ← (← follow env block (← env.place root) segments).toRange
    let free ← (← free.eval env block).toInteger
    return .truth (← view.cmp block op side free)
  | .is root segments member => do
    let view ← (← follow env block (← env.place root) segments).toEnum
    return .truth (← view.is block member)
  | .same left leftSegments right rightSegments => do
    let left ← (← follow env block (← env.place left) leftSegments).get block
    let right ← (← follow env block (← env.place right) rightSegments).get block
    return .truth (left == right)
  | .fault message => throw (.fault (.model message))
  | .infeasible name => throw (.fault (.assumption name))

/-- The view that a list of steps leads to. -/
def follow
    (env : Env)
    (block : Block size)
    (view : View) : List Segment → Except Stop View
  | [] => return view
  | .field name :: rest => do
    let record ← view.toRecord
    follow env block (← record.field? name) rest
  | .index index :: rest => do
    let index ← (← index.eval env block).toInteger
    let array ← view.toArray
    follow env block (← array.at? index) rest
  | .position position :: rest => do
    let array ← view.toArray
    follow env block (← array.element? position) rest

/-- Whether all operands are true, asking no further than the first that is not. -/
def evalAll
    (env : Env)
    (block : Block size) : List Expr → Except Stop Bool
  | [] => return true
  | operand :: rest => do
    if ← (← operand.eval env block).toTruth then evalAll env block rest else return false

/-- Whether some operand is true, asking no further than the first that is. -/
def evalAny
    (env : Env)
    (block : Block size) : List Expr → Except Stop Bool
  | [] => return false
  | operand :: rest => do
    if ← (← operand.eval env block).toTruth then return true else evalAny env block rest

end

/-- A variable with the steps that lead on from it. -/
structure Path where
  root : String
  segments : List Segment

/-- The view that a path leads to. -/
def Path.resolve
    (env : Env)
    (block : Block size)
    (path : Path) : Except Stop View := do
  follow env block (← env.place path.root) path.segments

end Script
end StateSpace
