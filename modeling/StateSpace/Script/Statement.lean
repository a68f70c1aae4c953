import StateSpace.Script.Expr

/-!
# Statements

Statements change a block. A body runs its statements in order, and what was written
before a stop stays written.
-/

namespace StateSpace
namespace Script

/-- A statement. -/
inductive Statement where
  /-- Store an integer or a truth value in a scalar place. -/
  | set (target : Path) (value : Expr)
  /-- Store the member of a name in an enumeration. -/
  | member (target : Path) (name : String)
  /-- Store a value. -/
  | assign (target : Path) (value : Value)
  /-- Store the value of one place in another. -/
  | move (source target : Path)
  /-- Write bits. -/
  | raw (offset width value : Nat)
  | ite (condition : Expr) (yes no : List Statement)
  /-- Fail an assumption unless a condition is true. -/
  | assume (name : String) (condition : Expr)
  /-- Evaluate an expression for its faults. -/
  | eval (expr : Expr)
  /-- A fault of the model. -/
  | error (message : String)

variable {size : Nat}

/-- Look at the block being changed. -/
def looking
    {α : Type}
    (look : Block size → Except Stop α) : Update size α :=
  Update.inspect look

/-- Store the value of an expression in a scalar place. -/
def storeScalar
    (view : View)
    (value : Datum) : Update size Unit := do
  match view.ty with
  | .scalar .boolean => (⟨view.offset⟩ : BoolView).set (← value.toTruth)
  | .scalar (.range bounds) =>
    (⟨view.offset, bounds⟩ : RangeView).set (← value.toInteger)
  | .scalar (.enumeration members) =>
    (⟨view.offset, members⟩ : EnumView).set (← value.toInteger).toUInt64.toNat
  | _ => Update.fault (.model "expected scalar")

mutual

/-- Execute a statement. -/
def Statement.exec (env : Env) : Statement → Update size Unit
  | .set target value => do
    let view ← looking (target.resolve env)
    storeScalar view (← looking fun block => value.eval env block)
  | .member target name => do
    let view ← (← looking (target.resolve env)).toEnum
    view.setMember name
  | .assign target value => do
    (← looking (target.resolve env)).set value
  | .move source target => do
    let value ← looking fun block => do (← source.resolve env block).get block
    (← looking (target.resolve env)).set value
  | .raw offset width value => Update.write offset width value
  | .ite condition yes no => do
    if ← looking fun block => do (← condition.eval env block).toTruth then
      execAll env yes
    else execAll env no
  | .assume name condition => do
    if ← looking fun block => do (← condition.eval env block).toTruth then return ()
    else Update.fault (.assumption name)
  | .eval expr => do
    let _ ← looking fun block => expr.eval env block
  | .error message => Update.fault (.model message)

/-- Execute statements in order. -/
def execAll (env : Env) : List Statement → Update size Unit
  | [] => return ()
  | statement :: rest => do
    statement.exec env
    execAll env rest

end

end Script
end StateSpace
