import StateSpace.Model
import StateSpace.Script.Declaration
import StateSpace.Script.Statement

/-!
# Scripted models

A script describes a whole model: its variables, its start states and rules, its
properties and its symmetry. The layout is built first, then the symmetry, then the
model.
-/

namespace StateSpace
namespace Script

/-- The variable of a quantified declaration and its values. -/
structure Quantifier where
  name : String
  low : Int64
  high : Int64

/-- The description of a start state, or of one for each value of a variable. -/
structure StartSpec where
  name : String
  body : List Statement
  quantifier : Option Quantifier

/-- The description of a rule, or of one for each value of a variable. -/
structure RuleSpec where
  name : String
  guard : Expr
  body : List Statement
  quantifier : Option Quantifier

/-- The description of an invariant or an assumption. -/
structure PropertySpec where
  name : String
  check : Expr

/-- The description of a place that depends on the symmetric domain. -/
inductive SymmetryPart where
  | array (path : Path)
  | member (path : Path)

/-- The description of a canonicalizer. -/
inductive SymmetrySpec where
  | permutation (size : Nat) (parts : List SymmetryPart)
  /-- The canonicalizer that writes fixed bits. -/
  | write (offset width value : Nat)

/-- The description of a model. -/
structure ModelSpec where
  declarations : List VariableSpec
  startStates : List StartSpec
  rules : List RuleSpec
  invariants : List PropertySpec
  assumptions : List PropertySpec
  symmetry : Option SymmetrySpec

/-- Why a description gives no model. -/
inductive BuildError where
  | layout (error : LayoutError)
  | check (error : CheckError)
  | stop (stop : Stop)

/-- The action of a body. -/
def bodyAction
    (layout : Layout)
    (body : List Statement)
    (quantified : Int64) :
    Action layout.bytes := fun policy =>
  execAll { layout, policy, quantified } body

/-- The predicate of a condition. -/
def conditionPredicate
    (layout : Layout)
    (condition : Expr)
    (quantified : Int64) :
    Predicate layout.bytes := fun policy block => do
  (← condition.eval { layout, policy, quantified } block).toTruth

/-- The described start states. -/
def StartSpec.build
    (layout : Layout)
    (spec : StartSpec) : List (StartState layout.bytes) :=
  let init := bodyAction layout spec.body
  match spec.quantifier with
  | some bound => StartState.family spec.name bound.name bound.low bound.high init
  | none => [⟨spec.name, init 0⟩]

/-- The described rules. -/
def RuleSpec.build
    (layout : Layout)
    (spec : RuleSpec) : List (Rule layout.bytes) :=
  let guard := conditionPredicate layout spec.guard
  let body := bodyAction layout spec.body
  match spec.quantifier with
  | some bound => Rule.family spec.name bound.name bound.low bound.high guard body
  | none => [⟨spec.name, guard 0, body 0⟩]

/-- The described property. -/
def PropertySpec.build
    (layout : Layout)
    (spec : PropertySpec) : Property layout.bytes :=
  ⟨spec.name, conditionPredicate layout spec.check 0⟩

/-- Add a described place to a symmetry. Its path is resolved without a state to read. -/
def SymmetryPart.addTo
    (layout : Layout)
    (symmetry : PermutationSymmetry) :
    SymmetryPart → Except BuildError PermutationSymmetry
  | array path => do
    let view ← (resolve path).mapError .stop
    let view ← view.toArray.mapError fun fault => .stop (.fault fault)
    (symmetry.permuteArray view).mapError .layout
  | member path => do
    let view ← (resolve path).mapError .stop
    (symmetry.rename view).mapError .layout
where
  resolve (path : Path) : Except Stop View :=
    path.resolve { layout, policy := .trap } (Block.zero 0)

/-- The symmetry of the described places. -/
def buildSymmetry
    (layout : Layout)
    (size : Nat)
    (parts : List SymmetryPart) :
    Except BuildError PermutationSymmetry :=
  parts.foldlM (SymmetryPart.addTo layout) (.ofSize size)

/-- The described canonicalizer. -/
def SymmetrySpec.build (layout : Layout) :
    SymmetrySpec → Except BuildError (Canonicalizer layout.bytes)
  | permutation size parts => return (← buildSymmetry layout size parts).canonicalize
  | write offset width value => return fun block => block.write offset width value

/-- The described model over a layout. -/
def ModelSpec.buildOver
    (layout : Layout)
    (spec : ModelSpec) : Except BuildError (Model layout) := do
  let canonicalizer ← spec.symmetry.mapM (SymmetrySpec.build layout)
  (Model.of? (spec.startStates.flatMap (StartSpec.build layout))
    (spec.rules.flatMap (RuleSpec.build layout))
      (spec.invariants.map (PropertySpec.build layout))
    (spec.assumptions.map (PropertySpec.build layout)) canonicalizer).mapError .check

/-- The described model with its layout. -/
def ModelSpec.build (spec : ModelSpec) :
    Except BuildError ((layout : Layout) × Model layout) := do
  let layout ← (buildLayout spec.declarations).mapError .layout
  return ⟨layout, ← spec.buildOver layout⟩

end Script
end StateSpace
