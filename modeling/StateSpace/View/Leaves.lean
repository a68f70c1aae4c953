import StateSpace.View.Basic

/-!
# Leaves

The leaves of a value are its scalars, each with the path that leads to it: `a[2].f` is
field `f` of the element of `a` for index 2. A report shows a state as the leaves of its
variables.
-/

namespace StateSpace

variable {size : Nat}

/-- A path to a scalar and the text of the scalar there. -/
abbrev Leaf : Type :=
  String × String

/-- The text of the stored scalar. Bits that stand for no member of an enumeration are
shown as such. -/
def Scalar.render
    (block : Block size)
    (offset : Nat) : Scalar → Except Breach String
  | boolean => return if ← (⟨offset⟩ : BoolView).get block then "true" else "false"
  | range bounds => return toString (← (⟨offset, bounds⟩ : RangeView).get block).toInt
  | enumeration members => do
    let ordinal ← (⟨offset, members⟩ : EnumView).get block
    return (members.member? ordinal).getD ("<invalid " ++ toString ordinal ++ ">")

/-- The results of attempts at `count` positions from `first` on, behind those already
found. -/
def eachFrom
    {ε α : Type}
    (attempt : Nat → Except ε α)
    (first : Nat)
    (found : List α) :
    Nat → Except ε (List α)
  | 0 => .ok found.reverse
  | count + 1 => do eachFrom attempt (first + 1) ((← attempt first) :: found) count

/-- The results of attempts at all positions below a count, up to the first that
fails. -/
def eachBelow
    {ε α : Type}
    (count : Nat)
    (attempt : Nat → Except ε α) : Except ε (List α) :=
  eachFrom attempt 0 [] count

/-- Attempts at consecutive positions are attempts along the list of them. -/
theorem eachBelow_eq_mapM
    {ε α : Type}
    (count : Nat)
    (attempt : Nat → Except ε α) :
    eachBelow count attempt = (List.range count).mapM attempt := by
  have window (count first : Nat) (found : List α) : eachFrom attempt first found count =
      (found.reverse ++ ·) <$> (List.range' first count).mapM attempt := by
    induction count generalizing first found with
    | zero =>
        simp [eachFrom]
        rfl
    | succ count inductionHypothesis =>
        simp only [eachFrom, List.range'_succ, List.mapM_cons]
        cases attempt first with
        | error problem => rfl
        | ok result =>
            refine (inductionHypothesis (first + 1) (result :: found)).trans ?_
            simp only [bind, Except.bind]
            cases (List.range' (first + 1) count).mapM attempt with
            | error problem => rfl
            | ok rest => simp [pure, Except.pure, Functor.map, Except.map]
  rw [eachBelow, window, List.range_eq_range']
  simp

namespace Ty

mutual

/-- The leaves of a value at an offset, under a path. -/
def leaves
    (block : Block size)
    (offset : Nat)
    (path : String) : Ty → Except Breach (List Leaf)
  | .scalar leaf => return [(path, ← leaf.render block offset)]
  | .array index element => do
    let parts ← eachBelow index.count fun position =>
      leaves block (offset + position * element.width)
        (path ++ "[" ++ index.label position ++ "]")
        element
    return parts.flatten
  | .record fields => fieldsLeaves block offset path fields

/-- The leaves of consecutive fields, under the path of their record. -/
def fieldsLeaves
    (block : Block size)
    (offset : Nat)
    (path : String) :
    List (String × Ty) → Except Breach (List Leaf)
  | [] => return []
  | (name, ty) :: rest =>
    return (← leaves block offset (path ++ "." ++ name) ty)
      ++ (← fieldsLeaves block (offset + ty.width) path rest)

end

end Ty

/-- The text of a scalar, and none for a composite value. -/
def View.renderScalar
    (view : View)
    (block : Block size) : Except Breach (Option String) :=
  match view.ty with
  | .scalar leaf => return some (← leaf.render block view.offset)
  | _ => return none

/-- The leaves of a value under a path. -/
def View.leaves
    (view : View)
    (block : Block size)
    (path : String) : Except Breach (List Leaf) :=
  view.ty.leaves block view.offset path

/-- The leaves of every variable in declaration order. -/
def Layout.leaves
    (layout : Layout)
    (block : Block size) : Except Breach (List Leaf) := do
  let parts ← layout.entries.toList.mapM fun declared =>
    declared.view.leaves block declared.name
  return parts.flatten

/-- A leaf as a line of a report. -/
def Leaf.line (leaf : Leaf) : String :=
  leaf.1 ++ " = " ++ leaf.2

/-- Every leaf of a state as a line of a report. -/
def Layout.stateLines
    (layout : Layout)
    (block : Block size) : Except Breach (List String) := do
  return (← layout.leaves block).map Leaf.line

end StateSpace
