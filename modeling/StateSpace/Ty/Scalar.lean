import Std.Data.HashSet
import StateSpace.Error
import StateSpace.Word

/-!
# Scalar types

A scalar value is stored as its ordinal, a number below the number of values of its
type. Ranges count from their lower bound, enumerations number their members in order,
and false comes before true. A scalar takes the fewest bits that tell its ordinals
apart.

`Bounds.of?` and `Members.of?` build the two parameterised kinds from declarations.
-/

namespace StateSpace

/-- An interval of integers that is not empty. -/
structure Bounds where
  min : Int64
  max : Int64
  min_le_max : min ≤ max
  deriving DecidableEq

namespace Bounds

/-- The interval between two integers, if there is one. -/
def of? (min max : Int64) : Except LayoutError Bounds :=
  if ordered : min ≤ max then .ok ⟨min, max, ordered⟩
  else .error (.emptyRange min.toInt max.toInt)

/-- The distance between the bounds. -/
def span (bounds : Bounds) : Nat :=
  (bounds.max.toInt - bounds.min.toInt).toNat

/-- The bits that the distances from the lower bound need. -/
def width (bounds : Bounds) : Nat :=
  if bounds.span = 0 then 0 else bounds.span.log2 + 1

/-- The number of integers in the interval, as the nearest word. -/
def count (bounds : Bounds) : Nat :=
  Word.saturate (bounds.span + 1)

/-- Whether an integer lies in the interval. -/
def contains
    (bounds : Bounds)
    (value : Int64) : Bool :=
  bounds.min ≤ value && value ≤ bounds.max

/-- The distance of an integer of the interval from the lower bound. -/
def encode
    (bounds : Bounds)
    (value : Int64) : Except Breach Nat :=
  if bounds.contains value then .ok (value.toInt - bounds.min.toInt).toNat
  else .error .valueNotContained

/-- The integer at a distance from the lower bound. Distances that lead beyond the
largest integer continue at the smallest. -/
def decode
    (bounds : Bounds)
    (distance : Nat) : Int64 :=
  Int64.ofInt (bounds.min.toInt + distance)

end Bounds

/-- The first text that repeats an earlier one or one already seen. -/
def firstRepeat? (seen : Std.HashSet String) : List String → Option String
  | [] => none
  | text :: rest =>
    if seen.contains text then some text else firstRepeat? (seen.insert text) rest

theorem nodup_of_firstRepeat?
    {seen : Std.HashSet String}
    {texts : List String}
    (fresh : firstRepeat? seen texts = none) :
    (∀ text ∈ texts, text ∉ seen) ∧ texts.Nodup := by
  induction texts generalizing seen with
  | nil => simp
  | cons text rest inductionHypothesis =>
      unfold firstRepeat? at fresh
      split at fresh
      · exact absurd fresh (by simp)
      · rename_i absent
        obtain ⟨unseen, distinct⟩ := inductionHypothesis fresh
        have apart : text ∉ rest := fun repeated =>
          unseen text repeated Std.HashSet.mem_insert_self
        refine ⟨?_, List.nodup_cons.mpr ⟨apart, distinct⟩⟩
        intro other member present
        rcases List.mem_cons.mp member with rfl | member
        · exact absent (Std.HashSet.contains_iff_mem.mpr present)
        · exact unseen other member (Std.HashSet.mem_insert.mpr (.inr present))

/-- Distinct names, at least one. -/
structure Members where
  names : Array String
  nonempty : 0 < names.size
  distinct : names.toList.Nodup
  deriving DecidableEq

namespace Members

/-- The enumeration of the given names, if there are any and none is repeated. -/
def of? (names : List String) : Except LayoutError Members :=
  match positive : names with
  | [] => .error .emptyEnum
  | _ :: _ =>
    match fresh : firstRepeat? ∅ names with
    | some name => .error (.duplicateMember name)
    | none =>
      .ok ⟨names.toArray, by simp [positive],
        by simpa using (nodup_of_firstRepeat? fresh).2⟩

/-- The number of members. -/
def count (members : Members) : Nat :=
  members.names.size

/-- The bits that the ordinals need. -/
def width (members : Members) : Nat :=
  if members.count < 2 then 0 else (members.count - 1).log2 + 1

/-- The position of a name. -/
def ordinal?
    (members : Members)
    (name : String) : Option Nat :=
  members.names.idxOf? name

/-- The name at a position. -/
def member?
    (members : Members)
    (ordinal : Nat) : Option String :=
  members.names[ordinal]?

end Members

/-- A type whose values are single ordinals. -/
inductive Scalar where
  | boolean
  | range (bounds : Bounds)
  | enumeration (members : Members)
  deriving DecidableEq

namespace Scalar

/-- The bits that one value takes. -/
def width : Scalar → Nat
  | boolean => 1
  | range bounds => bounds.width
  | enumeration members => members.width

/-- The number of values, as the nearest word. -/
def count : Scalar → Nat
  | boolean => 2
  | range bounds => bounds.count
  | enumeration members => members.count

/-- The ordinal of the value that an integer stands for, if it stands for one. -/
def ordinalOf? : Scalar → Int64 → Option Nat
  | boolean, value => if 0 ≤ value ∧ value ≤ 1 then some value.toInt.toNat else none
  | range bounds, value =>
    if bounds.contains value then some (value.toInt - bounds.min.toInt).toNat else none
  | enumeration members, value =>
    if 0 ≤ value ∧ value.toInt < members.count then some value.toInt.toNat else none

/-- The integer that stands for the value with an ordinal. -/
def valueAt : Scalar → Nat → Int64
  | range bounds, ordinal => bounds.decode ordinal
  | boolean, ordinal => Int64.ofNat ordinal
  | enumeration _, ordinal => Int64.ofNat ordinal

/-- The value with an ordinal as it appears between the brackets of an element path. -/
def label : Scalar → Nat → String
  | boolean, ordinal => if ordinal = 0 then "false" else "true"
  | range bounds, ordinal => toString (bounds.decode ordinal).toInt
  | enumeration members, ordinal => (members.member? ordinal).getD (toString ordinal)

end Scalar
end StateSpace
