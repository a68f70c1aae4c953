import StateSpace.Breach
import Std.Data.HashSet

/-!
# Visited sets

A visited set remembers what was discovered. An insertion tells whether the item was new.
-/

namespace StateSpace

/-- The items discovered so far. -/
structure VisitedSet
    (α : Type)
    [BEq α]
    [Hashable α] where
  items : Std.HashSet α

namespace VisitedSet

variable {α : Type} [BEq α] [Hashable α]

def empty : VisitedSet α :=
  ⟨∅⟩

/-- The most items that a set can be asked to have room for, seven eighths of the 59th
power of two. -/
def maxCapacity : Nat := 0x700000000000000

/-- An empty set with room for a number of items. The room changes nothing that can be
observed. -/
def withCapacity (capacity : Nat) : Except Breach (VisitedSet α) :=
  if capacity ≤ maxCapacity then .ok empty else .error .tableTooLarge

def contains
    (visited : VisitedSet α)
    (item : α) : Bool :=
  visited.items.contains item

def size (visited : VisitedSet α) : Nat :=
  visited.items.size

def isEmpty (visited : VisitedSet α) : Bool :=
  visited.size = 0

/-- The set with an item, which stays the only one of its kind. -/
def insert
    (visited : VisitedSet α)
    (item : α) : VisitedSet α :=
  ⟨visited.items.insert item⟩

/-- The number of items, for a reader of a log. -/
def describe (visited : VisitedSet α) : String :=
  "VisitedSet \x7b len: " ++ toString visited.size ++ " \x7d"

@[simp] theorem contains_empty
    (item : α) :
    (empty : VisitedSet α).contains item = false :=
  Std.HashSet.contains_empty

@[simp] theorem size_empty : (empty : VisitedSet α).size = 0 :=
  Std.HashSet.size_empty

variable [LawfulBEq α]

theorem contains_insert
    (visited : VisitedSet α)
    (item other : α) :
    (visited.insert item).contains other = (item == other || visited.contains other) :=
  Std.HashSet.contains_insert

/-- An insertion makes the set larger by one exactly if the item is new. -/
theorem size_insert
    (visited : VisitedSet α)
    (item : α) :
    (visited.insert item).size =
      if visited.contains item then visited.size else visited.size + 1 :=
  Std.HashSet.size_insert

end VisitedSet
end StateSpace
