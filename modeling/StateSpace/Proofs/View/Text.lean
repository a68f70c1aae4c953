import StateSpace.Proofs.View.Scalars

/-!
# The text of a scalar

A scalar is shown as a text of the number in its field. The field holds any
number of the scalar's width, the ordinal of a value or not. Different numbers
are shown differently, as long as no member of an enumeration is named like a
number that stands for no member.
-/

namespace StateSpace

variable {size : Nat}

/-- No member has a name that is shown for a number without a member. -/
def Members.Distinguished (members : Members) : Prop :=
  ∀ name ∈ members.names, ∀ number : Nat, name ≠ "<invalid " ++ toString number ++ ">"

namespace Scalar

/-- The members of an enumeration are told from numbers without a member. -/
def Distinguished : Scalar → Prop
  | enumeration members => members.Distinguished
  | _ => True

/-- The text of a stored number. -/
def text : Scalar → Nat → String
  | boolean, number => if number != 0 then "true" else "false"
  | range bounds, number => toString (bounds.decode number).toInt
  | enumeration members, number =>
    (members.member? number).getD ("<invalid " ++ toString number ++ ">")

/-- A scalar is shown as the text of the number in its field. -/
theorem render_eq
    {leaf : Scalar}
    {offset : Nat}
    (window : HasWindow size offset leaf.width)
    (narrow : leaf.width ≤ 64)
    (block : Block size) :
    leaf.render block offset = .ok (leaf.text (block.extract offset leaf.width)) := by
  have read := block.read_window window narrow
  cases leaf with
  | boolean =>
      have bit : block.read offset 1 = _ := read
      simp only [render, BoolView.get, bit]
      rfl
  | range bounds =>
      have field : block.read offset bounds.width = _ := read
      simp only [render, RangeView.get, field]
      rfl
  | enumeration members =>
      have field : block.read offset members.width = _ := read
      simp only [render, EnumView.get, field]
      rfl

end Scalar

/-! ## Different numbers have different texts -/

/-- A name is the name of one member only. -/
theorem Members.member?_inj
    {members : Members}
    {first second : Nat}
    {name : String}
    (firstFound : members.member? first = some name)
    (secondFound : members.member? second = some name) :
    first = second := by
  rw [member?, ← Array.getElem?_toList] at firstFound secondFound
  have inside := (List.getElem?_eq_some_iff.mp firstFound).1
  exact (List.getElem?_inj inside members.distinct).mp
    (firstFound.trans secondFound.symm)

/-- The text of a member is its name, which no other number has as its text. -/
theorem Members.text_injective
    {members : Members}
    (distinguished : members.Distinguished)
    {first second : Nat}
    (same : (Scalar.enumeration members).text first =
      (Scalar.enumeration members).text second) :
    first = second := by
  have present {number : Nat} {name : String}
    (found : members.member? number = some name) :
      name ∈ members.names := Array.mem_of_getElem? found
  simp only [Scalar.text] at same
  cases firstFound : members.member? first with
  | some firstName =>
      cases secondFound : members.member? second with
      | some secondName =>
          rw [firstFound, secondFound] at same
          cases show firstName = secondName from same
          exact member?_inj firstFound secondFound
      | none =>
          rw [firstFound, secondFound] at same
          exact absurd same (distinguished _ (present firstFound) _)
  | none =>
      cases secondFound : members.member? second with
      | some secondName =>
          rw [firstFound, secondFound] at same
          exact absurd same.symm (distinguished _ (present secondFound) _)
      | none =>
          rw [firstFound, secondFound] at same
          have numbers :=
            (String.append_right_inj _).mp ((String.append_left_inj _).mp same)
          exact Nat.repr_inj.mp (by simpa only [Nat.toString_eq_repr] using numbers)

/-- Different numbers of a scalar's width have different texts. -/
theorem Scalar.text_injective
    {leaf : Scalar}
    (narrow : leaf.width ≤ 64)
    (distinguished : leaf.Distinguished)
    {first second : Nat}
    (firstSmall : first < 2 ^ leaf.width)
    (secondSmall : second < 2 ^ leaf.width)
    (same : leaf.text first = leaf.text second) :
    first = second := by
  cases leaf with
  | boolean =>
      simp only [width] at firstSmall secondSmall
      interval_cases first <;> interval_cases second <;> simp_all [text]
  | range bounds =>
      simp only [text, Int.toString_eq_repr, Int.repr_inj, Int64.toInt_inj] at same
      exact Bounds.decode_injective (lt_limit narrow firstSmall)
        (lt_limit narrow secondSmall) same
  | enumeration members => exact Members.text_injective distinguished same

end StateSpace
