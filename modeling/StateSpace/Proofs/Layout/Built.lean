import Mathlib
import StateSpace.View.Leaves

/-!
# Types and layouts that declarations build

`Ty.Built` holds of exactly the types that the checked constructors return,
and `Layout.Built` of the layouts of lists of such types. Their widths are
machine words, and every variable lies inside the bits of its layout.
-/

namespace StateSpace

/-- A type that the checked constructors return. An enumeration has a word
as its number of members. -/
inductive Ty.Built : Ty → Prop
  | boolean : Built .boolean
  | range
      {min max : Int64}
      {ty : Ty}
      (accepted : Ty.range? min max = .ok ty) :
      Built ty
  | enumeration
      {names : List String}
      {ty : Ty}
      (countable : names.length < Word.limit)
      (accepted : Ty.enumeration? names = .ok ty) :
      Built ty
  | array
      {index element ty : Ty}
      (indexBuilt : Built index)
      (elementBuilt : Built element)
      (accepted : Ty.array? index element = .ok ty) :
      Built ty
  | record
      {fields : List (String × Ty)}
      {ty : Ty}
      (fieldsBuilt : ∀ field ∈ fields, Built field.2)
      (accepted : Ty.record? fields = .ok ty) :
      Built ty

/-- A layout of declarations whose types were built. -/
def Layout.Built (layout : Layout) : Prop :=
  ∃ declarations : List (String × Ty),
    (∀ declaration ∈ declarations, declaration.2.Built) ∧
      Layout.of? declarations = .ok layout

/-! ## Widths of scalars -/

theorem log2_add_one_le
    {value bound : Nat}
    (small : value < 2 ^ bound)
    (nonzero : value ≠ 0) :
    value.log2 + 1 ≤ bound :=
  (Nat.log2_lt nonzero).mpr small

theorem Word.limit_eq : Word.limit = 2 ^ 64 := rfl

theorem Bounds.span_lt (bounds : Bounds) :
    bounds.span < Word.limit := by
  have low := bounds.min.le_toInt
  have high := bounds.max.toInt_lt
  unfold Bounds.span Word.limit
  omega

theorem Bounds.width_le (bounds : Bounds) :
    bounds.width ≤ 64 := by
  unfold Bounds.width
  split
  · exact Nat.zero_le 64
  · rename_i nonzero
    exact log2_add_one_le bounds.span_lt nonzero

theorem Members.width_le
    {members : Members}
    (countable : members.count < Word.limit) :
    members.width ≤ 64 := by
  unfold Members.width
  split
  · exact Nat.zero_le 64
  · rename_i several
    apply log2_add_one_le
    · rw [← Word.limit_eq]
      omega
    · omega

/-- The members of an enumeration are the names that it was declared with. -/
theorem Members.count_of?
    {names : List String}
    {members : Members}
    (accepted : Members.of? names = .ok members) :
    members.count = names.length := by
  cases names with
  | nil => cases accepted
  | cons name rest =>
      simp only [Members.of?] at accepted
      split at accepted
      · cases accepted
      · cases accepted
        rfl

/-- Names that are new and distinct do not repeat. -/
theorem firstRepeat?_eq_none
    {seen : Std.HashSet String}
    {texts : List String}
    (unseen : ∀ text ∈ texts, text ∉ seen)
    (distinct : texts.Nodup) :
    firstRepeat? seen texts = none := by
  induction texts generalizing seen with
  | nil => rfl
  | cons text rest inductionHypothesis =>
      obtain ⟨apart, restDistinct⟩ := List.nodup_cons.mp distinct
      have absent : ¬ seen.contains text = true := fun present =>
        unseen text (by simp) (Std.HashSet.contains_iff_mem.mp present)
      rw [firstRepeat?, if_neg absent]
      refine inductionHypothesis (fun other member present => ?_) restDistinct
      rcases Std.HashSet.mem_insert.mp present with same | earlier
      · exact apart (eq_of_beq same ▸ member)
      · exact unseen other (by simp [member]) earlier

/-- An enumeration is that of its names. -/
theorem Members.of?_names (members : Members) :
    Members.of? members.names.toList = .ok members := by
  have fresh : firstRepeat? ∅ members.names.toList = none :=
    firstRepeat?_eq_none (by simp) members.distinct
  unfold Members.of?
  split
  · rename_i empty
    have nonempty := members.nonempty
    simp_all
  · split
    · rename_i repeated
      cases fresh.symm.trans repeated
    · simp

/-- An enumeration whose number of members is a word is built. -/
theorem Ty.Built.of_members
    {members : Members}
    (countable : members.count < Word.limit) :
    Ty.Built (.scalar (.enumeration members)) := by
  have accepted : Ty.enumeration? members.names.toList =
      .ok (.scalar (.enumeration members)) := by
    rw [Ty.enumeration?, members.of?_names]
    rfl
  exact .enumeration (Array.length_toList ▸ countable) accepted

/-! ## What the checked constructors return -/

theorem Ty.range?_eq_ok
    {min max : Int64}
    {ty : Ty}
    (accepted : Ty.range? min max = .ok ty) :
    ∃ bounds, ty = .scalar (.range bounds) := by
  obtain ⟨bounds, -, made⟩ := bind_eq_ok.mp accepted
  cases made
  exact ⟨bounds, rfl⟩

theorem Ty.enumeration?_eq_ok
    {names : List String}
    {ty : Ty}
    (accepted : Ty.enumeration? names = .ok ty) :
    ∃ members : Members, members.count = names.length ∧
      ty = .scalar (.enumeration members) := by
  obtain ⟨members, listed, made⟩ := bind_eq_ok.mp accepted
  cases made
  exact ⟨members, Members.count_of? listed, rfl⟩

theorem Ty.array?_eq_ok
    {index element ty : Ty}
    (accepted : Ty.array? index element = .ok ty) :
    ∃ leaf, index = .scalar leaf ∧ ty = .array leaf element ∧
      leaf.count * element.width < Word.limit := by
  unfold Ty.array? at accepted
  split at accepted
  · rename_i leaf
    split at accepted
    · rename_i product
      cases accepted
      obtain ⟨rfl, bounded⟩ := Word.mul?_eq_some.mp product
      exact ⟨leaf, rfl, rfl, bounded⟩
    · cases accepted
  · cases accepted

theorem Ty.record?_eq_ok
    {fields : List (String × Ty)}
    {ty : Ty}
    (accepted : Ty.record? fields = .ok ty) :
    ty = .record fields ∧ Ty.fieldDefect? ∅ 0 fields = none := by
  unfold Ty.record? at accepted
  split at accepted
  · cases accepted
  · rename_i sound
    cases accepted
    exact ⟨rfl, sound⟩

/-! ## What a built type looks like -/

/-- The three ways in which a built type is put together, without the
constructors that check them. -/
inductive Ty.Shaped : Ty → Prop
  | scalar
      {leaf : Scalar}
      (narrow : leaf.width ≤ 64) :
      Shaped (.scalar leaf)
  | array
      {index : Scalar}
      {element : Ty}
      (elementShaped : Shaped element)
      (bounded : index.count * element.width < Word.limit) :
      Shaped (.array index element)
  | record
      {fields : List (String × Ty)}
      (fieldsShaped : ∀ field ∈ fields, Shaped field.2)
      (bounded : Ty.fieldsWidth fields < Word.limit) :
      Shaped (.record fields)

/-- Fields without a defect end within a word. -/
theorem Ty.fieldsWidth_lt_of_fieldDefect?
    {seen : Std.HashSet String}
    {offset : Nat}
    {fields : List (String × Ty)}
    (inside : offset < Word.limit)
    (sound : Ty.fieldDefect? seen offset fields = none) :
    offset + Ty.fieldsWidth fields < Word.limit := by
  induction fields generalizing seen offset with
  | nil => simpa [Ty.fieldsWidth] using inside
  | cons field rest inductionHypothesis =>
      obtain ⟨name, ty⟩ := field
      unfold Ty.fieldDefect? at sound
      split at sound
      · cases sound
      · split at sound
        · rename_i next sum
          obtain ⟨rfl, nextInside⟩ := Word.add?_eq_some.mp sum
          have restInside := inductionHypothesis nextInside sound
          simp only [Ty.fieldsWidth]
          omega
        · cases sound

theorem Ty.Built.shaped
    {ty : Ty}
    (built : ty.Built) :
    ty.Shaped := by
  induction built with
  | boolean => exact .scalar (by decide)
  | range accepted =>
      obtain ⟨bounds, rfl⟩ := Ty.range?_eq_ok accepted
      exact .scalar bounds.width_le
  | enumeration countable accepted =>
      obtain ⟨members, length, rfl⟩ := Ty.enumeration?_eq_ok accepted
      exact .scalar (Members.width_le (length ▸ countable))
  | array _ _ accepted _ elementShaped =>
      obtain ⟨leaf, -, rfl, bounded⟩ := Ty.array?_eq_ok accepted
      exact .array elementShaped bounded
  | record _ accepted fieldsShaped =>
      obtain ⟨rfl, sound⟩ := Ty.record?_eq_ok accepted
      have inside := Ty.fieldsWidth_lt_of_fieldDefect? (by decide) sound
      exact .record fieldsShaped (by simpa using inside)

/-! ## Where the variables of a layout lie -/

/-- The variables of a layout follow one another without a gap, from the
first bit to the last. -/
inductive Layout.Tiled : List Variable → Nat → Nat → Prop
  | nil {offset : Nat} : Tiled [] offset offset
  | cons
      {declared : Variable}
      {rest : List Variable}
      {finish : Nat}
      (tiled : Tiled rest (declared.offset + declared.ty.width) finish) :
      Tiled (declared :: rest) declared.offset finish

theorem Layout.Tiled.le
    {entries : List Variable}
    {start finish : Nat}
    (tiled : Layout.Tiled entries start finish) :
    start ≤ finish := by
  induction tiled with
  | nil => exact Nat.le_refl _
  | cons _ inductionHypothesis => omega

/-- A tiling is extended at its end by a variable that starts there. -/
theorem Layout.Tiled.concat
    {entries : List Variable}
    {start : Nat}
    (declared : Variable)
    (tiled : Layout.Tiled entries start declared.offset) :
    Layout.Tiled (entries ++ [declared]) start
      (declared.offset + declared.ty.width) := by
  generalize reached : declared.offset = finish at tiled
  induction tiled with
  | nil =>
      subst reached
      exact .cons .nil
  | cons tiled inductionHypothesis =>
      subst reached
      exact .cons (inductionHypothesis rfl)

/-- Every variable of a tiling lies between its ends. -/
theorem Layout.Tiled.mem
    {entries : List Variable}
    {start finish : Nat}
    (tiled : Layout.Tiled entries start finish)
    {declared : Variable}
    (member : declared ∈ entries) :
    start ≤ declared.offset ∧
      declared.offset + declared.ty.width ≤ finish := by
  induction tiled with
  | nil => cases member
  | cons tiled inductionHypothesis =>
      have above := tiled.le
      rcases List.mem_cons.mp member with rfl | member
      · exact ⟨Nat.le_refl _, above⟩
      · obtain ⟨low, high⟩ := inductionHypothesis member
        exact ⟨by omega, high⟩

/-- What a layout that is being declared keeps: a tiling of its bits by
variables of shaped types, whose bits are a word. -/
structure Layout.Placed (layout : Layout) : Prop where
  tiled : Layout.Tiled layout.entries.toList 0 layout.bits
  shaped : ∀ declared ∈ layout.entries.toList, declared.ty.Shaped
  bounded : layout.bits < Word.limit

theorem Layout.Placed.empty : Layout.empty.Placed where
  tiled := .nil
  shaped := by simp [Layout.empty]
  bounded := by decide

theorem Layout.Placed.extend
    {layout extended : Layout}
    {taken : Std.HashSet String}
    {declarations : List (String × Ty)}
    (placed : layout.Placed)
    (built : ∀ declaration ∈ declarations, declaration.2.Built)
    (accepted : layout.extend taken declarations = .ok extended) :
    extended.Placed := by
  induction declarations generalizing layout taken with
  | nil =>
      cases accepted
      exact placed
  | cons declaration rest inductionHypothesis =>
      obtain ⟨name, ty⟩ := declaration
      unfold Layout.extend at accepted
      split at accepted
      · cases accepted
      split at accepted
      · cases accepted
      split at accepted
      · cases accepted
      rename_i bits sum
      obtain ⟨rfl, bounded⟩ := Word.add?_eq_some.mp sum
      have tyShaped : ty.Shaped := (built (name, ty) (by simp)).shaped
      refine inductionHypothesis ⟨?_, ?_, bounded⟩
        (fun declaration member => built declaration (by simp [member])) accepted
      · rw [Array.toList_push]
        exact Layout.Tiled.concat ⟨name, ty, layout.bits⟩ placed.tiled
      · intro declared member
        rw [Array.toList_push] at member
        rcases List.mem_append.mp member with earlier | last
        · exact placed.shaped declared earlier
        · rw [List.mem_singleton.mp last]
          exact tyShaped

/-- The variables of a built layout tile its bits. -/
theorem Layout.Built.placed
    {layout : Layout}
    (built : layout.Built) :
    layout.Placed := by
  obtain ⟨declarations, declarationsBuilt, accepted⟩ := built
  exact Layout.Placed.empty.extend declarationsBuilt accepted

/-- The bytes of a layout hold all of its bits. -/
theorem Layout.bits_le_bytes (layout : Layout) :
    layout.bits ≤ 8 * layout.bytes := by
  unfold Layout.bytes
  omega

end StateSpace
