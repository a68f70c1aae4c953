import StateSpace.Proofs.Layout.Built

/-!
# Which declarations have a layout

Declarations are acceptable if their names are distinct, if there are no more of
them than a layout has room for, and if their types together take a word of bits.
Acceptable declarations have a layout, in which every variable stands at its
position in the list, behind the bits of those before it. Other declarations are
refused with the defect of the first one that cannot follow those before it.

The step from one list to a longer one is that of a single declaration, so the
three conditions are looked at in the order in which a declaration can break them.
-/

namespace StateSpace
namespace Layout

/-- The names of declarations. -/
def declaredNames (declarations : List (String × Ty)) : List String :=
  declarations.map Prod.fst

/-- The bits that the types of declarations take together. -/
def declaredBits (declarations : List (String × Ty)) : Nat :=
  (declarations.map fun declaration => declaration.2.width).sum

@[simp] theorem declaredNames_concat
    (declarations : List (String × Ty))
    (name : String)
    (ty : Ty) :
    declaredNames (declarations ++ [(name, ty)]) =
      declaredNames declarations ++ [name] := by
  simp [declaredNames]

@[simp] theorem declaredBits_append (earlier later : List (String × Ty)) :
    declaredBits (earlier ++ later) = declaredBits earlier + declaredBits later := by
  simp [declaredBits]

@[simp] theorem declaredBits_singleton
    (name : String)
    (ty : Ty) :
    declaredBits [(name, ty)] = ty.width := by
  simp [declaredBits]

/-- Declarations that have a layout. -/
structure Acceptable (declarations : List (String × Ty)) : Prop where
  distinct : (declaredNames declarations).Nodup
  few : declarations.length ≤ maxVariables
  narrow : declaredBits declarations < Word.limit

/-- What keeps a declaration from following earlier ones. A name that is taken
comes before a lack of room for variables, and that before a lack of bits. -/
inductive Defect
    (earlier : List (String × Ty))
    (name : String)
    (ty : Ty) : LayoutError → Prop
  | duplicate
      (taken : name ∈ declaredNames earlier) :
      Defect earlier name ty (.duplicateVariable name)
  | tooMany
      (fresh : name ∉ declaredNames earlier)
      (full : earlier.length = maxVariables) :
      Defect earlier name ty (.tooManyVariables maxVariables)
  | tooWide
      (fresh : name ∉ declaredNames earlier)
      (room : earlier.length < maxVariables)
      (wide : Word.limit ≤ declaredBits earlier + ty.width) :
      Defect earlier name ty .tooWide

/-- The variables of a layout are those of the declarations in order, one behind
the other. -/
structure Places
    (layout : Layout)
    (declarations : List (String × Ty)) : Prop where
  entry : ∀ index : Nat,
    layout.entries[index]? = declarations[index]?.map fun declaration =>
      ⟨declaration.1, declaration.2, declaredBits (declarations.take index)⟩
  bits : layout.bits = declaredBits declarations

/-! ## One declaration more -/

theorem Acceptable.nil : Acceptable [] where
  distinct := List.nodup_nil
  few := Nat.zero_le _
  narrow := by decide

/-- What comes first of acceptable declarations is acceptable. -/
theorem Acceptable.of_append
    {earlier later : List (String × Ty)}
    (acceptable : Acceptable (earlier ++ later)) :
    Acceptable earlier where
  distinct := by
    have distinct := acceptable.distinct
    rw [declaredNames, List.map_append] at distinct
    exact distinct.of_append_left
  few := by
    have few := acceptable.few
    rw [List.length_append] at few
    omega
  narrow := by
    have narrow := acceptable.narrow
    rw [declaredBits_append] at narrow
    omega

/-- A declaration without a defect can follow acceptable ones. -/
theorem Acceptable.concat
    {earlier : List (String × Ty)}
    {name : String}
    {ty : Ty}
    (acceptable : Acceptable earlier)
    (fresh : name ∉ declaredNames earlier)
    (room : earlier.length < maxVariables)
    (narrow : declaredBits earlier + ty.width < Word.limit) :
    Acceptable (earlier ++ [(name, ty)]) where
  distinct := by
    rw [declaredNames_concat]
    exact List.nodup_append'.mpr
      ⟨acceptable.distinct, List.nodup_singleton name, by simpa using fresh⟩
  few := by
    rw [List.length_append]
    exact room
  narrow := by
    rw [declaredBits_append, declaredBits_singleton]
    exact narrow

/-- A declaration with a defect cannot follow. -/
theorem Defect.not_acceptable
    {earlier : List (String × Ty)}
    {name : String}
    {ty : Ty}
    {error : LayoutError}
    (defect : Defect earlier name ty error) :
    ¬ Acceptable (earlier ++ [(name, ty)]) := by
  intro acceptable
  have distinct := acceptable.distinct
  have few := acceptable.few
  have narrow := acceptable.narrow
  rw [declaredNames_concat] at distinct
  rw [List.length_append, List.length_singleton] at few
  rw [declaredBits_append, declaredBits_singleton] at narrow
  cases defect with
  | duplicate taken =>
      exact (List.nodup_append'.mp distinct).2.2 taken (List.mem_singleton_self name)
  | tooMany _ full => omega
  | tooWide _ _ wide => omega

/-- A declaration has one defect at most. -/
theorem Defect.unique
    {earlier : List (String × Ty)}
    {name : String}
    {ty : Ty}
    {error other : LayoutError}
    (defect : Defect earlier name ty error)
    (second : Defect earlier name ty other) :
    error = other := by
  cases defect with
  | duplicate taken =>
      cases second with
      | duplicate _ => rfl
      | tooMany fresh _ => exact absurd taken fresh
      | tooWide fresh _ _ => exact absurd taken fresh
  | tooMany fresh full =>
      cases second with
      | duplicate taken => exact absurd taken fresh
      | tooMany _ _ => rfl
      | tooWide _ room _ => exact absurd full room.ne
  | tooWide fresh room _ =>
      cases second with
      | duplicate taken => exact absurd taken fresh
      | tooMany _ full => exact absurd full room.ne
      | tooWide _ _ _ => rfl

theorem Places.empty : empty.Places [] where
  entry := by simp [Layout.empty]
  bits := rfl

theorem Places.size
    {layout : Layout}
    {declarations : List (String × Ty)}
    (places : layout.Places declarations) :
    layout.entries.size = declarations.length := by
  have outside (index : Nat) : layout.entries.size ≤ index ↔
      declarations.length ≤ index := by
    rw [← Array.getElem?_eq_none_iff, places.entry, Option.map_eq_none_iff,
      List.getElem?_eq_none_iff]
  exact Nat.le_antisymm ((outside _).mpr le_rfl) ((outside _).mp le_rfl)

/-- A variable is placed behind those that are there. -/
theorem Places.push
    {layout : Layout}
    {declarations : List (String × Ty)}
    (places : layout.Places declarations)
    (name : String)
    (ty : Ty) :
    Places ⟨layout.entries.push ⟨name, ty, layout.bits⟩, layout.bits + ty.width⟩
      (declarations ++ [(name, ty)]) where
  entry := by
    intro index
    rw [Array.getElem?_push, places.size, List.getElem?_append, places.entry,
      places.bits]
    rcases Nat.lt_trichotomy index declarations.length with before | rfl | behind
    · rw [if_neg (by omega), if_pos before, List.take_append_of_le_length (by omega)]
    · simp
    · rw [if_neg (by omega), if_neg (by omega), List.getElem?_eq_none (by omega),
        List.getElem?_eq_none (by simp; omega)]
      rfl
  bits := by
    rw [declaredBits_append, declaredBits_singleton, places.bits]

/-! ## All declarations -/

/-- What an attempt to place further declarations comes to. -/
inductive Extension
    (earlier rest : List (String × Ty)) : Except LayoutError Layout → Prop
  | placed
      {layout : Layout}
      (acceptable : Acceptable (earlier ++ rest))
      (places : layout.Places (earlier ++ rest)) :
      Extension earlier rest (.ok layout)
  | refused
      (before : List (String × Ty))
      {after : List (String × Ty)}
      {name : String}
      {ty : Ty}
      {error : LayoutError}
      (split : rest = before ++ (name, ty) :: after)
      (acceptable : Acceptable (earlier ++ before))
      (defect : Defect (earlier ++ before) name ty error) :
      Extension earlier rest (.error error)

/-- An attempt that goes on behind a declaration goes on behind the earlier ones. -/
theorem Extension.cons
    {earlier rest : List (String × Ty)}
    {declaration : String × Ty}
    {result : Except LayoutError Layout}
    (extension : Extension (earlier ++ [declaration]) rest result) :
    Extension earlier (declaration :: rest) result := by
  cases extension with
  | placed acceptable places =>
      rw [List.append_assoc, List.singleton_append] at acceptable places
      exact .placed acceptable places
  | @refused before after name ty error split acceptable defect =>
      rw [List.append_assoc, List.singleton_append] at acceptable defect
      exact .refused (declaration :: before) (by rw [split, List.cons_append])
        acceptable defect

/-- Declarations are placed as long as there is no defect. -/
theorem extend_extension
    {layout : Layout}
    {taken : Std.HashSet String}
    {earlier : List (String × Ty)}
    (acceptable : Acceptable earlier)
    (places : layout.Places earlier)
    (names : ∀ name, taken.contains name = true ↔ name ∈ declaredNames earlier)
    (rest : List (String × Ty)) :
    Extension earlier rest (layout.extend taken rest) := by
  induction rest generalizing layout taken earlier with
  | nil => exact .placed (by simpa using acceptable) (by simpa using places)
  | cons declaration rest inductionHypothesis =>
      obtain ⟨name, ty⟩ := declaration
      -- Whatever is wrong with this declaration is the defect of the whole list.
      have refuse : ∀ {error}, Defect earlier name ty error →
          Extension earlier ((name, ty) :: rest) (.error error) := fun defect =>
        .refused [] rfl (by simpa using acceptable) (by simpa using defect)
      unfold extend
      split
      · rename_i present
        exact refuse (.duplicate ((names name).mp present))
      rename_i absent
      have fresh : name ∉ declaredNames earlier :=
        fun present => absent ((names name).mpr present)
      have size := places.size
      split
      · rename_i full
        have few := acceptable.few
        exact refuse (.tooMany fresh (by omega))
      rename_i room
      split
      · rename_i overflow
        have wide : ¬ layout.bits + ty.width < Word.limit := fun small => by
          rw [Word.add?, if_pos small] at overflow
          cases overflow
        rw [places.bits] at wide
        exact refuse (.tooWide fresh (by omega) (by omega))
      · rename_i bits sum
        obtain ⟨rfl, small⟩ := Word.add?_eq_some.mp sum
        have narrow : declaredBits earlier + ty.width < Word.limit := places.bits ▸ small
        refine (inductionHypothesis (acceptable.concat fresh (by omega) narrow)
          (places.push name ty) fun other => ?_).cons
        rw [Std.HashSet.contains_insert, Bool.or_eq_true, beq_iff_eq, names,
          declaredNames_concat, List.mem_append, List.mem_singleton]
        exact or_comm.trans (or_congr_right eq_comm)

theorem of?_extension (declarations : List (String × Ty)) :
    Extension [] declarations (of? declarations) :=
  extend_extension .nil .empty (by simp [declaredNames]) declarations

/-- Acceptable declarations have a layout. -/
theorem Acceptable.of?_eq_ok
    {declarations : List (String × Ty)}
    (acceptable : Acceptable declarations) :
    ∃ layout, of? declarations = .ok layout ∧ layout.Places declarations := by
  have extension := of?_extension declarations
  generalize of? declarations = result at extension
  cases extension with
  | @placed layout _ places => exact ⟨layout, rfl, places⟩
  | @refused before after name ty error split _ defect =>
      subst split
      rw [List.append_cons] at acceptable
      exact absurd acceptable.of_append defect.not_acceptable

/-- Declarations that have a layout are acceptable. -/
theorem acceptable_of_of?
    {declarations : List (String × Ty)}
    {layout : Layout}
    (accepted : of? declarations = .ok layout) :
    Acceptable declarations ∧ layout.Places declarations := by
  have extension := of?_extension declarations
  rw [accepted] at extension
  cases extension with
  | placed acceptable places => exact ⟨acceptable, places⟩

end Layout

namespace Crowd

/-- A name of its own for every number. -/
def name (number : Nat) : String :=
  String.ofList (List.replicate number 'v')

/-- So many switches. -/
def switches (count : Nat) : List (String × Ty) :=
  (List.range count).map fun number => (name number, .boolean)

theorem name_injective : Function.Injective name := by
  intro left right same
  have lengths := congrArg (fun text : String => text.toList.length) same
  simpa [name] using lengths

theorem declaredNames_switches (count : Nat) :
    Layout.declaredNames (switches count) = (List.range count).map name := by
  simp [Layout.declaredNames, switches]

theorem declaredBits_switches (count : Nat) :
    Layout.declaredBits (switches count) = count := by
  simp [Layout.declaredBits, switches, Ty.boolean, Ty.width, Scalar.width,
    Function.comp_def]

theorem switches_acceptable
    {count : Nat}
    (few : count ≤ Layout.maxVariables) :
    Layout.Acceptable (switches count) where
  distinct := by
    rw [declaredNames_switches]
    exact List.nodup_range.map name_injective
  few := by simpa [switches] using few
  narrow := by
    rw [declaredBits_switches]
    unfold Layout.maxVariables at few
    unfold Word.limit
    omega

end Crowd
end StateSpace
