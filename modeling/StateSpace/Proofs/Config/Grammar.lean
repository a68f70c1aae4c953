import Mathlib.Logic.Relation
import StateSpace.Proofs.Config.Lines
import StateSpace.Proofs.Config.Values

/-!
# The grammar of directives

Lines of words spell items: a keyword with its value behind it, or a keyword alone
and its value alone on the next line. Items make one configuration of another if
each value suits its directive. As no keyword is a value, it makes no difference
for this whether a value stands behind its keyword or below.
-/

namespace StateSpace
namespace Directive

/-- A directive with its value. -/
structure Item where
  directive : Directive
  value : String

/-- Lines of words that spell items in order. -/
inductive Spells : List (List String) → List Item → Prop
  | nil : Spells [] []
  | oneLine
      {key value : String}
      {directive : Directive}
      {lines : List (List String)}
      {items : List Item}
      (keyword : ofKeyword? key = some directive)
      (rest : Spells lines items) :
      Spells ([key, value] :: lines) (⟨directive, value⟩ :: items)
  | twoLines
      {key value : String}
      {directive : Directive}
      {lines : List (List String)}
      {items : List Item}
      (keyword : ofKeyword? key = some directive)
      (plain : ofKeyword? value = none)
      (rest : Spells lines items) :
      Spells ([key] :: [value] :: lines) (⟨directive, value⟩ :: items)

/-- What items make of a configuration, each of them in its turn. -/
inductive SetsAll : List Item → Config → Config → Prop
  | nil {config : Config} : SetsAll [] config config
  | cons
      {item : Item}
      {items : List Item}
      {config next last : Config}
      (first : Sets item.value config item.directive next)
      (others : SetsAll items next last) :
      SetsAll (item :: items) config last

/-! ## Lines that spell items -/

theorem spells_nil {items : List Item} : Spells [] items ↔ items = [] := by
  constructor
  · rintro ⟨⟩
    rfl
  · rintro rfl
    exact .nil

section

variable
  {key : String}
  {directive : Directive}
  {lines : List (List String)}
  {items : List Item}

theorem spells_oneLine
    (keyword : ofKeyword? key = some directive)
    {value : String} :
    Spells ([key, value] :: lines) items ↔
      ∃ others, items = ⟨directive, value⟩ :: others ∧ Spells lines others := by
  constructor
  · rintro (_ | ⟨again, rest⟩)
    cases keyword.symm.trans again
    exact ⟨_, rfl, rest⟩
  · rintro ⟨others, rfl, rest⟩
    exact .oneLine keyword rest

theorem spells_twoLines
    (keyword : ofKeyword? key = some directive) :
    Spells ([key] :: lines) items ↔
      ∃ value rest others, lines = [value] :: rest ∧ ofKeyword? value = none ∧
        items = ⟨directive, value⟩ :: others ∧ Spells rest others := by
  constructor
  · rintro (_ | _ | ⟨again, plain, rest⟩)
    cases keyword.symm.trans again
    exact ⟨_, _, _, rfl, plain, rfl, rest⟩
  · rintro ⟨value, rest, others, rfl, plain, rfl, spells⟩
    exact .twoLines keyword plain spells

/-- Every item begins with a keyword. -/
theorem Spells.keyword
    {others : List String}
    (spells : Spells ((key :: others) :: lines) items) :
    ∃ directive, ofKeyword? key = some directive := by
  cases spells with
  | oneLine keyword _ => exact ⟨_, keyword⟩
  | twoLines keyword _ _ => exact ⟨_, keyword⟩

/-- No item has a further word behind its value. -/
theorem not_spells_three
    {value word : String}
    {further : List String} :
    ¬Spells ((key :: value :: word :: further) :: lines) items :=
  nofun

/-- An item ends before a line that begins with a keyword. -/
theorem spells_append
    {before : List (List String)}
    (keyword : ofKeyword? key = some directive)
    {others : List String} :
    Spells (before ++ (key :: others) :: lines) items ↔
      ∃ earlier later, items = earlier ++ later ∧ Spells before earlier ∧
        Spells ((key :: others) :: lines) later := by
  constructor
  · intro spells
    generalize whole : before ++ (key :: others) :: lines = text at spells
    induction spells generalizing before with
    | nil => cases before <;> cases whole
    | @oneLine first value found rest items isKeyword spells inductionHypothesis =>
        cases before with
        | nil =>
            rw [List.nil_append] at whole
            exact ⟨[], _, rfl, .nil, whole ▸ .oneLine isKeyword spells⟩
        | cons line before =>
            obtain ⟨rfl, same⟩ := List.cons_eq_cons.mp whole
            obtain ⟨earlier, later, rfl, spelled, follows⟩ := inductionHypothesis same
            exact ⟨_ :: earlier, later, rfl, .oneLine isKeyword spelled, follows⟩
    | @twoLines first value found rest items isKeyword plain spells
        inductionHypothesis =>
        cases before with
        | nil =>
            rw [List.nil_append] at whole
            exact ⟨[], _, rfl, .nil, whole ▸ .twoLines isKeyword plain spells⟩
        | cons line before =>
            obtain ⟨rfl, same⟩ := List.cons_eq_cons.mp whole
            cases before with
            | nil =>
                obtain ⟨firstLine, -⟩ := List.cons_eq_cons.mp same
                obtain ⟨rfl, -⟩ := List.cons_eq_cons.mp firstLine
                cases keyword.symm.trans plain
            | cons second before =>
                obtain ⟨rfl, further⟩ := List.cons_eq_cons.mp same
                obtain ⟨earlier, later, rfl, spelled, follows⟩ :=
                  inductionHypothesis further
                exact ⟨_ :: earlier, later, rfl,
                  .twoLines isKeyword plain spelled, follows⟩
  · rintro ⟨earlier, later, rfl, spelled, follows⟩
    induction spelled with
    | nil => exact follows
    | oneLine isKeyword _ inductionHypothesis =>
      exact .oneLine isKeyword inductionHypothesis
    | twoLines isKeyword plain _ inductionHypothesis =>
        exact .twoLines isKeyword plain inductionHypothesis

end

theorem setsAll_nil {config last : Config} : SetsAll [] config last ↔ last = config := by
  constructor
  · rintro ⟨⟩
    rfl
  · rintro rfl
    exact .nil

theorem setsAll_cons
    {item : Item}
    {items : List Item}
    {config last : Config} :
    SetsAll (item :: items) config last ↔
      ∃ next, Sets item.value config item.directive next ∧ SetsAll items next last := by
  constructor
  · rintro (_ | ⟨first, others⟩)
    exact ⟨_, first, others⟩
  · rintro ⟨next, first, others⟩
    exact .cons first others

theorem setsAll_append
    {earlier later : List Item}
    {config last : Config} :
    SetsAll (earlier ++ later) config last ↔
      ∃ middle, SetsAll earlier config middle ∧ SetsAll later middle last := by
  induction earlier generalizing config with
  | nil => simp [setsAll_nil]
  | cons item earlier inductionHypothesis =>
      simp only [List.cons_append, setsAll_cons, inductionHypothesis]
      constructor
      · rintro ⟨next, first, middle, others, rest⟩
        exact ⟨middle, ⟨next, first, others⟩, rest⟩
      · rintro ⟨middle, ⟨next, first, others⟩, rest⟩
        exact ⟨next, first, middle, others, rest⟩

/-- Items make one configuration of another. -/
theorem SetsAll.unique
    {items : List Item}
    {config last other : Config}
    (sets : SetsAll items config last)
    (again : SetsAll items config other) :
    other = last := by
  induction sets with
  | nil => exact setsAll_nil.mp again
  | cons first _ inductionHypothesis =>
      obtain ⟨next, also, others⟩ := setsAll_cons.mp again
      cases first.apply_eq.symm.trans also.apply_eq
      exact inductionHypothesis others

/-- Lines spell items that make one configuration of another. -/
def Makes
    (lines : List (List String))
    (config last : Config) : Prop :=
  ∃ items, Spells lines items ∧ SetsAll items config last

section

variable {config last : Config}

theorem makes_nil : Makes [] config last ↔ last = config := by
  simp [Makes, spells_nil, setsAll_nil]

variable
  {key : String}
  {directive : Directive}
  {lines : List (List String)}

theorem makes_oneLine
    (keyword : ofKeyword? key = some directive)
    {value : String} :
    Makes ([key, value] :: lines) config last ↔
      ∃ next, Sets value config directive next ∧ Makes lines next last := by
  simp only [Makes, spells_oneLine keyword]
  constructor
  · rintro ⟨items, ⟨others, rfl, spells⟩, sets⟩
    obtain ⟨next, first, rest⟩ := setsAll_cons.mp sets
    exact ⟨next, first, others, spells, rest⟩
  · rintro ⟨next, first, others, spells, rest⟩
    exact ⟨_, ⟨others, rfl, spells⟩, .cons first rest⟩

theorem makes_twoLines
    (keyword : ofKeyword? key = some directive) :
    Makes ([key] :: lines) config last ↔
      ∃ value rest next, lines = [value] :: rest ∧ ofKeyword? value = none ∧
        Sets value config directive next ∧ Makes rest next last := by
  simp only [Makes, spells_twoLines keyword]
  constructor
  · rintro ⟨items, ⟨value, rest, others, rfl, plain, rfl, spells⟩, sets⟩
    obtain ⟨next, first, further⟩ := setsAll_cons.mp sets
    exact ⟨value, rest, next, rfl, plain, first, others, spells, further⟩
  · rintro ⟨value, rest, next, rfl, plain, first, others, spells, further⟩
    exact ⟨_, ⟨value, rest, others, rfl, plain, rfl, spells⟩, .cons first further⟩

theorem makes_append
    {before : List (List String)}
    (keyword : ofKeyword? key = some directive)
    {others : List String} :
    Makes (before ++ (key :: others) :: lines) config last ↔
      ∃ middle, Makes before config middle ∧
        Makes ((key :: others) :: lines) middle last := by
  simp only [Makes, spells_append keyword]
  constructor
  · rintro ⟨items, ⟨earlier, later, rfl, spelled, follows⟩, sets⟩
    obtain ⟨middle, first, rest⟩ := setsAll_append.mp sets
    exact ⟨middle, ⟨earlier, spelled, first⟩, later, follows, rest⟩
  · rintro ⟨middle, ⟨earlier, spelled, first⟩, later, follows, rest⟩
    exact ⟨_, ⟨earlier, later, rfl, spelled, follows⟩,
      setsAll_append.mpr ⟨middle, first, rest⟩⟩

/-- It makes no difference whether a value stands behind its keyword or below. -/
theorem makes_broken
    {before : List (List String)}
    (keyword : ofKeyword? key = some directive)
    {value : String} :
    Makes (before ++ [key, value] :: lines) config last ↔
      Makes (before ++ [key] :: [value] :: lines) config last := by
  rw [makes_append keyword, makes_append keyword]
  refine exists_congr fun middle => and_congr_right fun _ => ?_
  rw [makes_oneLine keyword, makes_twoLines keyword]
  constructor
  · rintro ⟨next, first, rest⟩
    refine ⟨value, lines, next, rfl, ?_, first, rest⟩
    cases plain : ofKeyword? value with
    | none => rfl
    | some other => exact absurd first.takes (not_takes_keyword plain directive)
  · rintro ⟨_, _, next, same, -, first, rest⟩
    obtain ⟨below, rfl⟩ := List.cons_eq_cons.mp same
    obtain ⟨rfl, -⟩ := List.cons_eq_cons.mp below
    exact ⟨next, first, rest⟩

end

end Directive
end StateSpace
