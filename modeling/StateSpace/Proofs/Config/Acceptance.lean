import StateSpace.Proofs.Config.Readings

/-!
# Texts that are accepted

A text is accepted exactly if its remaining lines spell items that make a
configuration of the defaults, and if that can be honoured. Comments, empty lines
and indentation add no words to a text, and a value may stand behind its keyword
or below, so that none of this makes a difference.
-/

namespace StateSpace
namespace Directive

/-! ## Lines without errors -/

theorem ofKeyword?_keyword (directive : Directive) :
    ofKeyword? directive.keyword = some directive := by
  cases directive <;> rfl

/-- The line of a directive that waits for its value. -/
def heldLine (waits : Option Directive) : List (List String) :=
  waits.toList.map fun directive => [directive.keyword]

section

variable {waits : Option Directive} {line : Line} {lines : List Line}
  {config last : Config}

/-- A directive that waits for its value does not wait at a keyword. -/
theorem idle_of_answered
    {directive : Directive}
    (answered : waits ≠ none → ¬Unanswered (some line))
    (keyword : ofKeyword? line.first = some directive) :
    waits = none := by
  by_contra waiting
  exact answered waiting (Reading.unanswered_some.mpr ⟨directive, keyword⟩)

/-- A value makes of a configuration what it makes of it behind its keyword,
whether this is above or on the same line. -/
theorem makes_offers
    {directive : Directive}
    {value : String}
    {further : List String}
    (answered : waits ≠ none → ¬Unanswered (some line))
    (offers : Offers waits line directive value further) :
    Makes (heldLine waits ++ line.words :: lines.map Line.words) config last ↔
      further = [] ∧ ∃ next, Sets value config directive next ∧
        Makes (lines.map Line.words) next last := by
  cases offers with
  | sameLine keyword words =>
      cases idle_of_answered answered keyword
      rw [Line.words, words]
      cases further with
      | nil => simpa [heldLine] using makes_oneLine keyword
      | cons word further =>
          constructor
          · rintro ⟨items, spells, -⟩
            exact absurd spells not_spells_three
          · rintro ⟨none, -⟩
            cases none
  | nextLine plain waiting words =>
      subst waiting
      have same : line.first = value := (List.cons_eq_cons.mp words).1
      rw [words]
      refine (makes_twoLines (ofKeyword?_keyword directive)).trans ?_
      constructor
      · rintro ⟨_, _, next, follows, -, sets, makes⟩
        obtain ⟨here, rfl⟩ := List.cons_eq_cons.mp follows
        obtain ⟨rfl, rfl⟩ := List.cons_eq_cons.mp here
        exact ⟨rfl, next, sets, makes⟩
      · rintro ⟨rfl, next, sets, makes⟩
        exact ⟨value, _, next, rfl, same ▸ plain, sets, makes⟩

/-- Lines with an error make nothing of a configuration. -/
theorem Faulty.not_makes
    {problem : Problem}
    (answered : waits ≠ none → ¬Unanswered (some line))
    (faulty : Faulty waits line lines.head? problem) :
    ¬Makes (heldLine waits ++ line.words :: lines.map Line.words) config last := by
  cases faulty with
  | missingValue opens unanswered =>
      obtain ⟨alone, keyword⟩ := Line.opens_eq_some.mp opens
      cases idle_of_answered answered keyword
      rw [Line.words, alone]
      intro makes
      obtain ⟨value, rest, next, follows, plain, -⟩ := (makes_twoLines keyword).mp makes
      obtain ⟨line, others, rfl, first, -⟩ := List.map_eq_cons_iff.mp follows
      obtain ⟨directive, found⟩ := Reading.unanswered_some.mp unanswered
      obtain ⟨rfl, -⟩ := List.cons_eq_cons.mp first
      cases plain.symm.trans found
  | unknownDirective plain idle =>
      subst idle
      rintro ⟨items, spells, -⟩
      obtain ⟨directive, keyword⟩ := Spells.keyword spells
      cases plain.symm.trans keyword
  | extraWord offers =>
      rw [makes_offers answered offers]
      rintro ⟨none, -⟩
      cases none
  | malformed offers refuses =>
      rw [makes_offers answered offers]
      rintro ⟨-, next, sets, -⟩
      exact refuses sets.takes

/-- Lines make a configuration of another exactly if none of them is in error and
their items do. -/
theorem Judged.makes
    {errors : List ConfigError}
    {items : List Item}
    (judged : Judged waits lines errors items)
    (answered : waits ≠ none → ¬Unanswered lines.head?) :
    Makes (heldLine waits ++ lines.map Line.words) config last ↔
      errors = [] ∧ SetsAll items config last := by
  induction judged generalizing config with
  | @nil waits =>
      cases waits with
      | none => simp [heldLine, makes_nil, setsAll_nil]
      | some directive =>
          exact absurd Reading.unanswered_none (answered (Option.some_ne_none directive))
  | @opens waits line lines directive errors items opens follows _ inductionHypothesis =>
      obtain ⟨alone, keyword⟩ := Line.opens_eq_some.mp opens
      cases idle_of_answered answered keyword
      rw [← inductionHypothesis fun _ => follows, List.map_cons, Line.words, alone]
      exact (makes_twoLines keyword).trans
        (makes_twoLines (ofKeyword?_keyword directive)).symm
  | item offers takes _ inductionHypothesis =>
      have rest : ∀ next, Makes (List.map Line.words _) next last ↔ _ ∧ _ := fun next =>
        @inductionHypothesis next fun idle => absurd rfl idle
      simp only [List.map_cons, makes_offers answered offers, setsAll_cons,
        rest, true_and]
      constructor
      · rintro ⟨next, sets, clean, others⟩
        exact ⟨clean, next, sets, others⟩
      · rintro ⟨clean, next, sets, others⟩
        exact ⟨next, sets, clean, others⟩
  | faulty faulty _ _ =>
      refine iff_of_false (faulty.not_makes answered) ?_
      rintro ⟨none, -⟩
      cases none

end

/-- The options of a configuration can be honoured. -/
theorem defect?_eq_none {config : Config} :
    config.defect? = none ↔ 1 ≤ config.maxErrors ∧ 1 ≤ config.progressInterval := by
  unfold Config.defect?
  split_ifs <;> simp <;> omega

theorem ofDirectives_eq_ok_iff_makes
    {text : String}
    {config : Config} :
    Config.ofDirectives text = .ok config ↔
      Makes (remainingWords (text.toList.splitOn '\n')) {} config ∧
        config.defect? = none := by
  obtain ⟨errors, items, last, judged, sets, told⟩ := ofDirectives_judged text
  have makes : ∀ config, Makes ((contentLines text).map Line.words) {} config ↔
      errors = [] ∧ SetsAll items {} config := fun config =>
    judged.makes fun idle => absurd rfl idle
  rw [← contentLines_words, told]
  refine Iff.trans ?_ (and_congr_left' (makes config).symm)
  constructor
  · intro ended
    split at ended
    · rename_i none
      obtain ⟨clean, sound⟩ := List.append_eq_nil_iff.mp none
      cases ended
      exact ⟨⟨clean, sets⟩, Option.toList_eq_nil_iff.mp sound⟩
    · cases ended
  · rintro ⟨⟨rfl, again⟩, sound⟩
    cases again.unique sets
    simp [sound]

/-! ## Other ways to write a text -/

/-- No character is a blank. -/
def Unbroken (word : List Char) : Prop :=
  word.all (fun character => !Text.isBlank character) = true

theorem Unbroken.notBlank
    {word : List Char}
    (plain : Unbroken word) :
    ∀ character ∈ word, Text.isBlank character = false := by
  intro character member
  exact Bool.not_eq_true' _ |>.mp (List.all_eq_true.mp plain character member)

/-- Changes to the lines of a text that make no difference: a comment goes, or a line
of blanks, or blanks on either side of a line, or a value moves below its keyword. -/
inductive Rewritten : List (List Char) → List (List Char) → Prop
  | comment
      (before after : List (List Char))
      {line part : List Char}
      (cut : BeforeComment line part) :
      Rewritten (before ++ line :: after) (before ++ part :: after)
  | emptyLine
      (before after : List (List Char))
      {line : List Char}
      (blank : ∀ character ∈ line, Text.isBlank character = true) :
      Rewritten (before ++ line :: after) (before ++ after)
  | indentation
      (before after : List (List Char))
      {left right : List Char}
      (line : List Char)
      (blank : ∀ character ∈ left ++ right, Text.isBlank character = true) :
      Rewritten (before ++ (left ++ line ++ right) :: after) (before ++ line :: after)
  | lineBreak
      (before after : List (List Char))
      {key value : String}
      {directive : Directive}
      {gap : List Char}
      (keyword : ofKeyword? key = some directive)
      (separated : gap ≠ [] ∧ ∀ character ∈ gap, Text.isBlank character = true)
      (word : value ≠ "" ∧ Unbroken value.toList)
      (uncommented : uncommented value.toList = value.toList) :
      Rewritten (before ++ (key.toList ++ gap ++ value.toList) :: after)
        (before ++ key.toList :: value.toList :: after)

theorem remainingWords_append (first second : List (List Char)) :
    remainingWords (first ++ second) =
      remainingWords first ++ remainingWords second := by
  simp [remainingWords]

theorem remainingWords_cons
    (line : List Char)
    (lines : List (List Char)) :
    remainingWords (line :: lines) =
      [Text.words (uncommented line)].filter (· ≠ []) ++ remainingWords lines :=
  remainingWords_append [line] lines

/-- A keyword is a word without a mark. -/
theorem keyword_plain
    {key : String}
    {directive : Directive}
    (keyword : ofKeyword? key = some directive) :
    key.toList ≠ [] ∧ '\\' ∉ key.toList ∧ Unbroken key.toList := by
  unfold ofKeyword? at keyword
  split at keyword
  all_goals
    first
    | exact ⟨by decide, by decide, rfl⟩
    | cases keyword

theorem words_uncommented_margins
    {left right : List Char}
    (line : List Char)
    (blank : ∀ character ∈ left ++ right, Text.isBlank character = true) :
    Text.words (uncommented (left ++ line ++ right)) =
      Text.words (uncommented line) := by
  have blankLeft : ∀ character ∈ left,
      Text.isBlank character = true := fun character member =>
    blank character (List.mem_append_left _ member)
  have blankRight : ∀ character ∈ right,
      Text.isBlank character = true := fun character member =>
    blank character (List.mem_append_right _ member)
  have plain : '\\' ∉ left := by
    intro member
    cases blankLeft '\\' member
  rw [List.append_assoc, uncommented_append plain, words_indented blankLeft]
  rcases uncommented_append_margin line blankRight with same | longer
  · rw [same]
  · rw [longer, words_append_margin _ blankRight]

/-- Another way to write a text makes the same of a configuration. -/
theorem Rewritten.makes
    {first second : List (List Char)}
    (rewritten : Rewritten first second)
    {config last : Config} :
    Makes (remainingWords first) config last ↔
      Makes (remainingWords second) config last := by
  cases rewritten with
  | comment before after cut =>
      have same := cut.uncommented_eq
      rw [← beforeComment_iff.mp cut] at same ⊢
      simp only [remainingWords_append, remainingWords_cons, same]
  | @emptyLine before after line blank =>
      have nothing : Text.words (uncommented line) = [] := by
        have margins := @words_uncommented_margins line [] [] (by rwa [List.append_nil])
        rwa [List.append_nil, List.append_nil] at margins
      simp [remainingWords_append, remainingWords_cons, nothing]
  | indentation before after line blank =>
      simp only [remainingWords_append, remainingWords_cons,
        words_uncommented_margins line blank]
  | @lineBreak before after key value directive gap keyword separated word unmarked =>
      obtain ⟨nonempty, plain, noBlank⟩ := keyword_plain keyword
      have keyWord := words_word nonempty noBlank.notBlank
      have valueWord :=
        words_word (mt String.toList_eq_nil_iff.mp word.1) word.2.notBlank
      rw [String.ofList_toList] at keyWord valueWord
      have plainGap : '\\' ∉ gap := by
        intro member
        cases separated.2 '\\' member
      have keyLine : Text.words (uncommented key.toList) = [key] := by
        have whole := uncommented_append plain []
        rw [List.append_nil] at whole
        rw [whole, uncommented, List.append_nil, keyWord]
      have valueLine : Text.words (uncommented value.toList) = [value] := by
        rw [unmarked, valueWord]
      have bothLine : Text.words (uncommented (key.toList ++ gap ++ value.toList)) =
          [key, value] := by
        rw [List.append_assoc, uncommented_append plain,
          uncommented_append plainGap, unmarked]
        cases gap with
        | nil => exact absurd rfl separated.1
        | cons blank rest =>
            rw [List.cons_append,
              words_append_blank _ (separated.2 blank (by simp)), keyWord,
              words_indented (fun other member => separated.2 other (by simp [member])),
              valueWord]
            rfl
      simp only [remainingWords_append, remainingWords_cons, keyLine,
        valueLine, bothLine]
      exact makes_broken keyword

/-- A text of directives is accepted exactly if its remaining lines spell items that
make a configuration of the defaults which can be honoured. So comments, empty
lines, indentation, and line breaks before values make no difference. -/
theorem ofDirectives_eq_ok_iff
    (text : String)
    (config : Config) :
    (Config.ofDirectives text = .ok config ↔
      ∃ lines items, Remaining text lines ∧ Spells (lines.map Line.words) items ∧
        SetsAll items {} config ∧ 1 ≤ config.maxErrors ∧ 1 ≤ config.progressInterval) ∧
    (Config.ofDirectives text = .ok config → config.defect? = none) ∧
    ∀ other : String,
      Relation.EqvGen Rewritten (text.toList.splitOn '\n') (other.toList.splitOn '\n') →
        (Config.ofDirectives text = .ok config ↔
          Config.ofDirectives other = .ok config) := by
  refine ⟨?_, fun ended => (ofDirectives_eq_ok_iff_makes.mp ended).2,
    fun other rewritten => ?_⟩
  · simp only [ofDirectives_eq_ok_iff_makes, remaining_iff, exists_and_left,
      exists_eq_left, contentLines_words, defect?_eq_none]
    simp only [Makes, ← exists_and_right, and_assoc]
  · rw [ofDirectives_eq_ok_iff_makes, ofDirectives_eq_ok_iff_makes]
    refine and_congr_left' ?_
    generalize text.toList.splitOn '\n' = lines at rewritten ⊢
    generalize other.toList.splitOn '\n' = others at rewritten ⊢
    induction rewritten with
    | rel _ _ rewritten => exact rewritten.makes
    | refl _ => exact .rfl
    | symm _ _ _ same => exact same.symm
    | trans _ _ _ _ _ first second => exact first.trans second

/-- An option behind its keyword, with a comment, is the same below it. -/
theorem ofDirectives_two_lines :
    Config.ofDirectives "MAX_ERRORS +3\\* many" = .ok { maxErrors := 3 } ∧
      Config.ofDirectives "MAX_ERRORS\n+3" = .ok { maxErrors := 3 } := by
  obtain ⟨-, -, same⟩ :=
    ofDirectives_eq_ok_iff "MAX_ERRORS +3\\* many" { maxErrors := 3 }
  have accepted : Config.ofDirectives "MAX_ERRORS +3\\* many" =
    .ok { maxErrors := 3 } := by rfl
  refine ⟨accepted,
    (same "MAX_ERRORS\n+3" (.trans _ ["MAX_ERRORS +3".toList] _ ?_ ?_)).mp accepted⟩
  · exact .rel _ _ (.comment [] [] (beforeComment_uncommented _))
  · exact .rel _ _ (@Rewritten.lineBreak [] [] "MAX_ERRORS" "+3" .maxErrors [' ']
      rfl ⟨List.cons_ne_nil _ _, List.forall_mem_singleton.mpr rfl⟩ ⟨by decide, rfl⟩ rfl)

end Directive
end StateSpace
