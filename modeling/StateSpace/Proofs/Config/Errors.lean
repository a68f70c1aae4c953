import StateSpace.Proofs.Config.Readings

/-!
# Errors of a text of directives

A text that is refused has an error for each line that is in error, in the order of
the lines, and behind them at most one for the configuration as a whole. An error
for a missing value is noticed late but belongs to the line of its keyword.
-/

namespace StateSpace
namespace Directive

/-- The directive that waits for its value behind some lines. -/
def waitsBehind (waits : Option Directive) : List Line → Option Directive
  | [] => waits
  | line :: lines => waitsBehind line.opens lines

/-- What is wrong with a line that stands between others. -/
def FaultyAt
    (before : List Line)
    (line : Line)
    (after : List Line)
    (problem : Problem) : Prop :=
  Faulty (waitsBehind none before) line after.head? problem

/-- What the errors of a text say of its lines, given the errors at its lines, its
items, and the configuration that these make of the defaults. -/
structure Explains
    (errors : List ConfigError)
    (lines : List Line)
    (located : List ConfigError)
    (items : List Item)
    (config : Config) : Prop where
  /-- At most one error follows those at the lines: the defect of the configuration. -/
  followed : errors = located ++ config.defect?.toList
  unlocated : ∀ error ∈ config.defect?, error.line = 0
  judged : Judged none lines located items
  configured : SetsAll items {} config
  ordered : located.Pairwise fun error next => error.line < next.line
  numbered : ∀ error ∈ located, 0 < error.line ∧ ∃ line ∈ lines, line.number = error.line
  told :
    ∀ before line after, lines = before ++ line :: after → ∀ message,
      ⟨line.number, message⟩ ∈ located ↔
        ∃ problem, FaultyAt before line after problem ∧ problem.message = message
  /-- A line in error sets no option. -/
  ignored :
    ∀ before line after problem, lines = before ++ line :: after →
      FaultyAt before line after problem →
        ((before.foldl Reading.step .start).step line).config =
          (before.foldl Reading.step .start).config

/-! ## Errors of judged lines -/

/-- One thing is wrong with a line. -/
theorem Faulty.unique
    {waits : Option Directive}
    {line : Line}
    {next : Option Line}
    {problem other : Problem}
    (faulty : Faulty waits line next problem)
    (again : Faulty waits line next other) :
    other = problem := by
  cases faulty with
  | missingValue opens _ =>
      cases again with
      | missingValue also _ =>
          cases opens.symm.trans also
          rfl
      | unknownDirective plain _ =>
        cases plain.symm.trans (Line.opens_eq_some.mp opens).2
      | extraWord offers => cases opens.symm.trans offers.opens
      | malformed offers _ => cases opens.symm.trans offers.opens
  | unknownDirective plain idle =>
      cases again with
      | missingValue opens _ => cases plain.symm.trans (Line.opens_eq_some.mp opens).2
      | unknownDirective _ _ => rfl
      | extraWord offers => exact absurd idle (offers.waits_ne_none plain)
      | malformed offers _ => exact absurd idle (offers.waits_ne_none plain)
  | extraWord offers =>
      cases again with
      | missingValue opens _ => cases opens.symm.trans offers.opens
      | unknownDirective plain idle => exact absurd idle (offers.waits_ne_none plain)
      | extraWord also =>
          obtain ⟨rfl, rfl, same⟩ := offers.unique also
          cases same
          rfl
      | malformed also _ => cases (offers.unique also).2.2
  | malformed offers refuses =>
      cases again with
      | missingValue opens _ => cases opens.symm.trans offers.opens
      | unknownDirective plain idle => exact absurd idle (offers.waits_ne_none plain)
      | extraWord also => cases (offers.unique also).2.2
      | malformed also _ =>
          obtain ⟨rfl, rfl, -⟩ := offers.unique also
          rfl

section

variable {waits : Option Directive} {line : Line} {lines before after : List Line}
  {errors : List ConfigError} {items : List Item}

/-- The first line has an error exactly if it is in error, and the others are judged
by themselves. -/
theorem Judged.first
    (judged : Judged waits (line :: lines) errors items) :
    ∃ (own : Option ConfigError) (rest : List ConfigError) (others : List Item),
      errors = own.toList ++ rest ∧ Judged line.opens lines rest others ∧
      ∀ error, error ∈ own ↔
        ∃ problem, Faulty waits line lines.head? problem ∧
          error = ⟨line.number, problem.message⟩ := by
  cases judged with
  | opens opens answered others =>
      refine ⟨none, _, _, rfl, by rwa [opens], fun error => iff_of_false nofun ?_⟩
      rintro ⟨problem, faulty, -⟩
      exact not_faulty_of_opens opens answered faulty
  | item offers takes others =>
      refine ⟨none, _, _, rfl, by rwa [offers.opens], fun error => iff_of_false nofun ?_⟩
      rintro ⟨problem, faulty, -⟩
      exact not_faulty_of_takes offers takes faulty
  | @faulty _ _ _ problem _ _ faulty others =>
      refine ⟨some ⟨line.number, problem.message⟩, _, _, rfl, others, fun error => ?_⟩
      rw [Option.mem_some, eq_comm]
      constructor
      · exact fun same => ⟨problem, faulty, same⟩
      · rintro ⟨other, again, same⟩
        rw [same, faulty.unique again]

/-- Every error is at one of the lines. -/
theorem Judged.numbered
    (judged : Judged waits lines errors items) :
    ∀ error ∈ errors, ∃ line ∈ lines, line.number = error.line := by
  induction lines generalizing waits errors items with
  | nil =>
      cases judged
      nofun
  | cons line lines inductionHypothesis =>
      obtain ⟨own, rest, others, rfl, judges, told⟩ := judged.first
      intro error member
      rcases List.mem_append.mp member with mine | other
      · obtain ⟨problem, -, rfl⟩ := (told error).mp (Option.mem_toList.mp mine)
        exact ⟨line, List.mem_cons_self, rfl⟩
      · obtain ⟨next, present, same⟩ := inductionHypothesis judges error other
        exact ⟨next, List.mem_cons_of_mem _ present, same⟩

/-- The errors stand in the order of their lines. -/
theorem Judged.ordered
    (judged : Judged waits lines errors items)
    (ordered : lines.Pairwise fun line next => line.number < next.number) :
    errors.Pairwise fun error next => error.line < next.line := by
  induction lines generalizing waits errors items with
  | nil =>
      cases judged
      exact .nil
  | cons line lines inductionHypothesis =>
      obtain ⟨own, rest, others, rfl, judges, told⟩ := judged.first
      refine List.pairwise_append.mpr
        ⟨?_, inductionHypothesis judges ordered.of_cons, fun error mine next other => ?_⟩
      · cases own <;> simp
      · obtain ⟨problem, -, rfl⟩ := (told error).mp (Option.mem_toList.mp mine)
        obtain ⟨later, present, same⟩ := judges.numbered next other
        rw [← same]
        exact List.rel_of_pairwise_cons ordered present

/-- The errors of lines are those of the first ones and those of the others. -/
theorem Judged.split
    (judged : Judged waits (before ++ after) errors items) :
    ∃ earlier later others, errors = earlier ++ later ∧
      (∀ error ∈ earlier, ∃ line ∈ before, line.number = error.line) ∧
      Judged (waitsBehind waits before) after later others := by
  induction before generalizing waits errors items with
  | nil => exact ⟨[], errors, items, rfl, nofun, judged⟩
  | cons line before inductionHypothesis =>
      obtain ⟨own, rest, others, rfl, judges, told⟩ := Judged.first judged
      obtain ⟨earlier, later, further, rfl, numbered, judges⟩ :=
        inductionHypothesis judges
      refine ⟨own.toList ++ earlier, later, further,
        (List.append_assoc ..).symm, ?_, judges⟩
      intro error member
      rcases List.mem_append.mp member with mine | other
      · obtain ⟨problem, -, rfl⟩ := (told error).mp (Option.mem_toList.mp mine)
        exact ⟨line, List.mem_cons_self, rfl⟩
      · obtain ⟨next, present, same⟩ := numbered error other
        exact ⟨next, List.mem_cons_of_mem _ present, same⟩

/-- A line has an error exactly if it is in error. -/
theorem Judged.told
    (judged : Judged waits (before ++ line :: after) errors items)
    (ordered : (before ++ line :: after).Pairwise fun line next => line.number <
      next.number)
    (message : String) :
    ⟨line.number, message⟩ ∈ errors ↔
      ∃ problem, Faulty (waitsBehind waits before) line after.head? problem ∧
        problem.message = message := by
  obtain ⟨earlier, later, items, rfl, numbered, judges⟩ := judged.split
  obtain ⟨own, rest, others, rfl, judges, told⟩ := judges.first
  obtain ⟨-, behind, apart⟩ := List.pairwise_append.mp ordered
  have notEarlier : ⟨line.number, message⟩ ∉ earlier := by
    intro member
    obtain ⟨other, present, same⟩ := numbered _ member
    exact Nat.ne_of_lt (apart other present line List.mem_cons_self) same
  have notLater : ⟨line.number, message⟩ ∉ rest := by
    intro member
    obtain ⟨other, present, same⟩ := judges.numbered _ member
    exact Nat.ne_of_gt (List.rel_of_pairwise_cons behind present) same
  simp only [List.mem_append, notEarlier, notLater, false_or, or_false,
    Option.mem_toList]
  refine (told _).trans (exists_congr fun problem => and_congr_right fun _ => ?_)
  rw [ConfigError.mk.injEq, eq_self, true_and]
  exact eq_comm

end

/-! ## Lines in error -/

namespace Reading

theorem step_waits
    (reading : Reading)
    (line : Line) :
    (reading.step line).waits = line.opens := by
  have steps := reading.step_steps line
  generalize reading.step line = next at steps
  cases steps with
  | opens opens => exact opens.symm
  | sets offers _ => exact offers.opens.symm
  | complains _ settled => exact settled.symm

theorem foldl_waits
    (lines : List Line)
    (reading : Reading) :
    (lines.foldl step reading).waits = waitsBehind reading.waits lines := by
  induction lines generalizing reading with
  | nil => rfl
  | cons line lines inductionHypothesis =>
      rw [List.foldl_cons, inductionHypothesis, step_waits]
      rfl

/-- A line in error sets no option. -/
theorem step_config
    {reading : Reading}
    {line : Line}
    {next : Option Line}
    {problem : Problem}
    (faulty : Faulty reading.waits line next problem) :
    (reading.step line).config = reading.config := by
  have steps := reading.step_steps line
  generalize reading.step line = after at steps
  cases steps with
  | opens _ => rfl
  | sets offers sets => exact absurd faulty (not_faulty_of_takes offers sets.takes)
  | complains _ _ => rfl

end Reading

theorem defect?_line
    {config : Config}
    {error : ConfigError}
    (defect : error ∈ config.defect?) :
    error.line = 0 := by
  unfold Config.defect? at defect
  split_ifs at defect
  all_goals cases defect
  all_goals rfl

/-- The errors of a text that is refused say exactly which of its lines are in
error, and at most one of them is of its configuration. -/
theorem ofDirectives_errors
    {text : String}
    {errors : List ConfigError}
    (refused : Config.ofDirectives text = .error errors) :
    ∃ lines located items config, Remaining text lines ∧
      Explains errors lines located items config := by
  obtain ⟨located, items, config, judged, sets, ended⟩ := ofDirectives_judged text
  obtain ⟨ordered, positive⟩ := contentLines_ordered text
  refine ⟨_, located, items, config, remaining_iff.mpr rfl, ?_⟩
  exact
    { followed := by
        rw [refused] at ended
        split at ended
        · cases ended
        · exact Except.error.inj ended
      unlocated := fun error defect => defect?_line defect
      judged := judged
      configured := sets
      ordered := judged.ordered ordered
      numbered := by
        intro error member
        obtain ⟨line, present, same⟩ := judged.numbered error member
        exact ⟨same ▸ positive line present, line, present, same⟩
      told := by
        intro before line after whole message
        rw [whole] at judged ordered
        exact judged.told ordered message
      ignored := by
        intro before line after problem whole faulty
        have waits : (before.foldl Reading.step .start).waits =
            waitsBehind none before :=
          Reading.foldl_waits before Reading.start
        rw [FaultyAt, ← waits] at faulty
        exact Reading.step_config faulty }

/-- A value that is none, a keyword without a value, and an option that cannot be
honoured. -/
theorem ofDirectives_errors_three :
    ∃ lines located items config,
      Remaining "THREADS many\nMAX_ERRORS 0\n\nWORKERS" lines ∧
        Explains
          [⟨1, "THREADS expects a non-negative integer, found \"many\""⟩,
            ⟨4, "THREADS requires a value"⟩, ⟨0, "max_errors must be at least 1"⟩]
          lines located items config :=
  ofDirectives_errors (by rfl)

end Directive
end StateSpace
