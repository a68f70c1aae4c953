import StateSpace.Proofs.Config.Grammar

/-!
# Reading lines of directives

Every remaining line of a text is judged by itself: by the directive that waits
when it comes, its words, and the line that follows. It begins an item, it ends
one, or it is in error. Reading the lines of a text comes to the items and the
errors of these judgements, although a keyword without a value is noticed only at
the next line, or at the end of the text.
-/

namespace StateSpace
namespace Directive

/-- The directive that waits for its value behind a line: its keyword stands
there alone. -/
def Line.opens (line : Line) : Option Directive :=
  if line.others = [] then ofKeyword? line.first else none

/-- No value comes next: the text ends, or the next line begins with a keyword. -/
def Unanswered (next : Option Line) : Prop :=
  ∀ line ∈ next, ∃ directive, ofKeyword? line.first = some directive

/-- A line offers a value to a directive, with further words behind it: to its own
directive, or to the one that waits. -/
inductive Offers
    (waits : Option Directive)
    (line : Line) :
    Directive → String → List String → Prop
  | sameLine
      {directive : Directive}
      {value : String}
      {further : List String}
      (keyword : ofKeyword? line.first = some directive)
      (words : line.others = value :: further) :
      Offers waits line directive value further
  | nextLine
      {directive : Directive}
      {value : String}
      {further : List String}
      (plain : ofKeyword? line.first = none)
      (waiting : waits = some directive)
      (words : line.words = value :: further) :
      Offers waits line directive value further

/-- What is wrong with a line that comes while a directive waits, or none, and
that another line follows, or none. -/
inductive Faulty
    (waits : Option Directive)
    (line : Line)
    (next : Option Line) : Problem → Prop
  | missingValue
      {directive : Directive}
      (opens : line.opens = some directive)
      (unanswered : Unanswered next) :
      Faulty waits line next (.missingValue directive)
  | unknownDirective
      (plain : ofKeyword? line.first = none)
      (idle : waits = none) :
      Faulty waits line next (.unknownDirective line.first)
  | extraWord
      {directive : Directive}
      {value word : String}
      {further : List String}
      (offers : Offers waits line directive value (word :: further)) :
      Faulty waits line next (.extraWord directive word)
  | malformed
      {directive : Directive}
      {value : String}
      (offers : Offers waits line directive value [])
      (refuses : ¬directive.Takes value) :
      Faulty waits line next (directive.objection value)

/-- The errors and the items of lines, each line judged in its turn. -/
inductive Judged : Option Directive → List Line → List ConfigError → List Item → Prop
  | nil {waits : Option Directive} : Judged waits [] [] []
  | opens
      {waits : Option Directive}
      {line : Line}
      {lines : List Line}
      {directive : Directive}
      {errors : List ConfigError}
      {items : List Item}
      (opens : line.opens = some directive)
      (answered : ¬Unanswered lines.head?)
      (others : Judged (some directive) lines errors items) :
      Judged waits (line :: lines) errors items
  | item
      {waits : Option Directive}
      {line : Line}
      {lines : List Line}
      {directive : Directive}
      {value : String}
      {errors : List ConfigError}
      {items : List Item}
      (offers : Offers waits line directive value [])
      (takes : directive.Takes value)
      (others : Judged none lines errors items) :
      Judged waits (line :: lines) errors (⟨directive, value⟩ :: items)
  | faulty
      {waits : Option Directive}
      {line : Line}
      {lines : List Line}
      {problem : Problem}
      {errors : List ConfigError}
      {items : List Item}
      (faulty : Faulty waits line lines.head? problem)
      (others : Judged line.opens lines errors items) :
      Judged waits (line :: lines) (⟨line.number, problem.message⟩ :: errors) items

/-! ## Judging one line -/

section

variable {waits : Option Directive} {line : Line} {directive : Directive}
  {value : String}
  {further : List String}

theorem Line.opens_eq_some :
    line.opens = some directive ↔
      line.others = [] ∧ ofKeyword? line.first = some directive :=
  Option.ite_none_right_eq_some

/-- A line that offers a value leaves no directive waiting. -/
theorem Offers.opens (offers : Offers waits line directive value further) :
    line.opens = none := by
  cases offers with
  | sameLine _ words => simp [Line.opens, words]
  | nextLine plain _ _ => simp [Line.opens, plain]

/-- A line offers one value to one directive. -/
theorem Offers.unique
    {other : Directive}
    {word : String}
    {rest : List String}
    (offers : Offers waits line directive value further)
    (again : Offers waits line other word rest) :
    other = directive ∧ word = value ∧ rest = further := by
  cases offers with
  | sameLine keyword words =>
      cases again with
      | sameLine also others =>
          cases keyword.symm.trans also
          cases words.symm.trans others
          exact ⟨rfl, rfl, rfl⟩
      | nextLine plain _ _ => cases keyword.symm.trans plain
  | nextLine plain waiting words =>
      cases again with
      | sameLine keyword _ => cases keyword.symm.trans plain
      | nextLine _ also others =>
          cases waiting.symm.trans also
          cases words.symm.trans others
          exact ⟨rfl, rfl, rfl⟩

/-- A directive waits where a line without a keyword offers a value. -/
theorem Offers.waits_ne_none
    (offers : Offers waits line directive value further)
    (plain : ofKeyword? line.first = none) :
    waits ≠ none := by
  rintro rfl
  cases offers with
  | sameLine keyword _ => cases keyword.symm.trans plain
  | nextLine _ waiting _ => cases waiting

/-- A line that begins an item is not in error. -/
theorem not_faulty_of_opens
    {next : Option Line}
    {problem : Problem}
    (opens : line.opens = some directive)
    (answered : ¬Unanswered next) :
    ¬Faulty waits line next problem := by
  intro faulty
  cases faulty with
  | missingValue _ unanswered => exact answered unanswered
  | unknownDirective plain _ => cases plain.symm.trans (Line.opens_eq_some.mp opens).2
  | extraWord offers => cases opens.symm.trans offers.opens
  | malformed offers _ => cases opens.symm.trans offers.opens

/-- A line that ends an item is not in error. -/
theorem not_faulty_of_takes
    {next : Option Line}
    {problem : Problem}
    (offers : Offers waits line directive value [])
    (takes : directive.Takes value) :
    ¬Faulty waits line next problem := by
  intro faulty
  cases faulty with
  | missingValue opens _ => cases opens.symm.trans offers.opens
  | unknownDirective plain idle => exact offers.waits_ne_none plain idle
  | extraWord again => cases (offers.unique again).2.2
  | malformed again refuses =>
      obtain ⟨rfl, rfl, -⟩ := offers.unique again
      exact refuses takes

end

/-! ## Reading one line -/

namespace Reading

/-- The directive that waits for its value. -/
def waits (reading : Reading) : Option Directive :=
  reading.pending.map Prod.fst

open scoped Classical in
/-- The error of a waiting directive whose value does not come next. -/
noncomputable def overdue
    (reading : Reading)
    (next : Option Line) : List ConfigError :=
  if Unanswered next then
    reading.pending.toList.map fun waiting =>
      ⟨waiting.2, (Problem.missingValue waiting.1).message⟩
  else []

/-- What reading a line comes to: a directive waits, an option is set, or the line
is in error. -/
inductive Steps
    (reading : Reading)
    (line : Line) : Reading → Prop
  | opens
      {directive : Directive}
      (opens : line.opens = some directive) :
      Steps reading line
        { config := reading.config
          errors := reading.errors ++ reading.overdue (some line)
          pending := some (directive, line.number) }
  | sets
      {directive : Directive}
      {value : String}
      {config : Config}
      (offers : Offers reading.waits line directive value [])
      (sets : Sets value reading.config directive config) :
      Steps reading line
        { config := config
          errors := reading.errors ++ reading.overdue (some line)
          pending := none }
  | complains
      {problem : Problem}
      (faulty : ∀ next, Faulty reading.waits line next problem)
      (settled : line.opens = none) :
      Steps reading line
        { config := reading.config
          errors := reading.errors ++ reading.overdue (some line) ++
            [⟨line.number, problem.message⟩]
          pending := none }

theorem unanswered_none : Unanswered none :=
  nofun

theorem unanswered_some {line : Line} :
    Unanswered (some line) ↔ ∃ directive, ofKeyword? line.first = some directive := by
  simp [Unanswered]

theorem overdue_of_unanswered
    {next : Option Line}
    (unanswered : Unanswered next)
    (reading : Reading) :
    reading.abandonPending =
      { config := reading.config
        errors := reading.errors ++ reading.overdue next
        pending := none } := by
  obtain ⟨config, errors, pending⟩ := reading
  cases pending with
  | none => simp [abandonPending, overdue]
  | some waiting => simp [abandonPending, overdue, complain, unanswered]

theorem overdue_of_answered
    {next : Option Line}
    (answered : ¬Unanswered next)
    (reading : Reading) :
    reading.overdue next = [] :=
  if_neg answered

theorem overdue_settled
    (config : Config)
    (errors : List ConfigError)
    (next : Option Line) :
    overdue ⟨config, errors, none⟩ next = [] := by
  simp [overdue]

theorem overdue_waiting
    {next : Option Line}
    (unanswered : Unanswered next)
    (config : Config)
    (errors : List ConfigError)
    (directive : Directive)
    (line : Nat) :
    overdue ⟨config, errors, some (directive, line)⟩ next =
      [⟨line, (Problem.missingValue directive).message⟩] := by
  simp [overdue, unanswered]

/-- Giving a value to a directive behind a line that offers it. -/
theorem assign_steps
    {reading settled : Reading}
    {line : Line}
    {directive : Directive}
    {value : String}
    {further : List String}
    (offers : Offers reading.waits line directive value further)
    (before : settled =
      { config := reading.config
        errors := reading.errors ++ reading.overdue (some line)
        pending := none }) :
    Steps reading line (settled.assign line.number directive value further) := by
  subst before
  cases further with
  | cons word further => exact .complains (fun _ => .extraWord offers) offers.opens
  | nil =>
      unfold assign
      have applied := applies directive value reading.config
      generalize directive.apply value reading.config = outcome at applied
      cases applied with
      | set _ sets => exact .sets offers sets
      | refused refuses =>
        exact .complains (fun _ => .malformed offers refuses) offers.opens

theorem step_steps
    (reading : Reading)
    (line : Line) :
    Steps reading line (reading.step line) := by
  unfold step
  cases keyword : ofKeyword? line.first with
  | some directive =>
      have settled :=
        overdue_of_unanswered (unanswered_some.mpr ⟨directive, keyword⟩) reading
      cases words : line.others with
      | nil =>
          simp only [settled]
          exact .opens (Line.opens_eq_some.mpr ⟨words, keyword⟩)
      | cons value further => exact assign_steps (.sameLine keyword words) settled
  | none =>
      have answered : ¬Unanswered (some line) := by simp [unanswered_some, keyword]
      have onTime := overdue_of_answered answered reading
      cases waiting : reading.pending with
      | some pair =>
          have held : reading.waits = some pair.1 :=
            congrArg (Option.map Prod.fst) waiting
          exact assign_steps (.nextLine keyword held rfl)
            (by rw [onTime, List.append_nil])
      | none =>
          have idle : reading.waits = none := congrArg (Option.map Prod.fst) waiting
          have closed : line.opens = none := by simp [Line.opens, keyword]
          have steps : Steps reading line _ :=
            .complains (fun _ => .unknownDirective keyword idle) closed
          rw [onTime, List.append_nil, ← waiting] at steps
          exact steps

/-! ## Reading lines -/

/-- Reading lines comes to the errors and the items of their judgements. -/
theorem foldl_judged
    (lines : List Line)
    (reading : Reading) :
    ∃ errors items, Judged reading.waits lines errors items ∧
      SetsAll items reading.config (lines.foldl step reading).config ∧
      (lines.foldl step reading).abandonPending.errors =
        reading.errors ++ reading.overdue lines.head? ++ errors := by
  induction lines generalizing reading with
  | nil =>
      refine ⟨[], [], .nil, .nil, ?_⟩
      rw [List.foldl_nil, overdue_of_unanswered unanswered_none reading, List.append_nil]
      rfl
  | cons line lines inductionHypothesis =>
      have steps := reading.step_steps line
      rw [List.foldl_cons]
      generalize reading.step line = next at steps
      obtain ⟨errors, items, judged, sets, told⟩ := inductionHypothesis next
      cases steps with
      | @opens directive opens =>
          by_cases unanswered : Unanswered lines.head?
          · have judges : Judged line.opens lines errors items := by rwa [opens]
            refine ⟨_, items, .faulty (.missingValue opens unanswered) judges, sets, ?_⟩
            rw [told, overdue_waiting unanswered, List.append_assoc]
            rfl
          · refine ⟨errors, items, .opens opens unanswered judged, sets, ?_⟩
            rw [told, overdue_of_answered unanswered, List.append_nil]
            rfl
      | sets offers first =>
          refine ⟨errors, _, .item offers first.takes judged, .cons first sets, ?_⟩
          rw [told, overdue_settled, List.append_nil]
          rfl
      | complains faulty settled =>
          have judges : Judged line.opens lines errors items := by rwa [settled]
          refine ⟨_, items, .faulty (faulty _) judges, sets, ?_⟩
          rw [told, overdue_settled, List.append_nil]
          simp

end Reading

/-- A text of directives comes to the errors and the items of its lines. -/
theorem ofDirectives_judged (text : String) :
    ∃ errors items config, Judged none (contentLines text) errors items ∧
      SetsAll items {} config ∧
      Config.ofDirectives text =
        match errors ++ config.defect?.toList with
        | [] => .ok config
        | all => .error all := by
  obtain ⟨errors, items, judged, sets, told⟩ :=
    Reading.foldl_judged (contentLines text) Reading.start
  have onTime : Reading.start.overdue (contentLines text).head? = [] :=
    Reading.overdue_settled ..
  rw [onTime] at told
  have kept :=
    congrArg Reading.config <| Reading.overdue_of_unanswered Reading.unanswered_none
    ((contentLines text).foldl Reading.step .start)
  refine ⟨errors, items, _, judged, sets, ?_⟩
  unfold Config.ofDirectives Reading.finish
  simp only [told, kept]
  rfl

end Directive
end StateSpace
