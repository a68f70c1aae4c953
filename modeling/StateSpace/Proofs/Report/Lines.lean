import Mathlib.Data.List.Basic
import StateSpace.Report

/-!
# Progress lines

A report is printed line by line. A progress entry is one line, which carries the
number of states explored so far, and no other entry prints such a line unless it
quotes one: the lines of a trace and of a state are made from the texts of the model.
-/

namespace StateSpace

/-- A line that tells how many states have been explored, among other figures. -/
def Announces
    (line : String)
    (states : Nat) : Prop :=
  ∃ seconds rulesFired queued : Nat,
    line = "\t " ++ toString states ++ " states explored in " ++ toString seconds ++
      "s, with " ++ toString rulesFired ++ " rules fired and " ++ toString queued ++
      " states in the queue."

/-- Lines with the numbers of their progress lines, in order. A line that is not
counted is no progress line, unless it is one of those that are quoted. -/
inductive Announcing (quoted : List String) : List String → List Nat → Prop
  | nil : Announcing quoted [] []
  | announced
      {line : String}
      {states : Nat}
      {lines : List String}
      {sizes : List Nat}
      (announces : Announces line states)
      (rest : Announcing quoted lines sizes) :
      Announcing quoted (line :: lines) (states :: sizes)
  | other
      {line : String}
      {lines : List String}
      {sizes : List Nat}
      (quotes : ∀ states, Announces line states → line ∈ quoted)
      (rest : Announcing quoted lines sizes) :
      Announcing quoted (line :: lines) sizes

/-- The lines of an entry that are made from the texts of a model. -/
def Entry.quoted : Entry → List String
  | .fault _ trace state => trace.getD state
  | .text line => [line]
  | _ => []

/-- The number of states that an entry announces. -/
def Entry.progressSize? : Entry → Option Nat
  | .progress states .. => some states
  | _ => none

namespace Report

/-- The lines of a report that are made from the texts of a model. -/
def quoted (report : Report) : List String :=
  report.entries.toList.flatMap Entry.quoted

/-- The numbers of states in the progress entries of a report. -/
def progressSizes (report : Report) : List Nat :=
  report.entries.toList.filterMap Entry.progressSize?

/-- The numbers in the progress lines of the printed text. -/
structure ShowsProgress
    (report : Report)
    (sizes : List Nat) : Prop where
  /-- The text consists of the lines and nothing else. -/
  text : report.text = String.join (report.lines.map (· ++ "\n"))
  lines : Announcing report.quoted report.lines sizes

end Report

/-! ## Lines -/

theorem toList_toString
    (number : Nat) :
    (toString number).toList = Nat.toDigits 10 number := by
  rw [Nat.toString_eq_ofList_toDigits, String.toList_ofList]

theorem isDigit_of_mem_toDigits
    {number : Nat}
    {character : Char}
    (member : character ∈ Nat.toDigits 10 number) :
    character.isDigit = true :=
  Nat.isDigit_of_mem_toDigits (by decide) (by decide) member

namespace Announces

variable {line : String} {states : Nat}

theorem toList
    (announces : Announces line states) :
    ∃ rest, line.toList = '\t' :: ' ' :: (Nat.toDigits 10 states ++ ' ' :: rest) := by
  obtain ⟨seconds, rulesFired, queued, rfl⟩ := announces
  refine ⟨("states explored in " ++ toString seconds ++ "s, with " ++
    toString rulesFired ++ " rules fired and " ++ toString queued ++
    " states in the queue.").toList, ?_⟩
  rw [← toList_toString]
  simp only [String.toList_append, List.append_assoc]
  rfl

/-- The number can be read off the line. -/
theorem unique
    {others : Nat}
    (announces : Announces line states)
    (also : Announces line others) :
    states = others := by
  have digits : ∀ number rest,
      (Nat.toDigits 10 number ++ ' ' :: rest).takeWhile Char.isDigit =
        Nat.toDigits 10 number := by
    intro number rest
    rw [List.takeWhile_append_of_pos fun _ member => isDigit_of_mem_toDigits member]
    exact List.append_nil _
  obtain ⟨rest, same⟩ := announces.toList
  obtain ⟨beyond, again⟩ := also.toList
  rw [same] at again
  have written := congrArg (List.takeWhile Char.isDigit)
    (List.cons.inj (List.cons.inj again).2).2
  rw [digits, digits] at written
  have readBack : Function.LeftInverse (Nat.ofDigitChars 10 · 0) (Nat.toDigits 10) :=
    fun _ => Nat.ofDigitChars_ten_toDigits
  exact readBack.injective written

end Announces

/-- A line that begins in another way is no progress line. -/
theorem not_announces
    {line : String}
    (begins : line.toList.take 2 ≠ ['\t', ' '])
    (states : Nat) :
    ¬ Announces line states := by
  intro announces
  obtain ⟨rest, same⟩ := announces.toList
  exact begins (by rw [same]; rfl)

/-- A line on which a number follows the tab is no progress line. -/
theorem not_announces_number
    (number states : Nat)
    (rest : String) :
    ¬ Announces ("\t" ++ toString number ++ rest) states := by
  intro announces
  obtain ⟨beyond, same⟩ := announces.toList
  rw [String.toList_append, String.toList_append, toList_toString] at same
  cases written : Nat.toDigits 10 number with
  | nil => exact Nat.toDigits_ne_nil written
  | cons digit digits =>
      have decimal : digit.isDigit = true :=
        isDigit_of_mem_toDigits (written ▸ List.mem_cons_self ..)
      rw [written] at same
      have blank : digit = ' ' := (List.cons.inj (List.cons.inj same).2).1
      exact absurd (blank ▸ decimal) (by decide)

/-! ## Entries -/

namespace Announcing

variable {quoted : List String} {lines : List String} {sizes : List Nat}

theorem append
    {more : List String}
    {further : List Nat}
    (first : Announcing quoted lines sizes)
    (second : Announcing quoted more further) :
    Announcing quoted (lines ++ more) (sizes ++ further) := by
  induction first with
  | nil => exact second
  | announced announces _ inductionHypothesis =>
    exact .announced announces inductionHypothesis
  | other quotes _ inductionHypothesis => exact .other quotes inductionHypothesis

theorem mono
    {wider : List String}
    (announcing : Announcing quoted lines sizes)
    (subset : quoted ⊆ wider) :
    Announcing wider lines sizes := by
  induction announcing with
  | nil => exact .nil
  | announced announces _ inductionHypothesis =>
    exact .announced announces inductionHypothesis
  | other quotes _ inductionHypothesis =>
      exact .other (fun states announces => subset (quotes states announces))
        inductionHypothesis

theorem silent
    (quotes : ∀ line ∈ lines, ∀ states, Announces line states → line ∈ quoted) :
    Announcing quoted lines [] := by
  induction lines with
  | nil => exact .nil
  | cons line rest inductionHypothesis =>
      have others := inductionHypothesis fun other member =>
        quotes other (List.mem_cons_of_mem _ member)
      exact .other (quotes line (List.mem_cons_self ..)) others

theorem plain
    (begins : ∀ line ∈ lines, line.toList.take 2 ≠ ['\t', ' ']) :
    Announcing quoted lines [] :=
  .silent fun line member states announces =>
    absurd announces (not_announces (begins line member) states)

theorem quotation
    (lines : List String) :
    Announcing lines lines [] :=
  .silent fun _ member _ _ => member

/-- If nothing that is quoted reads like a progress line, the lines determine which
numbers they announce. -/
theorem unique
    {others : List Nat}
    (plain : ∀ line ∈ quoted, ∀ states, ¬ Announces line states)
    (announcing : Announcing quoted lines sizes)
    (also : Announcing quoted lines others) :
    sizes = others := by
  induction announcing generalizing others with
  | nil => cases also; rfl
  | announced announces _ inductionHypothesis =>
      cases also with
      | announced again rest =>
          rw [announces.unique again, inductionHypothesis rest]
      | other quotes _ => exact absurd announces (plain _ (quotes _ announces) _)
  | other quotes _ inductionHypothesis =>
      cases also with
      | announced announces _ => exact absurd announces (plain _ (quotes _ announces) _)
      | other _ rest => exact inductionHypothesis rest

end Announcing

namespace Entry

/-- A progress entry is a single line, which carries its number. -/
theorem announcing_progress
    (quoted : List String)
    (states rulesFired queued : Nat)
    (elapsed : Duration) :
    Announcing quoted (progress states elapsed rulesFired queued).lines [states] :=
  .announced ⟨elapsed.seconds, rulesFired, queued, rfl⟩ .nil

example :
    (progress 100 .zero 3 5).lines =
      ["\t 100 states explored in 0s, with 3 rules fired and 5 states in the queue."] := by
  decide

/-- A fault is no progress, but for what it quotes. -/
theorem announcing_fault
    (record : FaultRecord)
    (trace : Option (List String))
    (state : List String) :
    Announcing (fault record trace state).quoted
      (fault record trace state).lines [] := by
  cases trace with
  | none =>
      exact (Announcing.plain (by simp [String.toList_append])).append (.quotation state)
  | some trace =>
      exact ((Announcing.plain (by simp [String.toList_append])).append
        (.quotation trace)).append (.plain (by simp))

theorem not_announces_verdict
    (errors states : Nat) :
    ¬ Announces (verdict errors) states := by
  match errors with
  | 0 => exact not_announces (by decide) states
  | 1 => exact not_announces (by decide) states
  | errors + 2 => exact not_announces_number (errors + 2) states " errors found."

theorem announcing_summary
    (quoted : List String)
    (totals : Totals) :
    Announcing quoted (summary totals).lines [] := by
  have blank : ∀ states, ¬ Announces "" states := not_announces (by decide)
  have banner : ∀ states, ¬ Announces (String.ofList (List.replicate 74 '=')) states :=
    not_announces (by simp)
  have status : ∀ states, ¬ Announces "Status:" states := not_announces (by decide)
  have space : ∀ states, ¬ Announces "State Space Explored:" states :=
    not_announces (by decide)
  have figures : ∀ states, ¬ Announces ("\t" ++ toString totals.states ++ " states, " ++
      toString totals.rulesFired ++ " rules fired in " ++
      toString totals.elapsed.seconds ++ "s.") states := by
    intro states
    simpa only [String.append_assoc] using not_announces_number totals.states states
      (" states, " ++ toString totals.rulesFired ++ " rules fired in " ++
        toString totals.elapsed.seconds ++ "s.")
  have none : ∀ line ∈ (summary totals).lines, ∀ states, ¬ Announces line states := by
    simp only [lines, List.forall_mem_cons]
    exact ⟨blank, banner, blank, status, blank,
      not_announces_verdict totals.errors, blank, space, blank, figures, nofun⟩
  exact .silent fun line member states announces =>
    absurd announces (none line member states)

theorem announcing (entry : Entry) :
    Announcing entry.quoted entry.lines entry.progressSize?.toList := by
  cases entry with
  | progress states elapsed rulesFired queued => exact announcing_progress ..
  | fault record trace state => exact announcing_fault ..
  | summary totals => exact announcing_summary ..
  | text line => exact .quotation _

end Entry

/-! ## Reports -/

namespace Report

@[simp] theorem lines_empty : ({} : Report).lines = [] := rfl

@[simp] theorem lines_add
    (report : Report)
    (entry : Entry) :
    (report.add entry).lines = report.lines ++ entry.lines := by
  simp [lines, add]

/-- What has been printed stays, and an entry adds its lines. -/
theorem text_add
    (report : Report)
    (entry : Entry) :
    (report.add entry).text =
      report.text ++ String.join (entry.lines.map (· ++ "\n")) := by
  simp [text]

/-- The bytes of a report are those of its text. -/
theorem byteCount_eq
    (report : Report) :
    report.byteCount = report.text.utf8ByteSize := by
  unfold byteCount text
  induction report.lines with
  | nil => rfl
  | cons line rest inductionHypothesis =>
      rw [List.foldr_cons, inductionHypothesis, List.map_cons, String.join_cons,
        String.utf8ByteSize_append, String.utf8ByteSize_append]
      rfl

/-- A report is flushed if its sink can be flushed and has taken the whole text. -/
theorem flush_eq_ok_iff
    (report : Report)
    (sink : Sink) :
    report.flush sink = .ok () ↔ sink.flushes = true ∧
      ∀ room, sink.room = some room → report.text.utf8ByteSize ≤ room := by
  unfold flush isIncomplete
  rw [← byteCount_eq]
  cases sink.flushes <;> cases sink.room <;> simp

/-- The progress lines of a report are those of its progress entries. -/
theorem showsProgress (report : Report) : report.ShowsProgress report.progressSizes := by
  refine ⟨rfl, ?_⟩
  unfold progressSizes Report.lines quoted
  rw [List.filterMap_eq_flatMap_toList]
  induction report.entries.toList with
  | nil => exact .nil
  | cons entry rest inductionHypothesis =>
      have first :=
        entry.announcing.mono (List.subset_append_left _ (rest.flatMap Entry.quoted))
      have others := inductionHypothesis.mono (List.subset_append_right entry.quoted _)
      exact first.append others

/-- The text determines the numbers, if nothing that it quotes reads like progress. -/
theorem ShowsProgress.unique
    {report : Report}
    {sizes others : List Nat}
    (plain : ∀ line ∈ report.quoted, ∀ states, ¬ Announces line states)
    (shows : report.ShowsProgress sizes)
    (also : report.ShowsProgress others) :
    sizes = others :=
  shows.lines.unique plain also.lines

end Report
end StateSpace
