import Mathlib.Data.List.Forall2
import StateSpace.Config.Directive

/-!
# Lines of directives

What is left of a text of directives once comments and empty lines are gone: the
numbers and the words of its remaining lines. A comment begins with the first
mark of its line, and words stand between blanks.
-/

namespace StateSpace
namespace Directive

/-- The part of a line before its comment, which begins with the first mark. -/
structure BeforeComment (line part : List Char) : Prop where
  cut : line = part ∨ ∃ comment, line = part ++ '\\' :: '*' :: comment
  first : ∀ before after, line = before ++ '\\' :: '*' :: after →
    part.length ≤ before.length

/-- The words between the blanks of a part of a line. -/
def wordsBetween (part : List Char) : List String :=
  ((part.splitOnP Text.isBlank).filter (· ≠ [])).map String.ofList

/-- The words of a line. -/
def Line.words (line : Line) : List String :=
  line.first :: line.others

/-- The lines of a text that have words before their comments, numbered from one. -/
def Remaining
    (text : String)
    (lines : List Line) : Prop :=
  ∃ parts, List.Forall₂ BeforeComment (text.toList.splitOn '\n') parts ∧
    lines.map (fun line => (line.words, line.number)) =
      ((parts.map wordsBetween).zipIdx 1).filter (·.1 ≠ [])

/-! ## Comments -/

/-- A text without a backslash holds no mark, so a comment begins behind it. -/
theorem uncommented_append
    {part : List Char}
    (plain : '\\' ∉ part)
    (rest : List Char) :
    uncommented (part ++ rest) = part ++ uncommented rest := by
  induction part with
  | nil => rfl
  | cons character part inductionHypothesis =>
      simp only [List.mem_cons, not_or] at plain
      rw [List.cons_append, uncommented, inductionHypothesis plain.2]
      · rfl
      · rintro others rfl
        exact absurd rfl plain.1

/-- A blank is no character of a mark. -/
theorem uncommented_append_margin
    (line : List Char)
    {margin : List Char}
    (blank : ∀ character ∈ margin, Text.isBlank character = true) :
    uncommented (line ++ margin) = uncommented line ∨
      uncommented (line ++ margin) = uncommented line ++ margin := by
  have unmarked : ∀ mark, Text.isBlank mark = false → mark ∉ margin := by
    intro mark plain member
    cases plain.symm.trans (blank mark member)
  fun_induction uncommented line with
  | case1 =>
      have whole := uncommented_append (unmarked '\\' rfl) []
      rw [List.append_nil] at whole
      exact .inr (whole.trans (List.append_nil margin))
  | case2 comment => exact .inl rfl
  | case3 character rest noMark inductionHypothesis =>
      have kept : uncommented (character :: rest ++ margin) =
          character :: uncommented (rest ++ margin) := by
        rw [List.cons_append, uncommented]
        rintro others rfl starts
        cases rest with
        | nil =>
          exact unmarked '*' rfl (by simp [show margin = '*' :: others from starts])
        | cons head tail =>
            obtain ⟨rfl, -⟩ := List.cons_eq_cons.mp starts
            exact noMark tail rfl rfl
      rw [kept]
      exact inductionHypothesis.imp (congrArg (character :: ·))
        (congrArg (character :: ·))

theorem beforeComment_uncommented (line : List Char) :
    BeforeComment line (uncommented line) := by
  fun_induction uncommented line with
  | case1 => exact ⟨.inl rfl, fun before after same => by simp at same⟩
  | case2 comment => exact ⟨.inr ⟨comment, rfl⟩, fun _ _ _ => Nat.zero_le _⟩
  | case3 character rest unmarked inductionHypothesis =>
      refine ⟨?_, fun before after same => ?_⟩
      · rcases inductionHypothesis.cut with same | ⟨comment, same⟩
        · exact .inl (congrArg (character :: ·) same)
        · exact .inr ⟨comment, congrArg (character :: ·) same⟩
      · cases before with
        | nil =>
            simp only [List.nil_append, List.cons.injEq] at same
            exact absurd same.2 (unmarked after same.1)
        | cons head tail =>
            simp only [List.cons_append, List.cons.injEq] at same
            exact Nat.succ_le_succ (inductionHypothesis.first tail after same.2)

theorem BeforeComment.length_le
    {line part other : List Char}
    (cut : BeforeComment line part)
    (again : BeforeComment line other) :
    part.length ≤ other.length := by
  rcases again.cut with rfl | ⟨comment, same⟩
  · rcases cut.cut with rfl | ⟨comment, rfl⟩
    · exact Nat.le_refl _
    · simp
  · exact cut.first other comment same

theorem BeforeComment.isPrefix
    {line part : List Char}
    (cut : BeforeComment line part) :
    part <+: line := by
  rcases cut.cut with rfl | ⟨comment, rfl⟩
  · exact List.prefix_refl _
  · exact List.prefix_append _ _

/-- There is one part of a line before its comment. -/
theorem beforeComment_iff
    {line part : List Char} :
    BeforeComment line part ↔ uncommented line = part := by
  constructor
  · intro cut
    have again := beforeComment_uncommented line
    refine (List.prefix_of_prefix_length_le again.isPrefix cut.isPrefix
      (again.length_le cut)).eq_of_length ?_
    exact Nat.le_antisymm (again.length_le cut) (cut.length_le again)
  · rintro rfl
    exact beforeComment_uncommented line

/-- The part before a comment has no comment. -/
theorem BeforeComment.uncommented_eq
    {line part : List Char}
    (cut : BeforeComment line part) :
    uncommented part = part := by
  refine beforeComment_iff.mp ⟨.inl rfl, fun before after same => ?_⟩
  obtain ⟨comment, whole⟩ := cut.isPrefix
  exact cut.first before (after ++ comment) (by rw [← whole, same]; simp)

/-! ## Words -/

theorem pieces_eq_splitOnP
    (separates : Char → Bool)
    (text : List Char) :
    Text.pieces separates text = text.splitOnP separates := by
  induction text with
  | nil => rfl
  | cons character rest inductionHypothesis =>
      rw [Text.pieces, inductionHypothesis, List.splitOnP_cons_eq_if_modifyHead]
      cases split : rest.splitOnP separates with
      | nil => exact absurd split (List.splitOnP_ne_nil separates rest)
      | cons piece others => rfl

theorem lines_eq_splitOn (text : List Char) :
    Text.lines text = text.splitOn '\n' :=
  pieces_eq_splitOnP _ text

theorem words_eq_wordsBetween (part : List Char) :
    Text.words part = wordsBetween part := by
  rw [Text.words, wordsBetween, pieces_eq_splitOnP]
  congr 2
  funext piece
  cases piece <;> rfl

/-- A blank stands between words. -/
theorem words_append_blank
    (left : List Char)
    {blank : Char}
    (isBlank : Text.isBlank blank = true)
    (right : List Char) :
    Text.words (left ++ blank :: right) = Text.words left ++ Text.words right := by
  simp only [words_eq_wordsBetween, wordsBetween,
    List.splitOnP_append_cons left right isBlank, List.filter_append, List.map_append]

/-- Blanks before a text add no word. -/
theorem words_indented
    {margin : List Char}
    (blank : ∀ character ∈ margin, Text.isBlank character = true)
    (part : List Char) :
    Text.words (margin ++ part) = Text.words part := by
  induction margin with
  | nil => rfl
  | cons character margin inductionHypothesis =>
      have first := words_append_blank [] (blank character (by simp)) (margin ++ part)
      rw [List.cons_append]
      exact first.trans
        (inductionHypothesis fun other member => blank other (by simp [member]))

theorem words_blank
    {line : List Char}
    (blank : ∀ character ∈ line, Text.isBlank character = true) :
    Text.words line = [] := by
  have alone := words_indented blank []
  rw [List.append_nil] at alone
  exact alone

/-- Blanks behind a text add no word. -/
theorem words_append_margin
    (part : List Char)
    {margin : List Char}
    (blank : ∀ character ∈ margin, Text.isBlank character = true) :
    Text.words (part ++ margin) = Text.words part := by
  cases margin with
  | nil => rw [List.append_nil]
  | cons first rest =>
      have nothing : Text.words rest = [] :=
        words_blank fun other member => blank other (by simp [member])
      rw [words_append_blank part (blank first (by simp)) rest, nothing, List.append_nil]

/-- Characters without a blank are one word. -/
theorem words_word
    {word : List Char}
    (nonempty : word ≠ [])
    (plain : ∀ character ∈ word, Text.isBlank character = false) :
    Text.words word = [String.ofList word] := by
  rw [words_eq_wordsBetween, wordsBetween, List.splitOnP_eq_singleton plain]
  simp [nonempty]

/-! ## Remaining lines -/

/-- The line of a number that some words make, if there are any. -/
def lineOf?
    (words : List String)
    (number : Nat) : Option Line :=
  match words with
  | [] => none
  | first :: others => some ⟨number, first, others⟩

theorem contentLines_eq (text : String) :
    contentLines text =
      ((text.toList.splitOn '\n').zipIdx 1).filterMap fun (line, number) =>
        lineOf? (Text.words (uncommented line)) number := by
  rw [contentLines, lines_eq_splitOn, List.zipIdx_succ, List.filterMap_map]
  rfl

theorem map_filterMap_lineOf?
    (lines : List (List Char))
    (first : Nat) :
    ((lines.zipIdx first).filterMap fun (line, number) =>
        lineOf? (Text.words (uncommented line)) number).map
      (fun line => (line.words, line.number)) =
      (((lines.map uncommented).map wordsBetween).zipIdx first).filter (·.1 ≠ []) := by
  induction lines generalizing first with
  | nil => rfl
  | cons line rest inductionHypothesis =>
      have others := inductionHypothesis (first + 1)
      simp only [List.map_cons, List.zipIdx_cons, List.filterMap_cons, List.filter_cons]
        at others ⊢
      rw [← words_eq_wordsBetween]
      cases Text.words (uncommented line) with
      | nil => simpa [lineOf?] using others
      | cons word further => simpa [lineOf?, Line.words] using others

theorem Line.words_number_injective :
    Function.Injective fun line : Line => (line.words, line.number) := by
  rintro ⟨number, first, others⟩ ⟨otherNumber, otherFirst, otherOthers⟩ same
  simp only [words, Prod.mk.injEq, List.cons.injEq] at same
  obtain ⟨⟨rfl, rfl⟩, rfl⟩ := same
  rfl

/-- The lines that are read are those that remain. -/
theorem remaining_iff
    {text : String}
    {lines : List Line} :
    Remaining text lines ↔ lines = contentLines text := by
  have parts : ∀ parts, List.Forall₂ BeforeComment (text.toList.splitOn '\n') parts ↔
      parts = (text.toList.splitOn '\n').map uncommented := by
    intro parts
    rw [eq_comm, ← List.forall₂_eq_eq_eq, List.forall₂_map_left_iff]
    have same : BeforeComment = fun line part => uncommented line = part :=
      funext₂ fun line part => propext beforeComment_iff
    rw [same]
  have shown := map_filterMap_lineOf? (text.toList.splitOn '\n') 1
  rw [← contentLines_eq] at shown
  simp only [Remaining, parts, exists_eq_left, ← shown]
  exact (List.map_injective_iff.mpr Line.words_number_injective).eq_iff

/-- The words of the lines that remain of some lines. -/
def remainingWords (lines : List (List Char)) : List (List String) :=
  (lines.map fun line => Text.words (uncommented line)).filter (· ≠ [])

theorem contentLines_words (text : String) :
    (contentLines text).map Line.words = remainingWords (text.toList.splitOn '\n') := by
  rw [contentLines_eq]
  generalize text.toList.splitOn '\n' = lines
  generalize 1 = first
  induction lines generalizing first with
  | nil => rfl
  | cons line rest inductionHypothesis =>
      have others := inductionHypothesis (first + 1)
      simp only [remainingWords, List.zipIdx_cons, List.filterMap_cons, List.map_cons,
        List.filter_cons] at others ⊢
      cases Text.words (uncommented line) with
      | nil => simpa [lineOf?] using others
      | cons word further => simpa [lineOf?, Line.words] using others

theorem number_of_lineOf?
    {words : List String}
    {number : Nat}
    {line : Line}
    (made : lineOf? words number = some line) :
    line.number = number := by
  cases words with
  | nil => cases made
  | cons first others =>
      cases made
      rfl

/-- The remaining lines are numbered in order, from one on. -/
theorem contentLines_ordered (text : String) :
    (contentLines text).Pairwise (fun line next => line.number < next.number) ∧
      ∀ line ∈ contentLines text, 0 < line.number := by
  rw [contentLines_eq]
  have ordered : ((text.toList.splitOn '\n').zipIdx 1).Pairwise fun left right =>
      left.2 < right.2 := by
    rw [← List.pairwise_map (f := Prod.snd), List.zipIdx_map_snd]
    exact List.pairwise_lt_range'
  constructor
  · refine List.Pairwise.filterMap _
      (fun left right before line made next follows => ?_) ordered
    rw [number_of_lineOf? made, number_of_lineOf? follows]
    exact before
  · intro line member
    obtain ⟨numbered, present, made⟩ := List.mem_filterMap.mp member
    rw [number_of_lineOf? made]
    exact Nat.lt_of_lt_of_le Nat.zero_lt_one (List.le_snd_of_mem_zipIdx present)

end Directive
end StateSpace
