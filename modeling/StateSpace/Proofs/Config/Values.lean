import Mathlib.Data.List.Induction
import Mathlib.Data.Nat.Digits.Defs
import StateSpace.Config.Directive

/-!
# Values of directives

A directive takes words of one sort: truth values, counts, or modes of traces.
Which words these are is said here on its own, and setting an option is shown to
take exactly these. No keyword is among them.
-/

namespace StateSpace

/-! ## Letters -/

namespace Text

theorem toNat_toUpper (character : Char) :
    character.toUpper.toNat =
      if 97 ≤ character.toNat ∧ character.toNat ≤ 122 then character.toNat - 32
      else character.toNat := by
  have lower : 'a'.val ≤ character.val ∧ character.val ≤ 'z'.val ↔
      97 ≤ character.toNat ∧ character.toNat ≤ 122 := by
    simp only [UInt32.le_iff_toNat_le]
    rfl
  unfold Char.toUpper
  simp only [lower]
  split
  · rename_i inside
    change (character.val + ('A'.val - 'a'.val)).toNat = character.val.toNat - 32
    change 97 ≤ character.val.toNat ∧ character.val.toNat ≤ 122 at inside
    rw [UInt32.toNat_add, show ('A'.val - 'a'.val).toNat = 4294967264 from rfl]
    omega
  · rfl

theorem toNat_toLower (character : Char) :
    character.toLower.toNat =
      if 65 ≤ character.toNat ∧ character.toNat ≤ 90 then character.toNat + 32
      else character.toNat := by
  have upper : character.val ≥ 'A'.val ∧ character.val ≤ 'Z'.val ↔
      65 ≤ character.toNat ∧ character.toNat ≤ 90 := by
    simp only [ge_iff_le, UInt32.le_iff_toNat_le]
    rfl
  unfold Char.toLower
  simp only [upper]
  split
  · rename_i inside
    change (character.val + ('a'.val - 'A'.val)).toNat = character.val.toNat + 32
    change 65 ≤ character.val.toNat ∧ character.val.toNat ≤ 90 at inside
    rw [UInt32.toNat_add, show ('a'.val - 'A'.val).toNat = 32 from rfl]
    omega
  · rfl

/-- Two characters agree in upper case exactly if they agree in lower case. -/
theorem toUpper_eq_iff (left right : Char) :
    left.toUpper = right.toUpper ↔ left.toLower = right.toLower := by
  rw [← Char.toNat_inj, ← Char.toNat_inj, toNat_toUpper, toNat_toUpper, toNat_toLower,
    toNat_toLower]
  split_ifs <;> omega

/-- Two words differ at most in the case of their letters. -/
def SameLetters (left right : String) : Prop :=
  left.toList.map Char.toLower = right.toList.map Char.toLower

theorem sameLetters_iff_toUpper (left right : String) :
    SameLetters left right ↔
      left.toList.map Char.toUpper = right.toList.map Char.toUpper := by
  unfold SameLetters
  generalize left.toList = first
  generalize right.toList = second
  induction first generalizing second with
  | nil => cases second <;> simp
  | cons head tail inductionHypothesis =>
      cases second with
      | nil => simp
      | cons other rest =>
          simp only [List.map_cons, List.cons.injEq, inductionHypothesis, toUpper_eq_iff]

/-- A word is one of some names in upper case, whatever the case of its letters. -/
theorem exists_sameLetters_upper
    {word : String}
    {names : List String}
    (upper : ∀ name ∈ names, name.toList.map Char.toUpper = name.toList) :
    (∃ name ∈ names, SameLetters word name) ↔
      String.ofList (word.toList.map Char.toUpper) ∈ names := by
  have each : ∀ name ∈ names, (SameLetters word name ↔
      name = String.ofList (word.toList.map Char.toUpper)) := by
    intro name member
    rw [sameLetters_iff_toUpper, upper name member, eq_comm, ← String.toList_inj,
      String.toList_ofList]
  constructor
  · rintro ⟨name, member, same⟩
    rwa [← (each name member).mp same]
  · intro member
    exact ⟨_, member, (each _ member).mpr rfl⟩

/-- A word is one of some names in lower case, whatever the case of its letters. -/
theorem exists_sameLetters_lower
    {word : String}
    {names : List String}
    (lower : ∀ name ∈ names, name.toList.map Char.toLower = name.toList) :
    (∃ name ∈ names, SameLetters word name) ↔
      String.ofList (word.toList.map Char.toLower) ∈ names := by
  have each : ∀ name ∈ names, (SameLetters word name ↔
      name = String.ofList (word.toList.map Char.toLower)) := by
    intro name member
    rw [SameLetters, lower name member, eq_comm, ← String.toList_inj,
      String.toList_ofList]
  constructor
  · rintro ⟨name, member, same⟩
    rwa [← (each name member).mp same]
  · intro member
    exact ⟨_, member, (each _ member).mpr rfl⟩

end Text

namespace Directive

/-! ## Truth values -/

/-- The words for a truth value. -/
def flagNames : Bool → List String
  | true => ["TRUE", "ON", "YES"]
  | false => ["FALSE", "OFF", "NO"]

/-- A word stands for a truth value in letters of either case. -/
def IsFlag
    (word : String)
    (truth : Bool) : Prop :=
  ∃ name ∈ flagNames truth, Text.SameLetters word name

theorem flag?_eq_some
    {word : String}
    {truth : Bool} :
    flag? word = some truth ↔ IsFlag word truth := by
  have upper : ∀ name ∈ flagNames truth, name.toList.map Char.toUpper = name.toList := by
    cases truth <;> decide
  rw [IsFlag, Text.exists_sameLetters_upper upper, flag?]
  generalize String.ofList (word.toList.map Char.toUpper) = raised
  cases truth
  all_goals
    simp only [flagNames, List.mem_cons, List.not_mem_nil, or_false]
    split <;> simp_all

/-! ## Counts -/

/-- The characters of decimal digits. -/
def written (digits : List (Fin 10)) : List Char :=
  digits.map fun digit => Nat.digitChar digit.val

/-- The number that decimal digits stand for. -/
def numeral (digits : List (Fin 10)) : Nat :=
  Nat.ofDigits 10 (digits.reverse.map Fin.val)

/-- A word is a number in decimal, behind a plus sign or not, and fits a machine
word. -/
def IsCount
    (word : String)
    (number : Nat) : Prop :=
  number < 2 ^ 64 ∧ ∃ digits : List (Fin 10), digits ≠ [] ∧ number = numeral digits ∧
    (word.toList = written digits ∨ word.toList = '+' :: written digits)

theorem isDigit_iff (character : Char) :
    character.isDigit = true ↔
      ∃ digit : Fin 10, character = Nat.digitChar digit.val := by
  constructor
  · intro decimal
    have bounds : 48 ≤ character.toNat ∧ character.toNat ≤ 57 := by
      simpa [Char.isDigit, UInt32.le_iff_toNat_le] using decimal
    refine ⟨⟨character.toNat - 48, by omega⟩, ?_⟩
    have each : ∀ digit : Fin 10, (Nat.digitChar digit).toNat = 48 + digit := by decide
    rw [← Char.toNat_inj, each]
    simp only
    omega
  · rintro ⟨digit, rfl⟩
    revert digit
    decide

theorem all_isDigit_iff (characters : List Char) :
    characters.all Char.isDigit = true ↔ ∃ digits, characters = written digits := by
  simp only [List.all_eq_true, isDigit_iff]
  constructor
  · intro each
    induction characters with
    | nil => exact ⟨[], rfl⟩
    | cons character rest inductionHypothesis =>
        obtain ⟨digit, same⟩ := each character (by simp)
        obtain ⟨digits, others⟩ := inductionHypothesis fun other member =>
          each other (by simp [member])
        exact ⟨digit :: digits, by rw [same, others]; rfl⟩
  · rintro ⟨digits, rfl⟩ character member
    obtain ⟨digit, -, rfl⟩ := List.mem_map.mp member
    exact ⟨digit, rfl⟩

theorem foldl_written (digits : List (Fin 10)) :
    (written digits).foldl
      (fun number digit => 10 * number + (digit.toNat - '0'.toNat)) 0 =
      numeral digits := by
  have each : ∀ digit : Fin 10, (Nat.digitChar digit).toNat - '0'.toNat = digit :=
    by decide
  unfold written numeral
  induction digits using List.reverseRecOn with
  | nil => rfl
  | append_singleton digits digit inductionHypothesis =>
      rw [List.map_append, List.foldl_append, inductionHypothesis, List.reverse_append]
      simp only [List.map_cons, List.map_nil, List.foldl_cons, List.foldl_nil, each,
        List.reverse_cons, List.reverse_nil, List.nil_append, List.singleton_append,
        Nat.ofDigits_cons]
      exact Nat.add_comm ..

theorem decimal?_eq_some
    {characters : List Char}
    {number : Nat} :
    decimal? characters = some number ↔
      ∃ digits, digits ≠ [] ∧ number = numeral digits ∧ characters = written digits := by
  unfold decimal?
  rw [Option.ite_none_right_eq_some]
  constructor
  · rintro ⟨⟨nonempty, decimal⟩, value⟩
    obtain ⟨digits, rfl⟩ := (all_isDigit_iff characters).mp decimal
    rw [Option.some.injEq, foldl_written] at value
    refine ⟨digits, ?_, value.symm, rfl⟩
    rintro rfl
    exact nonempty rfl
  · rintro ⟨digits, nonempty, rfl, rfl⟩
    have decimal := (all_isDigit_iff (written digits)).mpr ⟨digits, rfl⟩
    exact ⟨⟨by simpa [written] using nonempty, decimal⟩,
      congrArg some (foldl_written digits)⟩

theorem written_ne_plus
    (digits : List (Fin 10))
    (rest : List Char) :
    written digits ≠ '+' :: rest := by
  intro same
  have digit : ∃ digit : Fin 10, '+' = Nat.digitChar digit.val := by
    rw [← isDigit_iff]
    refine List.all_eq_true.mp ((all_isDigit_iff _).mpr ⟨digits, rfl⟩) '+' ?_
    simp [same]
  revert digit
  decide

theorem count?_eq_some
    {word : String}
    {number : Nat} :
    count? word = some number ↔ IsCount word number := by
  unfold count? IsCount
  rw [Option.filter_eq_some_iff, decimal?_eq_some, decide_eq_true_eq, and_comm]
  refine and_congr_right fun _ => exists_congr fun digits => and_congr_right fun _ =>
    and_congr_right fun _ => ?_
  split
  · rename_i rest signed
    rw [signed]
    constructor
    · rintro rfl
      exact .inr rfl
    · rintro (unsigned | same)
      · exact absurd unsigned.symm (written_ne_plus digits rest)
      · exact List.tail_eq_of_cons_eq same
  · rename_i unsigned
    constructor
    · exact .inl
    · rintro (same | signed)
      · exact same
      · exact absurd signed (unsigned _)

/-! ## Modes of traces -/

/-- The words for a mode of traces. -/
def modeNames : TraceMode → List String
  | .off => ["off", "none"]
  | .diff => ["diff"]
  | .full => ["full"]

/-- A word stands for a mode of traces in letters of either case. -/
def IsTraceMode
    (word : String)
    (mode : TraceMode) : Prop :=
  ∃ name ∈ modeNames mode, Text.SameLetters word name

theorem parse_eq_ok
    {word : String}
    {mode : TraceMode} :
    TraceMode.parse word = .ok mode ↔ IsTraceMode word mode := by
  have lower : ∀ name ∈ modeNames mode, name.toList.map Char.toLower = name.toList := by
    cases mode <;> decide
  rw [IsTraceMode, Text.exists_sameLetters_lower lower, TraceMode.parse]
  generalize String.ofList (word.toList.map Char.toLower) = lowered
  cases mode
  all_goals
    simp only [modeNames, List.mem_cons, List.not_mem_nil, or_false]
    split <;> simp_all

/-! ## Setting an option -/

/-- What a directive makes of a configuration, given a word that it takes. -/
inductive Sets
    (word : String)
    (config : Config) : Directive → Config → Prop
  | symmetryReduction {truth : Bool} (value : IsFlag word truth) :
      Sets word config .symmetryReduction { config with symmetryReduction := truth }
  | deadlockDetection {truth : Bool} (value : IsFlag word truth) :
      Sets word config .deadlockDetection { config with deadlockDetection := truth }
  | overflowChecks {truth : Bool} (value : IsFlag word truth) :
      Sets word config .overflowChecks { config with overflowChecks := truth }
  | maxErrors {number : Nat} (value : IsCount word number) :
      Sets word config .maxErrors { config with maxErrors := number }
  | threads {number : Nat} (value : IsCount word number) :
      Sets word config .threads { config with threads := number }
  | counterexampleTrace {mode : TraceMode} (value : IsTraceMode word mode) :
      Sets word config .counterexampleTrace { config with counterexampleTrace := mode }
  | warmupThreshold {number : Nat} (value : IsCount word number) :
      Sets word config .warmupThreshold { config with warmupThreshold := number }
  | progressInterval {number : Nat} (value : IsCount word number) :
      Sets word config .progressInterval { config with progressInterval := number }

/-- The sorts of values. -/
inductive Kind
  | flag
  | count
  | traceMode

/-- The sort of values that a directive takes. -/
def kind : Directive → Kind
  | symmetryReduction | deadlockDetection | overflowChecks => .flag
  | maxErrors | threads | warmupThreshold | progressInterval => .count
  | counterexampleTrace => .traceMode

/-- A word is a value of a sort. -/
def Kind.Has : Kind → String → Prop
  | .flag, word => ∃ truth, IsFlag word truth
  | .count, word => ∃ number, IsCount word number
  | .traceMode, word => ∃ mode, IsTraceMode word mode

/-- A word is a value of the sort that a directive takes. -/
def Takes
    (directive : Directive)
    (word : String) : Prop :=
  directive.kind.Has word

/-- What is wrong with a word that a directive does not take. -/
def objection
    (directive : Directive)
    (word : String) : Problem :=
  match directive.kind with
  | .flag => .notAFlag directive word
  | .count => .notACount directive word
  | .traceMode =>
    .notATraceMode ("unknown trace mode " ++
      Text.quoted (String.ofList (word.toList.map Char.toLower)) ++
        " (expected off, diff or full)")

/-- How reading a value of some sort ends: with a value that the word stands for,
or with an objection. -/
inductive Reads
    {α : Type}
    (Means : α → Prop)
    (objection : Problem) : Except Problem α → Prop
  | value {value : α} (means : Means value) : Reads Means objection (.ok value)
  | refused (none : ∀ value, ¬Means value) : Reads Means objection (.error objection)

theorem apply_flag_reads
    (directive : Directive)
    (word : String) :
    Reads (IsFlag word) (.notAFlag directive word) (apply.flag directive word) := by
  unfold apply.flag
  cases found : flag? word with
  | some truth => exact .value (flag?_eq_some.mp found)
  | none =>
      refine .refused fun truth means => ?_
      cases found.symm.trans (flag?_eq_some.mpr means)

theorem apply_count_reads
    (directive : Directive)
    (word : String) :
    Reads (IsCount word) (.notACount directive word) (apply.count directive word) := by
  unfold apply.count
  cases found : count? word with
  | some number => exact .value (count?_eq_some.mp found)
  | none =>
      refine .refused fun number means => ?_
      cases found.symm.trans (count?_eq_some.mpr means)

theorem parse_reads (word : String) :
    Reads (IsTraceMode word) (objection .counterexampleTrace word)
      ((TraceMode.parse word).mapError .notATraceMode) := by
  cases found : TraceMode.parse word with
  | ok mode => exact .value (parse_eq_ok.mp found)
  | error complaint =>
      have told : .notATraceMode complaint = objection .counterexampleTrace word := by
        unfold TraceMode.parse at found
        split at found
        all_goals cases found
        rfl
      rw [Except.mapError, told]
      refine .refused fun mode means => ?_
      cases found.symm.trans (parse_eq_ok.mpr means)

/-- How setting an option ends: it is set to what the word stands for, or the
directive does not take the word. -/
inductive Applies
    (directive : Directive)
    (word : String)
    (config : Config) :
    Except Problem Config → Prop
  | set {next : Config} (takes : directive.Takes word)
    (sets : Sets word config directive next) :
      Applies directive word config (.ok next)
  | refused (refuses : ¬directive.Takes word) :
      Applies directive word config (.error (directive.objection word))

theorem Reads.applies
    {directive : Directive}
    {word : String}
    {config : Config}
    {α : Type}
    {Means : α → Prop}
    {read : Except Problem α}
    (reads : Reads Means (directive.objection word) read)
    (takes : directive.Takes word ↔ ∃ value, Means value)
    {update : α → Config}
    (sets : ∀ value, Means value → Sets word config directive (update value)) :
    Applies directive word config (read >>= fun value => pure (update value)) := by
  cases reads with
  | value means => exact .set (takes.mpr ⟨_, means⟩) (sets _ means)
  | refused none =>
      refine .refused fun taken => ?_
      obtain ⟨value, means⟩ := takes.mp taken
      exact none value means

theorem applies
    (directive : Directive)
    (word : String)
    (config : Config) :
    Applies directive word config (directive.apply word config) := by
  cases directive with
  | symmetryReduction =>
    exact (apply_flag_reads _ word).applies .rfl fun _ => .symmetryReduction
  | deadlockDetection =>
    exact (apply_flag_reads _ word).applies .rfl fun _ => .deadlockDetection
  | overflowChecks =>
    exact (apply_flag_reads _ word).applies .rfl fun _ => .overflowChecks
  | maxErrors => exact (apply_count_reads _ word).applies .rfl fun _ => .maxErrors
  | threads => exact (apply_count_reads _ word).applies .rfl fun _ => .threads
  | warmupThreshold =>
    exact (apply_count_reads _ word).applies .rfl fun _ => .warmupThreshold
  | progressInterval =>
    exact (apply_count_reads _ word).applies .rfl fun _ => .progressInterval
  | counterexampleTrace =>
      have applied := (parse_reads word).applies .rfl
        fun mode => @Sets.counterexampleTrace word config mode
      unfold apply
      cases found : TraceMode.parse word <;> rw [found] at applied <;> exact applied

section

variable {directive : Directive} {word : String} {config next : Config}

theorem apply_flag_of
    {truth : Bool}
    (value : IsFlag word truth) :
    apply.flag directive word = .ok truth := by
  rw [apply.flag, flag?_eq_some.mpr value]

theorem apply_count_of
    {number : Nat}
    (value : IsCount word number) :
    apply.count directive word = .ok number := by
  rw [apply.count, count?_eq_some.mpr value]

theorem Sets.apply_eq (sets : Sets word config directive next) :
    directive.apply word config = .ok next := by
  cases sets with
  | symmetryReduction value => rw [apply, apply_flag_of value]; rfl
  | deadlockDetection value => rw [apply, apply_flag_of value]; rfl
  | overflowChecks value => rw [apply, apply_flag_of value]; rfl
  | maxErrors value => rw [apply, apply_count_of value]; rfl
  | threads value => rw [apply, apply_count_of value]; rfl
  | counterexampleTrace value => rw [apply, parse_eq_ok.mpr value]; rfl
  | warmupThreshold value => rw [apply, apply_count_of value]; rfl
  | progressInterval value => rw [apply, apply_count_of value]; rfl

theorem Sets.takes (sets : Sets word config directive next) : directive.Takes word := by
  have ends := applies directive word config
  rw [sets.apply_eq] at ends
  cases ends with
  | set takes _ => exact takes

end

/-- No keyword is a value. -/
theorem not_takes_keyword
    {word : String}
    {directive : Directive}
    (keyword : ofKeyword? word = some directive)
    (other : Directive) :
    ¬other.Takes word := by
  have words : flag? word = none ∧ count? word = none ∧
      (TraceMode.parse word).isOk = false := by
    unfold ofKeyword? at keyword
    split at keyword
    all_goals
      first
      | decide
      | cases keyword
  obtain ⟨noFlag, noCount, noMode⟩ := words
  intro takes
  unfold Takes at takes
  cases sort : other.kind <;> rw [sort] at takes <;> obtain ⟨value, means⟩ := takes
  · cases noFlag.symm.trans (flag?_eq_some.mpr means)
  · cases noCount.symm.trans (count?_eq_some.mpr means)
  · rw [parse_eq_ok.mpr means] at noMode
    cases noMode

end Directive
end StateSpace
