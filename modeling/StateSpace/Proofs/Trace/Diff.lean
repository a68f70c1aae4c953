import StateSpace.Proofs.Layout.LeafPaths

/-!
# Reading a trace back

A trace that shows only what changes is read with a table of the leaves seen so
far. Each line overwrites the leaf of its path, so after the lines of a step the
table has all leaves of the step, as if all of them had been shown.
-/

namespace StateSpace

/-! ## Lines and tables of leaves -/

namespace Leaf

/-- The leaf that a line shows. -/
def ofLine? (line : String) : Option Leaf :=
  match line.toList.span (· ≠ '=') with
  | (before, '=' :: ' ' :: text) =>
    if before.getLast? = some ' ' then
      some (String.ofList before.dropLast, String.ofList text)
    else none
  | _ => none

/-- The table with the leaf of the same path replaced, and with a new leaf if there
is none. -/
def overwrite (leaf : Leaf) : List Leaf → List Leaf
  | [] => [leaf]
  | old :: rest => if old.1 = leaf.1 then leaf :: rest else old :: leaf.overwrite rest

/-- The table after leaves one after the other. -/
def overwriteAll (table leaves : List Leaf) : List Leaf :=
  leaves.foldl (fun known leaf => leaf.overwrite known) table

theorem ofLine?_line
    {leaf : Leaf}
    (unseparated : '=' ∉ leaf.1.toList) :
    ofLine? leaf.line = some leaf := by
  obtain ⟨path, text⟩ := leaf
  have letters : (path ++ " = " ++ text).toList =
      (path.toList ++ [' ']) ++ '=' :: ' ' :: text.toList := by
    simp
  have before : ∀ letter ∈ path.toList ++ [' '], decide (letter ≠ '=') = true := by
    intro letter member
    rcases List.mem_append.mp member with inside | last
    · exact decide_eq_true fun same => unseparated (same ▸ inside)
    · rw [List.mem_singleton.mp last]
      decide
  rw [ofLine?, line, letters, List.span_eq_takeWhile_dropWhile,
    List.takeWhile_append_of_pos before, List.dropWhile_append_of_pos before]
  simp

/-- A leaf is put in the place of the one with its path. -/
theorem overwrite_present
    {leaf old : Leaf}
    {before : List Leaf}
    (fresh : leaf.1 ∉ before.map (·.1))
    (same : old.1 = leaf.1)
    (rest : List Leaf) :
    leaf.overwrite (before ++ old :: rest) = before ++ leaf :: rest := by
  induction before with
  | nil => exact if_pos same
  | cons other others inductionHypothesis =>
      rw [List.map_cons, List.mem_cons, not_or] at fresh
      rw [List.cons_append, overwrite, if_neg (Ne.symm fresh.1),
        inductionHypothesis fresh.2]
      rfl

/-- A leaf of a new path is put last. -/
theorem overwrite_absent
    {leaf : Leaf}
    {table : List Leaf}
    (fresh : leaf.1 ∉ table.map (·.1)) :
    leaf.overwrite table = table ++ [leaf] := by
  induction table with
  | nil => rfl
  | cons other others inductionHypothesis =>
      rw [List.map_cons, List.mem_cons, not_or] at fresh
      rw [overwrite, if_neg (Ne.symm fresh.1), inductionHypothesis fresh.2]
      rfl

/-- In a table of different paths the earlier leaves have other paths. -/
theorem fresh_of_nodup
    {leaf : Leaf}
    {before rest : List Leaf}
    (distinct : ((before ++ leaf :: rest).map (·.1)).Nodup) :
    leaf.1 ∉ before.map (·.1) := by
  rw [List.map_append, List.map_cons] at distinct
  exact (List.nodup_middle.mp distinct).notMem ∘ List.mem_append_left _

theorem overwriteAll_absent
    {table leaves : List Leaf}
    (distinct : ((table ++ leaves).map (·.1)).Nodup) :
    overwriteAll table leaves = table ++ leaves := by
  induction leaves generalizing table with
  | nil => exact (List.append_nil table).symm
  | cons leaf rest inductionHypothesis =>
      have later : overwriteAll (table ++ [leaf]) rest = (table ++ [leaf]) ++ rest :=
        inductionHypothesis (by simpa using distinct)
      rw [List.append_assoc, List.singleton_append] at later
      rw [overwriteAll, List.foldl_cons, overwrite_absent (fresh_of_nodup distinct)]
      exact later

/-- Leaves that are left out are known already, and the others replace those of
their paths. -/
theorem overwriteAll_map
    {α : Type}
    (old new : α → Leaf)
    (shown : α → Bool)
    {items : List α}
    (paths : ∀ item ∈ items, (old item).1 = (new item).1)
    (known : ∀ item ∈ items, shown item = false → old item = new item)
    {before : List Leaf}
    (distinct : ((before ++ items.map new).map (·.1)).Nodup) :
    overwriteAll (before ++ items.map old) ((items.filter shown).map new) =
      before ++ items.map new := by
  induction items generalizing before with
  | nil => rfl
  | cons item rest inductionHypothesis =>
      have later : overwriteAll ((before ++ [new item]) ++ rest.map old)
          ((rest.filter shown).map new) = (before ++ [new item]) ++ rest.map new :=
        inductionHypothesis (fun other member => paths other (by simp [member]))
          (fun other member => known other (by simp [member])) (by simpa using distinct)
      simp only [List.append_assoc, List.singleton_append] at later
      cases visible : shown item with
      | false =>
          rw [List.filter_cons_of_neg (by simp [visible]), List.map_cons, List.map_cons,
            known item (by simp) visible]
          exact later
      | true =>
          rw [List.map_cons] at distinct
          have fresh : (new item).1 ∉ before.map (·.1) := fresh_of_nodup distinct
          rw [List.filter_cons_of_pos visible, List.map_cons, List.map_cons,
            List.map_cons, overwriteAll, List.foldl_cons,
            overwrite_present fresh (paths item (by simp))]
          exact later

end Leaf

/-! ## The leaves that a step is shown with -/

namespace Step

/-- The leaves of the step before, if there is one. -/
def leavesBefore (previous : Option Step) : List Leaf :=
  (previous.map Step.leaves).getD []

theorem changedLeaves_subset (previous leaves : List Leaf) :
    changedLeaves previous leaves ⊆ leaves := by
  induction leaves generalizing previous with
  | nil => exact List.Subset.refl _
  | cons leaf rest inductionHypothesis =>
      cases previous with
      | nil => exact List.cons_subset_cons _ (inductionHypothesis [])
      | cons old others =>
          rw [changedLeaves]
          split
          · exact List.subset_cons_of_subset _ (inductionHypothesis others)
          · exact List.cons_subset_cons _ (inductionHypothesis others)

theorem shownLeaves_subset
    (mode : TraceMode)
    (previous : Option Step)
    (step : Step) :
    step.shownLeaves mode previous ⊆ step.leaves := by
  cases mode with
  | off => exact List.Subset.refl _
  | full => exact List.Subset.refl _
  | diff =>
      cases previous with
      | none => exact List.Subset.refl _
      | some before => exact changedLeaves_subset before.leaves step.leaves

/-- The leaves that are shown turn those of the step before into those of the
step. -/
theorem overwriteAll_shownLeaves
    (mode : TraceMode)
    {previous : Option Step}
    {step : Step}
    (paths : ∀ before ∈ previous, before.leaves.map (·.1) = step.leaves.map (·.1))
    (distinct : (step.leaves.map (·.1)).Nodup) :
    Leaf.overwriteAll (leavesBefore previous) (step.shownLeaves mode previous) =
      step.leaves := by
  cases previous with
  | none =>
      have all : step.shownLeaves mode none = step.leaves := by cases mode <;> rfl
      rw [all]
      exact Leaf.overwriteAll_absent distinct
  | some before =>
      have samePaths := paths before rfl
      have sameLength : before.leaves.length = step.leaves.length := by
        simpa using congrArg List.length samePaths
      -- the leaves of both steps position by position
      let pairs := before.leaves.zip step.leaves
      have olds : pairs.map Prod.fst = before.leaves := List.map_fst_zip sameLength.le
      have news : pairs.map Prod.snd = step.leaves := List.map_snd_zip sameLength.ge
      have pairPaths : ∀ pair ∈ pairs, pair.1.1 = pair.2.1 := by
        rw [← olds, ← news, List.map_map, List.map_map] at samePaths
        exact List.map_inj_left.mp samePaths
      have shown (visible : Leaf × Leaf → Bool)
          (known : ∀ pair ∈ pairs, visible pair = false → pair.1 = pair.2) :
          Leaf.overwriteAll before.leaves ((pairs.filter visible).map Prod.snd) =
            step.leaves := by
        have distinctPairs :
            ((([] : List Leaf) ++ pairs.map Prod.snd).map (·.1)).Nodup := by
          rwa [List.nil_append, news]
        have whole :=
          Leaf.overwriteAll_map Prod.fst Prod.snd visible pairPaths known distinctPairs
        rwa [List.nil_append, List.nil_append, olds, news] at whole
      have full : Leaf.overwriteAll before.leaves step.leaves = step.leaves := by
        have whole := shown (fun _ => true) fun _ _ hidden => by cases hidden
        rwa [List.filter_true, news] at whole
      cases mode with
      | off => exact full
      | full => exact full
      | diff =>
          have changed := changedLeaves_map Prod.fst Prod.snd pairs
          rw [olds, news] at changed
          rw [shownLeaves, changed]
          refine shown _ fun pair member hidden => Prod.ext (pairPaths pair member) ?_
          simpa using hidden

end Step

/-! ## Traces read back -/

/-- What a report says of one step: the line of its label, the leaves that are
known after its lines, and the line that ends it. -/
structure Passage where
  label : String
  leaves : List Leaf
  rule : String
  deriving DecidableEq

namespace Passage

/-- The steps in the lines of a report, read with a table of the leaves known so
far and the label of the step that is being read. Inside of a step every line up
to the rule has to show a leaf. -/
def readFrom
    (table : List Leaf)
    (label : Option String) : List String → Option (List Passage)
  | [] => if label = none then some [] else none
  | line :: rest =>
    match label with
    | none => readFrom table (some line) rest
    | some first =>
      if line = "----------" then
        (⟨first, table, line⟩ :: ·) <$> readFrom table none rest
      else (Leaf.ofLine? line).bind fun leaf =>
        readFrom (leaf.overwrite table) (some first) rest

/-- The steps in the lines of a report. -/
def read (lines : List String) : Option (List Passage) :=
  readFrom [] none lines

/-- A step as it is read from a report that shows all of its leaves. -/
def ofStep (step : Step) : Passage :=
  ⟨"\t" ++ step.label ++ " fired.", step.leaves, "----------"⟩

/-- The lines of leaves overwrite the table, up to the rule. -/
theorem readFrom_leaves
    {leaves : List Leaf}
    (unseparated : ∀ leaf ∈ leaves, '=' ∉ leaf.1.toList)
    (table : List Leaf)
    (label : String)
    (rest : List String) :
    readFrom table (some label) (leaves.map Leaf.line ++ "----------" :: rest) =
      (⟨label, Leaf.overwriteAll table leaves, "----------"⟩ :: ·) <$>
        readFrom (Leaf.overwriteAll table leaves) none rest := by
  induction leaves generalizing table with
  | nil =>
      rw [List.map_nil, List.nil_append, readFrom]
      exact if_pos rfl
  | cons leaf others inductionHypothesis =>
      have shown : Leaf.ofLine? leaf.line = some leaf :=
        Leaf.ofLine?_line (unseparated leaf (by simp))
      have noRule : leaf.line ≠ "----------" := by
        intro same
        have nothing : Leaf.ofLine? "----------" = none := by decide
        rw [same, nothing] at shown
        cases shown
      rw [List.map_cons, List.cons_append, readFrom, if_neg noRule, shown]
      exact inductionHypothesis
        (fun other member => unseparated other (by simp [member])) _

variable {paths : List String}

/-- A step is read back from its lines if the leaves of the step before are
known. -/
theorem readFrom_lines
    (distinct : paths.Nodup)
    (unseparated : ∀ path ∈ paths, '=' ∉ path.toList)
    (mode : TraceMode)
    {previous : Option Step}
    {step : Step}
    (previousPaths : ∀ before ∈ previous, before.leaves.map (·.1) = paths)
    (stepPaths : step.leaves.map (·.1) = paths)
    (rest : List String) :
    readFrom (Step.leavesBefore previous) none (step.lines mode previous ++ rest) =
      (ofStep step :: ·) <$> readFrom (Step.leavesBefore (some step)) none rest := by
  subst stepPaths
  have shownUnseparated : ∀ leaf ∈ step.shownLeaves mode previous, '=' ∉ leaf.1.toList :=
    fun leaf member =>
      unseparated leaf.1
        (List.mem_map_of_mem (Step.shownLeaves_subset mode previous step member))
  have shown := readFrom_leaves shownUnseparated (Step.leavesBefore previous)
    ("\t" ++ step.label ++ " fired.") rest
  rw [Step.overwriteAll_shownLeaves mode previousPaths distinct] at shown
  rw [Step.lines, List.cons_append, List.cons_append, List.append_assoc]
  exact shown

/-- All steps of a trace are read back from its lines. -/
theorem readFrom_renderAfter
    (distinct : paths.Nodup)
    (unseparated : ∀ path ∈ paths, '=' ∉ path.toList)
    (mode : TraceMode)
    {previous : Option Step}
    {steps : List Step}
    (previousPaths : ∀ before ∈ previous, before.leaves.map (·.1) = paths)
    (stepPaths : ∀ step ∈ steps, step.leaves.map (·.1) = paths) :
    readFrom (Step.leavesBefore previous) none (Step.renderAfter mode previous steps) =
      some (steps.map ofStep) := by
  induction steps generalizing previous with
  | nil => rfl
  | cons step rest inductionHypothesis =>
      have thisPaths : ∀ before ∈ some step, before.leaves.map (·.1) = paths := by
        rintro before ⟨⟩
        exact stepPaths step (by simp)
      have later := inductionHypothesis thisPaths fun other member =>
        stepPaths other (by simp [member])
      rw [Step.renderAfter, readFrom_lines distinct unseparated mode previousPaths
        (stepPaths step (by simp)), later]
      rfl

end Passage

/-- If no name of a layout has a mark of paths or lines, the leaves of its states
have different paths. A trace of steps with these leaves that shows what changes
is then read back with all leaves of every step, and with the same labels and
rules, as a trace that shows everything. -/
theorem Layout.read_render
    {layout : Layout}
    (built : layout.Built)
    (plain : layout.PlainNames) :
    layout.leafPaths.Nodup ∧
    (∀ (size : Nat) (block : Block size), layout.bits ≤ 8 * size →
      ∃ found, layout.leaves block = .ok found ∧ found.map (·.1) = layout.leafPaths) ∧
    ∀ steps : List Step, (∀ step ∈ steps, step.leaves.map (·.1) = layout.leafPaths) →
      ∀ mode, Passage.read (Step.render mode steps) =
        some (steps.map Passage.ofStep) := by
  have distinct := built.leafPaths_nodup plain
  refine ⟨distinct, fun size block room => built.placed.leaves_paths room block, ?_⟩
  intro steps stepPaths mode
  have noneBefore : ∀ before ∈ (none : Option Step),
      before.leaves.map (·.1) = layout.leafPaths := by simp
  exact Passage.readFrom_renderAfter distinct
    (fun path => plain.leafPaths_unseparated) mode
    noneBefore stepPaths

namespace Crossing

theorem layout_plainNames : layout.PlainNames := by
  have sidesPlain : (Scalar.enumeration sides).PlainNames := by
    simp [Scalar.PlainNames, sides, Plain, marks]
  have coloursPlain : (Scalar.enumeration colours).PlainNames := by
    simp [Scalar.PlainNames, colours, Plain, marks]
  have sidePlain : Ty.PlainNames (.record side) := by
    refine .record ?_ ?_
    · simp [side, Plain, marks]
    · simp only [side, List.mem_cons, List.not_mem_nil, or_false,
        forall_eq_or_imp, forall_eq]
      exact ⟨.scalar coloursPlain, .scalar trivial⟩
  intro declared member
  obtain rfl := List.mem_singleton.mp member
  exact ⟨by simp [Plain, marks], .array sidesPlain sidePlain⟩

/-- Cars wait at the northern side, and the light of the southern side is green. -/
def waiting
    (label : String)
    (cars : Nat) : Step where
  label := label
  leaves := [("side[north].light", "red"), ("side[north].cars", toString cars),
    ("side[south].light", "green"), ("side[south].cars", "0")]

/-- A car arrives and leaves again. -/
def visit : List Step :=
  [waiting "Startstate empty" 0, waiting "Rule arrive" 1, waiting "Rule leave" 0]

/-- Half of the leaves are shown, and all of them are read back. -/
theorem read_render_crossing :
    (Step.render .diff visit).length = 12 ∧ (Step.render .full visit).length = 18 ∧
      Passage.read (Step.render .diff visit) = some (visit.map Passage.ofStep) := by
  have visitPaths : ∀ step ∈ visit, step.leaves.map (·.1) = layout.leafPaths := by
    rw [Layout.leafPaths, leafPlaces_eq]
    simp only [visit, List.mem_cons, List.not_mem_nil, or_false,
      forall_eq_or_imp, forall_eq]
    exact ⟨rfl, rfl, rfl⟩
  obtain ⟨-, -, reads⟩ := Layout.read_render layout_built layout_plainNames
  exact ⟨by decide, by decide, reads visit visitPaths .diff⟩

end Crossing

end StateSpace
