import StateSpace.Proofs.Layout.LeafPlaces

/-!
# Paths of leaves

A path is put together from names and labels with marks between them. Names
without a mark can be read back from it: what leads to one part of a value leads
to no other, whatever follows. Hence no two leaves of a layout have one path,
and no path has the mark that separates a leaf from its text.
-/

namespace StateSpace

/-- The letters that paths and lines are put together with. -/
def marks : List Char :=
  ['.', '[', ']', '=']

/-- A text without marks. -/
def Plain (text : String) : Prop :=
  ∀ letter ∈ text.toList, letter ∉ marks

/-- A text that is empty or begins with a mark. -/
def Marked (text : String) : Prop :=
  ∀ letter ∈ text.toList.head?, letter ∈ marks

theorem Marked.empty : Marked "" := by
  simp [Marked]

/-- A plain text is what comes before the first mark. -/
theorem Plain.takeWhile_append
    {text rest : String}
    (plain : Plain text)
    (marked : Marked rest) :
    (text ++ rest).toList.takeWhile (· ∉ marks) = text.toList := by
  have stops : rest.toList.takeWhile (· ∉ marks) = [] := by
    unfold Marked at marked
    cases letters : rest.toList with
    | nil => rfl
    | cons letter others =>
        rw [letters] at marked
        exact List.takeWhile_cons_of_neg (by simpa using marked letter rfl)
  have goes : ∀ letter ∈ text.toList, decide (letter ∉ marks) = true :=
    fun letter member => decide_eq_true (plain letter member)
  rw [String.toList_append, List.takeWhile_append_of_pos goes, stops, List.append_nil]

/-- Plain texts that are followed by marks can be told apart. -/
theorem Plain.append_inj
    {first second firstRest secondRest : String}
    (firstPlain : Plain first)
    (secondPlain : Plain second)
    (firstMarked : Marked firstRest)
    (secondMarked : Marked secondRest)
    (same : first ++ firstRest = second ++ secondRest) :
    first = second := by
  rw [← String.toList_inj, ← firstPlain.takeWhile_append firstMarked,
    ← secondPlain.takeWhile_append secondMarked, same]

/-- Whatever marks follow, two texts remain different. -/
def Diverge (first second : String) : Prop :=
  ∀ firstRest secondRest, Marked firstRest → Marked secondRest →
    first ++ firstRest ≠ second ++ secondRest

theorem Plain.diverge
    {first second : String}
    (firstPlain : Plain first)
    (secondPlain : Plain second)
    (different : first ≠ second) :
    Diverge first second :=
  fun _ _ firstMarked secondMarked same =>
    different (firstPlain.append_inj secondPlain firstMarked secondMarked same)

theorem Diverge.prepend
    {first second : String}
    (start : String)
    (diverge : Diverge first second) :
    Diverge (start ++ first) (start ++ second) := by
  intro firstRest secondRest firstMarked secondMarked same
  rw [String.append_assoc, String.append_assoc, String.append_right_inj] at same
  exact diverge firstRest secondRest firstMarked secondMarked same

/-- Texts that a mark ends. -/
theorem Diverge.close
    {first second mark : String}
    (begins : ∀ rest, Marked (mark ++ rest))
    (diverge : Diverge first second) :
    Diverge (first ++ mark) (second ++ mark) := by
  intro firstRest secondRest _ _ same
  rw [String.append_assoc, String.append_assoc] at same
  exact diverge _ _ (begins firstRest) (begins secondRest) same

/-! ## Labels of positions -/

/-- The members of an enumeration have plain names. -/
def Scalar.PlainNames : Scalar → Prop
  | enumeration members => ∀ name ∈ members.names, Plain name
  | _ => True

theorem Plain.toString_int (number : Int) :
    Plain (toString number) := by
  have digits (value : Nat) : Plain value.repr := by
    intro letter member mark
    rw [Nat.repr_eq_ofList_toDigits, String.toList_ofList] at member
    have digit : letter.isDigit = true :=
      Nat.isDigit_of_mem_toDigits (by decide) (by decide) member
    simp only [marks, List.mem_cons, List.not_mem_nil, or_false] at mark
    rcases mark with rfl | rfl | rfl | rfl <;> simp at digit
  rw [Int.toString_eq_repr, Int.repr_eq_if]
  split
  · exact digits _
  · intro letter member
    rw [String.toList_append] at member
    rcases List.mem_append.mp member with sign | digit
    · rw [List.mem_singleton.mp (show letter ∈ ['-'] from sign)]
      decide
    · exact digits _ letter digit

theorem Members.member?_of_lt
    {members : Members}
    {position : Nat}
    (inside : position < members.count) :
    ∃ name ∈ members.names, members.member? position = some name :=
  ⟨_, Array.getElem_mem inside, Array.getElem?_eq_getElem inside⟩

namespace Scalar

variable
  {index : Scalar}
  {position : Nat}

/-- The labels of positions are plain. -/
theorem label_plain
    (plain : index.PlainNames)
    (inside : position < index.count) :
    Plain (index.label position) := by
  cases index with
  | boolean =>
      rw [label]
      split <;> simp [Plain, marks]
  | range bounds => exact Plain.toString_int _
  | enumeration members =>
      obtain ⟨name, member, found⟩ := Members.member?_of_lt inside
      rw [label, found]
      exact plain name member

/-- Different positions have different labels. -/
theorem label_injective
    {other : Nat}
    (inside : position < index.count)
    (otherInside : other < index.count)
    (same : index.label position = index.label other) :
    position = other := by
  cases index with
  | boolean =>
      simp only [count] at inside otherInside
      interval_cases position <;> interval_cases other <;> simp_all [label]
  | range bounds =>
      have small : bounds.count ≤ Word.limit := (Word.saturate_lt _).le
      simp only [label, Int.toString_eq_repr, Int.repr_inj, Int64.toInt_inj] at same
      exact Bounds.decode_injective (inside.trans_le small)
        (otherInside.trans_le small) same
  | enumeration members =>
      obtain ⟨name, -, found⟩ := Members.member?_of_lt inside
      obtain ⟨otherName, -, otherFound⟩ := Members.member?_of_lt otherInside
      rw [label, label, found, otherFound] at same
      cases show name = otherName from same
      exact Members.member?_inj found otherFound

end Scalar

/-! ## What leads to the parts of a value -/

/-- The names of fields and of members of enumerations are plain. -/
inductive Ty.PlainNames : Ty → Prop
  | scalar
      {leaf : Scalar}
      (leafPlain : leaf.PlainNames) :
      PlainNames (.scalar leaf)
  | array
      {index : Scalar}
      {element : Ty}
      (indexPlain : index.PlainNames)
      (elementPlain : PlainNames element) :
      PlainNames (.array index element)
  | record
      {fields : List (String × Ty)}
      (labelsPlain : ∀ field ∈ fields, Plain field.1)
      (fieldsPlain : ∀ field ∈ fields, PlainNames field.2) :
      PlainNames (.record fields)

/-- The names of variables, fields and members of enumerations are plain. -/
def Layout.PlainNames (layout : Layout) : Prop :=
  ∀ declared ∈ layout.entries.toList, Plain declared.name ∧ declared.ty.PlainNames

section Parts

variable {view part : View}

theorem View.part_plainNames
    (plain : view.ty.PlainNames)
    (member : part ∈ view.parts) :
    part.ty.PlainNames := by
  obtain ⟨ty, offset⟩ := view
  cases plain with
  | scalar leafPlain => cases member
  | array indexPlain elementPlain =>
      obtain ⟨position, -, rfl⟩ := List.mem_map.mp member
      exact elementPlain
  | record labelsPlain fieldsPlain =>
      rw [View.parts_record] at member
      obtain ⟨⟨name, ty, start⟩, placed, rfl⟩ := List.mem_map.mp member
      exact fieldsPlain _ (Ty.mem_placeFields placed).1

theorem View.part_built
    (built : view.ty.Built)
    (member : part ∈ view.parts) :
    part.ty.Built := by
  obtain ⟨ty, offset⟩ := view
  cases ty with
  | scalar leaf => cases member
  | array index element =>
      obtain ⟨position, -, rfl⟩ := List.mem_map.mp member
      exact built.partsBuilt
  | record fields =>
      rw [View.parts_record] at member
      obtain ⟨⟨name, ty, start⟩, placed, rfl⟩ := List.mem_map.mp member
      exact built.partsBuilt.2 _ (Ty.mem_placeFields placed).1

/-- What leads to a part begins with a mark, and is not taken for the end of a
path. -/
theorem View.labelledParts_marked
    (plain : view.ty.PlainNames)
    {label : String}
    (member : (label, part) ∈ view.labelledParts) :
    (∀ rest, Marked (label ++ rest)) ∧ '=' ∉ label.toList := by
  obtain ⟨ty, offset⟩ := view
  cases plain with
  | scalar leafPlain => cases member
  | @array index element indexPlain elementPlain =>
      obtain ⟨position, present, same⟩ := List.mem_map.mp member
      cases same
      have labelPlain := Scalar.label_plain indexPlain (List.mem_range.mp present)
      refine ⟨fun rest => ?_, fun separated => ?_⟩
      · simp [Marked, marks, String.append_assoc]
      · have inside : '=' ∈ (index.label position).toList := by simpa using separated
        exact labelPlain _ inside (by decide)
  | record labelsPlain fieldsPlain =>
      obtain ⟨⟨name, ty, start⟩, placed, same⟩ := List.mem_map.mp member
      cases same
      refine ⟨fun rest => ?_, fun separated => ?_⟩
      · simp [Marked, marks, String.append_assoc]
      · have inside : '=' ∈ name.toList := by simpa using separated
        exact labelsPlain _ (Ty.mem_placeFields placed).1 _ inside (by decide)

/-- What leads to one part leads to no other, whatever follows. -/
theorem View.labelledParts_diverge
    (built : view.ty.Built)
    (plain : view.ty.PlainNames) :
    view.labelledParts.Pairwise fun first second => Diverge first.1 second.1 := by
  obtain ⟨ty, offset⟩ := view
  cases plain with
  | scalar leafPlain => exact .nil
  | @array index element indexPlain elementPlain =>
      refine List.pairwise_map.mpr (List.nodup_range.pairwise_of_forall_ne ?_)
      intro position present other otherPresent different
      have inside := List.mem_range.mp present
      have otherInside := List.mem_range.mp otherPresent
      have labels : Diverge (index.label position) (index.label other) :=
        (Scalar.label_plain indexPlain inside).diverge
          (Scalar.label_plain indexPlain otherInside)
          fun same => different (Scalar.label_injective inside otherInside same)
      exact (labels.prepend "[").close fun rest => by simp [Marked, marks]
  | @record fields labelsPlain fieldsPlain =>
      have distinct : ((Ty.placeFields offset fields).map (·.1)).Nodup := by
        rw [Ty.map_placeFields_fst]
        exact built.partsBuilt.1
      refine List.pairwise_map.mpr ((List.pairwise_map.mp distinct).imp_of_mem ?_)
      intro first second firstPlaced secondPlaced different
      have firstPlain := labelsPlain _ (Ty.mem_placeFields firstPlaced).1
      have secondPlain := labelsPlain _ (Ty.mem_placeFields secondPlaced).1
      exact (firstPlain.diverge secondPlain different).prepend "."

end Parts

/-! ## Paths of different leaves -/

/-- A path begins with the path of its value, and goes on with a mark. -/
theorem View.leafPlaces_path
    {view : View}
    (plain : view.ty.PlainNames)
    {path : String}
    {place : LeafPlace}
    (member : place ∈ view.leafPlaces path) :
    ∃ rest, place.path = path ++ rest ∧ Marked rest := by
  induction view using View.scalars.induct generalizing path with
  | case1 view scalar =>
      obtain ⟨only, path, -, single⟩ := View.leafPlaces_scalar scalar path
      rw [single, List.mem_singleton] at member
      exact ⟨"", by rw [member, path, String.append_empty], .empty⟩
  | case2 view composite inductionHypothesis =>
      rw [Bool.not_eq_true] at composite
      rw [View.leafPlaces_composite composite] at member
      obtain ⟨⟨label, part⟩, labelled, within⟩ := List.mem_flatMap.mp member
      have present := View.mem_parts_of_labelled labelled
      obtain ⟨rest, same, -⟩ :=
        inductionHypothesis part present (View.part_plainNames plain present) within
      rw [String.append_assoc] at same
      exact ⟨label ++ rest, same, (View.labelledParts_marked plain labelled).1 rest⟩

/-- Leaves below diverging paths have different paths. -/
theorem View.leafPlaces_disjoint
    {first second : View}
    (firstPlain : first.ty.PlainNames)
    (secondPlain : second.ty.PlainNames)
    {firstPath secondPath : String}
    (diverge : Diverge firstPath secondPath) :
    ((first.leafPlaces firstPath).map LeafPlace.path).Disjoint
      ((second.leafPlaces secondPath).map LeafPlace.path) := by
  intro path firstMember secondMember
  obtain ⟨place, placed, rfl⟩ := List.mem_map.mp firstMember
  obtain ⟨other, otherPlaced, same⟩ := List.mem_map.mp secondMember
  obtain ⟨rest, path, marked⟩ := View.leafPlaces_path firstPlain placed
  obtain ⟨otherRest, otherPath, otherMarked⟩ :=
    View.leafPlaces_path secondPlain otherPlaced
  rw [path, otherPath] at same
  exact diverge rest otherRest marked otherMarked same.symm

/-- The paths of the leaves of a value are different. -/
theorem View.leafPlaces_nodup
    {view : View}
    (built : view.ty.Built)
    (plain : view.ty.PlainNames)
    (path : String) :
    ((view.leafPlaces path).map LeafPlace.path).Nodup := by
  induction view using View.scalars.induct generalizing path with
  | case1 view scalar =>
      obtain ⟨only, -, -, single⟩ := View.leafPlaces_scalar scalar path
      rw [single]
      exact List.nodup_singleton _
  | case2 view composite inductionHypothesis =>
      rw [Bool.not_eq_true] at composite
      rw [View.leafPlaces_composite composite, List.map_flatMap, List.nodup_flatMap]
      refine ⟨fun part labelled => ?_, ?_⟩
      · have present := View.mem_parts_of_labelled labelled
        exact inductionHypothesis part.2 present (View.part_built built present)
          (View.part_plainNames plain present) (path ++ part.1)
      · refine (View.labelledParts_diverge built plain).imp_of_mem ?_
        intro first second firstLabelled secondLabelled diverge
        exact View.leafPlaces_disjoint
          (View.part_plainNames plain (View.mem_parts_of_labelled firstLabelled))
          (View.part_plainNames plain (View.mem_parts_of_labelled secondLabelled))
          (diverge.prepend path)

/-- The mark between a leaf and its text is not part of the path. -/
theorem View.leafPlaces_unseparated
    {view : View}
    (plain : view.ty.PlainNames)
    {path : String}
    (unseparated : '=' ∉ path.toList)
    {place : LeafPlace}
    (member : place ∈ view.leafPlaces path) :
    '=' ∉ place.path.toList := by
  induction view using View.scalars.induct generalizing path with
  | case1 view scalar =>
      obtain ⟨only, same, -, single⟩ := View.leafPlaces_scalar scalar path
      rw [single, List.mem_singleton] at member
      rwa [member, same]
  | case2 view composite inductionHypothesis =>
      rw [Bool.not_eq_true] at composite
      rw [View.leafPlaces_composite composite] at member
      obtain ⟨⟨label, part⟩, labelled, within⟩ := List.mem_flatMap.mp member
      have present := View.mem_parts_of_labelled labelled
      have apart := (View.labelledParts_marked plain labelled).2
      refine inductionHypothesis part present
        (View.part_plainNames plain present) ?_ within
      rw [String.toList_append, List.mem_append]
      exact fun separated => separated.elim unseparated apart

section Layout

variable
  {size : Nat}
  {layout : Layout}

/-- The paths of the leaves of a layout in order. -/
def Layout.leafPaths (layout : Layout) : List String :=
  layout.leafPlaces.map LeafPlace.path

/-- The leaves of a state have the paths of its layout. -/
theorem Layout.Placed.leaves_paths
    (placed : layout.Placed)
    (room : layout.bits ≤ 8 * size)
    (block : Block size) :
    ∃ found, layout.leaves block = .ok found ∧ found.map (·.1) = layout.leafPaths := by
  refine ⟨_, placed.leaves_eq room block, ?_⟩
  rw [List.map_map]
  rfl

/-- The paths of the leaves of a layout are different. -/
theorem Layout.Built.leafPaths_nodup
    (built : layout.Built)
    (plain : layout.PlainNames) :
    layout.leafPaths.Nodup := by
  obtain ⟨declarations, -, accepted⟩ := id built
  have distinct := (Layout.declarations_of? accepted).1
  rw [Layout.leafPaths, Layout.leafPlaces, List.map_flatMap, List.nodup_flatMap]
  refine ⟨fun declared member => ?_, ?_⟩
  · exact View.leafPlaces_nodup (built.ty_built member) (plain declared member).2 _
  · refine (List.pairwise_map.mp distinct).imp_of_mem ?_
    intro first second firstMember secondMember different
    obtain ⟨firstName, firstPlain⟩ := plain first firstMember
    obtain ⟨secondName, secondPlain⟩ := plain second secondMember
    exact View.leafPlaces_disjoint firstPlain secondPlain
      (firstName.diverge secondName different)

/-- No path of a leaf has the mark that separates it from its text. -/
theorem Layout.PlainNames.leafPaths_unseparated
    (plain : layout.PlainNames)
    {path : String}
    (member : path ∈ layout.leafPaths) :
    '=' ∉ path.toList := by
  obtain ⟨place, placed, rfl⟩ := List.mem_map.mp member
  obtain ⟨declared, present, within⟩ := List.mem_flatMap.mp placed
  obtain ⟨namePlain, tyPlain⟩ := plain declared present
  exact View.leafPlaces_unseparated tyPlain
    (fun separated => namePlain _ separated (by decide))
    within

end Layout

end StateSpace
