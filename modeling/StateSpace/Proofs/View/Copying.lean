import StateSpace.Proofs.View.Setting

/-!
# Copies of a window

A copy moves the bits of a window in chunks of at most a word, whose edges have
nothing to do with those of the scalars in it. It takes over exactly these bits,
whatever they stand for. If they stand for a value of the view's type then the
setter of the view stores the same bits, scalar by scalar.
-/

namespace StateSpace

variable {size sourceSize : Nat}

namespace Block

/-- A copy between windows succeeds, also if they are empty. -/
theorem copyBits_window
    (source : Block sourceSize)
    (target : Block size)
    {sourceOffset targetOffset width : Nat}
    (sourceWindow : HasWindow sourceSize sourceOffset width)
    (targetWindow : HasWindow size targetOffset width) :
    ∃ copied, copyBits source sourceOffset target targetOffset width = .ok copied ∧
      Copied source sourceOffset target targetOffset width copied := by
  rcases Nat.eq_zero_or_pos width with rfl | nonempty
  · refine ⟨target, ?_, fun index inside => absurd inside (Nat.not_lt_zero index),
      fun _ _ => rfl⟩
    rw [copyBits, if_pos rfl]
  · exact source.copyBits_ok target (sourceWindow.fits nonempty.ne')
      (targetWindow.fits nonempty.ne')

/-- The source and the target leave no bit of a copy open. -/
theorem Copied.unique
    {source : Block sourceSize}
    {target first second : Block size}
    {sourceOffset targetOffset width : Nat}
    (one : Copied source sourceOffset target targetOffset width first)
    (other : Copied source sourceOffset target targetOffset width second) :
    first = second := by
  ext index _
  by_cases covers : Covers targetOffset width index
  · obtain ⟨low, high⟩ := covers
    have inside : index - targetOffset < width := by omega
    have equal := (one.1 _ inside).trans (other.1 _ inside).symm
    rwa [Nat.add_sub_cancel' low] at equal
  · exact (one.2 index covers).trans (other.2 index covers).symm

end Block

/-- A setter takes over the bits of the block from which its value was read. -/
theorem View.Stores.copied
    {view : View}
    {value : Value}
    {source : Block sourceSize}
    {target : Block size}
    {outcome : Except Stop Unit × Block size}
    (stores : view.Stores value target outcome)
    (shaped : view.ty.Shaped)
    (sourceWindow : HasWindow sourceSize view.offset view.width)
    (targetWindow : HasWindow size view.offset view.width)
    (read : view.get source = .ok value)
    (typed : value.HasType view.ty) :
    Block.Copied source view.offset target view.offset view.width outcome.2 := by
  refine ⟨fun index inside => ?_, stores.outside⟩
  have same := (stores.accepted typed).2.trans read.symm
  exact View.bit_eq_of_get shaped targetWindow sourceWindow same
    ⟨Nat.le_add_right .., Nat.add_lt_add_left inside _⟩

/-- A copy of a view takes over the bits of its window and no others, and it is
what the setter makes of the value that the source holds, if this value is of the
view's type. The copy of a run of bits to another place takes over the bits of
the run and no others. -/
theorem View.copy_exact
    {view : View}
    (built : view.ty.Built)
    (sourceWindow : HasWindow sourceSize view.offset view.width)
    (targetWindow : HasWindow size view.offset view.width)
    (source : Block sourceSize)
    (target : Block size) :
    (∃ copied, view.copy source target = .ok copied ∧
      Block.Copied source view.offset target view.offset view.width copied ∧
      ∃ value, view.get source = .ok value ∧
        (value.HasType view.ty → (view.set value).runOn target = (.ok (), copied))) ∧
    ∀ sourceOffset targetOffset width,
      HasWindow sourceSize sourceOffset width → HasWindow size targetOffset width →
        ∃ copied,
          Block.copyBits source sourceOffset target targetOffset width = .ok copied ∧
          Block.Copied source sourceOffset target targetOffset width copied := by
  have shaped := built.shaped
  obtain ⟨copied, done, taken⟩ := source.copyBits_window target sourceWindow targetWindow
  obtain ⟨value, read⟩ := View.get_ok shaped sourceWindow source
  refine ⟨⟨copied, done, taken, value, read, fun typed => ?_⟩,
    fun _ _ _ => source.copyBits_window target⟩
  have stores := View.stores shaped targetWindow value target
  have stored := stores.copied shaped sourceWindow targetWindow read typed
  exact Prod.ext (stores.accepted typed).1 (stored.unique taken)

namespace Purse

theorem amounts_ordered : (0 : Int64) ≤ 0xFFFFFFFFFF := by
  decide

/-- The amounts of forty bits. -/
def amounts : Bounds :=
  ⟨0, 0xFFFFFFFFFF, amounts_ordered⟩

/-- Two amounts, the second of which the first chunk of a copy cuts in two. -/
def fields : List (String × Ty) :=
  [("coins", .scalar (.range amounts)), ("notes", .scalar (.range amounts))]

/-- A purse that begins in the middle of a byte. -/
def view : View :=
  ⟨.record fields, 5⟩

theorem view_built : view.ty.Built := by
  have amount : Ty.Built (.scalar (.range amounts)) :=
    .range (show Ty.range? 0 0xFFFFFFFFFF = _ from rfl)
  have accepted : Ty.record? fields = .ok (.record fields) := by
    simp [Ty.record?, Ty.fieldDefect?, fields]
    rfl
  refine .record ?_ accepted
  simp only [fields, List.mem_cons, List.not_mem_nil, or_false,
    forall_eq_or_imp, forall_eq]
  exact ⟨amount, amount⟩

/-- A block in which the amounts 1 and 0xABCDEF0123 are stored. -/
def source : Block 12 :=
  ⟨(0xABCDEF0123 <<< 45) ||| (1 <<< 5)⟩

/-- A smaller block without a clear bit. -/
def target : Block 11 :=
  ⟨BitVec.allOnes 88⟩

/-- The source's purse between the target's own bits. -/
def mixed : Block 11 :=
  ⟨(0b111 <<< 85) ||| (0xABCDEF0123 <<< 45) ||| (1 <<< 5) ||| 0b11111⟩

/-- The copy of the purse is made of two chunks. Another run, of 71
bits, is copied from bit 3 of the source to bit 9 of the target. -/
theorem copy_exact_purse :
    view.copy source target = .ok mixed ∧
    ∃ copied, Block.copyBits source 3 target 9 71 = .ok copied ∧
      Block.Copied source 3 target 9 71 copied := by
  obtain ⟨⟨copied, done, -, value, read, stored⟩, runs⟩ :=
    View.copy_exact view_built (Fits.window ⟨by decide, by decide⟩)
      (Fits.window ⟨by decide, by decide⟩) source target
  have contents : value = .record [.range 1, .range 0xABCDEF0123] :=
    Except.ok.inj (read.symm.trans rfl)
  subst contents
  have typed : Value.HasType (.record [.range 1, .range 0xABCDEF0123]) view.ty :=
    .record (.cons (.range (by decide)) (.cons (.range (by decide)) .nil))
  have outcome : (view.set (.record [.range 1, .range 0xABCDEF0123])).runOn target =
      (.ok (), mixed) := by
    rfl
  have same : copied = mixed := congrArg Prod.snd ((stored typed).symm.trans outcome)
  exact ⟨same ▸ done, runs 3 9 71 (Fits.window ⟨by decide, by decide⟩)
    (Fits.window ⟨by decide, by decide⟩)⟩

end Purse

end StateSpace
