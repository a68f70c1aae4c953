import StateSpace.Proofs.Search.Lone
import StateSpace.Proofs.Workers.Budget

/-!
# Searches with less and with more room for faults

Two searches of one model that differ in their room for faults do the same until
the smaller room is used up. From then on the search with less room does nothing
more, while the other one may discover, fire and report further. So what the
first one reports is a prefix of what the second one reports.
-/

namespace StateSpace

section

variable {layout : Layout} {setup : Setup layout}

namespace Search

/-! ## Searches grow -/

/-- One search has come further than another. -/
structure Grows (search next : Search layout) : Prop where
  visited : ∀ block, search.visited.contains block = true →
    next.visited.contains block = true
  rulesFired : search.rulesFired ≤ next.rulesFired
  faults : search.faults.toList <+: next.faults.toList

theorem Grows.refl (search : Search layout) : search.Grows search :=
  ⟨fun _ => id, Nat.le_refl _, List.prefix_refl _⟩

theorem Grows.trans
    {search middle next : Search layout}
    (before : search.Grows middle)
    (after : middle.Grows next) :
    search.Grows next where
  visited := fun block earlier => after.visited block (before.visited block earlier)
  rulesFired := before.rulesFired.trans after.rulesFired
  faults := before.faults.trans after.faults

theorem addFault_grows
    {record : FaultRecord}
    {state : State layout.bytes}
    {traceable : Bool}
    {search reported : Search layout}
    (ok : search.addFault setup record state traceable = .ok reported) :
    search.Grows reported := by
  unfold addFault at ok
  split at ok
  · cases ok
    exact .refl _
  · obtain ⟨trace, -, ok⟩ := bind_eq_ok.mp ok
    obtain ⟨dump, -, ok⟩ := bind_eq_ok.mp ok
    cases ok
    exact ⟨fun _ => id, Nat.le_refl _, by simp⟩

theorem addRaised_grows
    {fault : Fault}
    {context : String}
    {state : State layout.bytes}
    {traceable : Bool}
    {search reported : Search layout}
    (ok : search.addRaised setup fault context state traceable = .ok reported) :
    search.Grows reported := by
  unfold addRaised at ok
  split at ok
  · exact addFault_grows ok
  · cases ok
    exact .refl _

theorem discard_grows
    {block : Block layout.bytes}
    {search discarded : Search layout}
    (ok : search.discard block = .ok discarded) :
    search.Grows discarded := by
  obtain ⟨freed, -, rfl⟩ := discard_eq_ok ok
  exact ⟨fun _ => id, Nat.le_refl _, List.prefix_refl _⟩

/-- A discarded block is not missed. -/
theorem Grows.of_discard
    {block : Block layout.bytes}
    {search discarded next : Search layout}
    (ok : search.discard block = .ok discarded)
    (grows : search.Grows next) :
    discarded.Grows next := by
  obtain ⟨freed, -, rfl⟩ := discard_eq_ok ok
  exact ⟨grows.visited, grows.rulesFired, grows.faults⟩

theorem keep_grows
    {shard : Nat}
    {state : State layout.bytes}
    {search kept : Search layout}
    (ok : search.keep setup shard state = .ok kept) :
    search.Grows kept := by
  obtain ⟨block, -, ok⟩ := bind_eq_ok.mp ok
  split at ok
  · exact discard_grows ok
  · obtain ⟨⟨waiting, queue⟩, -, ok⟩ := bind_eq_ok.mp ok
    cases ok
    unfold noteProgress
    split
    all_goals
      refine ⟨fun other earlier => ?_, Nat.le_refl _, List.prefix_refl _⟩
      simp [VisitedSet.contains_insert, earlier]

theorem record_grows
    {shard : Nat}
    {context : String}
    {blamed state : State layout.bytes}
    {blamedTraceable : Bool}
    {judgement : Judgement}
    {search recorded : Search layout}
    (ok : search.record setup shard context blamed state blamedTraceable judgement =
      .ok recorded) :
    search.Grows recorded := by
  cases judgement with
  | rejected fault =>
      obtain ⟨reported, raised, ok⟩ := bind_eq_ok.mp ok
      exact (addRaised_grows raised).trans (discard_grows ok)
  | infeasible => exact discard_grows ok
  | violated violation =>
      obtain ⟨reported, added, ok⟩ := bind_eq_ok.mp ok
      split at ok
      · exact (addFault_grows added).trans (discard_grows ok)
      · exact (addFault_grows added).trans (keep_grows ok)
  | accepted => exact keep_grows ok

theorem recordRule_grows
    {shard : Nat}
    {origin : State layout.bytes}
    {rule : Rule layout.bytes}
    {outcome : RuleOutcome layout.bytes}
    {search recorded : Search layout}
    (ok : search.recordRule setup shard origin rule outcome = .ok recorded) :
    search.Grows recorded := by
  cases outcome with
  | disabled =>
      cases ok
      exact .refl _
  | guardFault fault => exact addRaised_grows ok
  | candidate candidate =>
      have counted : search.Grows { search with
          recycler := (search.recycler.allocCopy origin.block).2
          rulesFired := search.rulesFired + candidate.completed.toNat } :=
        ⟨fun _ => id, Nat.le_add_right .., List.prefix_refl _⟩
      exact counted.trans (record_grows ok)

theorem fireRules_grows
    {shard : Nat}
    {origin : State layout.bytes}
    {stuck : Bool}
    {rules : List (Rule layout.bytes)}
    {search expanded : Search layout}
    (ok : search.fireRules setup shard origin stuck rules = .ok expanded) :
    search.Grows expanded := by
  induction rules generalizing stuck search with
  | nil =>
      unfold fireRules addDeadlock at ok
      split at ok
      · split at ok
        · exact addFault_grows ok
        · cases ok
          exact .refl _
      · cases ok
        exact .refl _
  | cons rule rest inductionHypothesis =>
      obtain ⟨outcome, -, ok⟩ := bind_eq_ok.mp ok
      obtain ⟨recorded, fired, ok⟩ := bind_eq_ok.mp ok
      split at ok
      · cases ok
        exact recordRule_grows fired
      · exact (recordRule_grows fired).trans (inductionHypothesis ok)

theorem seed_grows
    {starts : List (StartState layout.bytes)}
    {search seeded : Search layout}
    (ok : search.seed setup starts = .ok seeded) :
    search.Grows seeded := by
  induction starts generalizing search with
  | nil =>
      cases ok
      exact .refl _
  | cons start rest inductionHypothesis =>
      unfold seed at ok
      split at ok
      · cases ok
        exact .refl _
      · obtain ⟨candidate, -, ok⟩ := bind_eq_ok.mp ok
        obtain ⟨recorded, recording, ok⟩ := bind_eq_ok.mp ok
        have allocated : search.Grows
            { search with recycler := search.recycler.allocZeroed.2 } :=
          ⟨fun _ => id, Nat.le_refl _, List.prefix_refl _⟩
        exact (allocated.trans (record_grows recording)).trans (inductionHypothesis ok)

theorem explore_grows
    {shard preferred : Nat}
    {search explored : Search layout}
    (ok : search.explore setup shard preferred = .ok explored) :
    search.Grows explored := by
  induction preferred, search using explore.induct setup shard with
  | case1 preferred search exhausted =>
      cases (explore_of_exhausted exhausted).symm.trans ok
      exact .refl _
  | case2 preferred search room empty =>
      cases (explore_of_empty (Bool.eq_false_iff.mpr room) empty).symm.trans ok
      exact .refl _
  | case3 preferred search room state source rest taken error failed =>
      rw [explore_of_taken (Bool.eq_false_iff.mpr room) taken, failed] at ok
      cases ok
  | case4 preferred search room state source rest taken next expanded _
      inductionHypothesis =>
      rw [explore_of_taken (Bool.eq_false_iff.mpr room) taken, expanded] at ok
      have popped : search.Grows { search with queue := rest } :=
        ⟨fun _ => id, Nat.le_refl _, List.prefix_refl _⟩
      exact (popped.trans (fireRules_grows expanded)).trans (inductionHypothesis ok)

end Search

/-! ## Rooms of different sizes -/

/-- The setup with room for so many faults. -/
def Setup.withRoom
    (setup : Setup layout)
    (room : Nat) : Setup layout :=
  { setup with config := { setup.config with maxErrors := room } }

namespace Search

/-- How a search with less room compares to one with more: they are the same and
there is room, or the room is used up and the other search has come further. -/
inductive Tracks
    (small : Nat)
    (narrow wide : Search layout) : Prop
  | together
      (same : narrow = wide)
      (room : narrow.faults.size < small)
  | behind
      (spent : narrow.faults.size = small)
      (grows : narrow.Grows wide)

theorem Tracks.of_size_le
    {small : Nat}
    {search : Search layout}
    (fits : search.faults.size ≤ small) :
    Tracks small search search :=
  (Nat.lt_or_eq_of_le fits).elim (.together rfl) fun spent => .behind spent (.refl _)

section

variable {small large : Nat} {search : Search layout}

theorem isExhausted_withRoom (room : Nat) :
    search.isExhausted (setup.withRoom room) = decide (room ≤ search.faults.size) :=
  rfl

theorem addFault_tracks
    {record : FaultRecord}
    {state : State layout.bytes}
    {traceable : Bool}
    {reported : Search layout}
    (le : small ≤ large)
    (room : search.faults.size < small)
    (ok : search.addFault (setup.withRoom large) record state traceable = .ok reported) :
    search.addFault (setup.withRoom small) record state traceable = .ok reported ∧
      reported.faults.size ≤ small := by
  have wide : search.isExhausted (setup.withRoom large) = false := by
    simp only [isExhausted_withRoom, decide_eq_false_iff_not]
    omega
  have narrow : search.isExhausted (setup.withRoom small) = false := by
    simp only [isExhausted_withRoom, decide_eq_false_iff_not]
    omega
  rw [addFault, if_neg (by simp [wide])] at ok
  rw [addFault, if_neg (by simp [narrow])]
  refine ⟨ok, ?_⟩
  obtain ⟨trace, -, ok⟩ := bind_eq_ok.mp ok
  obtain ⟨dump, -, ok⟩ := bind_eq_ok.mp ok
  cases ok
  simp only [Array.size_push]
  omega

theorem addRaised_tracks
    {fault : Fault}
    {context : String}
    {state : State layout.bytes}
    {traceable : Bool}
    {reported : Search layout}
    (le : small ≤ large)
    (room : search.faults.size < small)
    (ok : search.addRaised (setup.withRoom large) fault context state traceable =
      .ok reported) :
    search.addRaised (setup.withRoom small) fault context state traceable =
      .ok reported ∧ reported.faults.size ≤ small := by
  unfold addRaised at ok ⊢
  split at ok
  · exact addFault_tracks le room ok
  · cases ok
    exact ⟨rfl, by omega⟩

/-- Keeping a state reports no fault. -/
theorem keep_faults
    {shard : Nat}
    {state : State layout.bytes}
    {kept : Search layout}
    (ok : search.keep setup shard state = .ok kept) :
    kept.faults = search.faults := by
  obtain ⟨block, -, ok⟩ := bind_eq_ok.mp ok
  split at ok
  · obtain ⟨freed, -, rfl⟩ := discard_eq_ok ok
    rfl
  · obtain ⟨⟨waiting, queue⟩, -, ok⟩ := bind_eq_ok.mp ok
    cases ok
    unfold noteProgress
    split <;> rfl

/-- A recorded attempt is the point at which the searches may part: a violating
state that uses up the smaller room is discarded by one search and may be kept
by the other. -/
theorem record_tracks
    {shard : Nat}
    {context : String}
    {blamed state : State layout.bytes}
    {blamedTraceable : Bool}
    {judgement : Judgement}
    {wide : Search layout}
    (le : small ≤ large)
    (room : search.faults.size < small)
    (free : search.recycler.cached = none)
    (ok : search.record (setup.withRoom large) shard context blamed state blamedTraceable
      judgement = .ok wide) :
    ∃ narrow, search.record (setup.withRoom small) shard context blamed state
      blamedTraceable judgement = .ok narrow ∧ Tracks small narrow wide := by
  cases judgement with
  | rejected fault =>
      obtain ⟨reported, raised, discarded⟩ := bind_eq_ok.mp ok
      obtain ⟨again, fits⟩ := addRaised_tracks le room raised
      refine ⟨wide, bind_eq_ok.mpr ⟨reported, again, discarded⟩, .of_size_le ?_⟩
      obtain ⟨freed, -, rfl⟩ := discard_eq_ok discarded
      exact fits
  | infeasible =>
      refine ⟨wide, ok, .of_size_le ?_⟩
      obtain ⟨freed, -, rfl⟩ := discard_eq_ok ok
      exact room.le
  | violated violation =>
      obtain ⟨reported, added, goesOn⟩ := bind_eq_ok.mp ok
      obtain ⟨again, fits⟩ := addFault_tracks le room added
      -- With more room the state is kept or discarded, and both extend the report.
      have grows : reported.Grows wide := by
        split at goesOn
        · exact discard_grows goesOn
        · exact keep_grows goesOn
      rcases Nat.lt_or_eq_of_le fits with room | spent
      · refine ⟨wide, bind_eq_ok.mpr ⟨reported, again, ?_⟩, ?_⟩
        · rw [if_neg (by simp [isExhausted_withRoom]; omega)] at goesOn ⊢
          exact goesOn
        · rw [if_neg (by simp [isExhausted_withRoom]; omega)] at goesOn
          exact .together rfl (by rw [keep_faults goesOn]; exact room)
      · have vacant : reported.recycler.cached = none := by
          rw [(addFault_frame added).recycler]
          exact free
        obtain ⟨narrow, discards, -⟩ := discard_ok vacant state.block
        refine ⟨narrow, bind_eq_ok.mpr ⟨reported, again, ?_⟩, ?_⟩
        · rw [if_pos (by simp [isExhausted_withRoom, spent])]
          exact discards
        · refine .behind ?_ (.of_discard discards grows)
          obtain ⟨freed, -, rfl⟩ := discard_eq_ok discards
          exact spent
  | accepted =>
      exact ⟨wide, ok, .together rfl (by rw [keep_faults ok]; exact room)⟩

theorem recordRule_tracks
    {shard : Nat}
    {origin : State layout.bytes}
    {rule : Rule layout.bytes}
    {outcome : RuleOutcome layout.bytes}
    {wide : Search layout}
    (le : small ≤ large)
    (room : search.faults.size < small)
    (ok : search.recordRule (setup.withRoom large) shard origin rule outcome =
      .ok wide) :
    ∃ narrow, search.recordRule (setup.withRoom small) shard origin rule outcome =
      .ok narrow ∧ Tracks small narrow wide := by
  cases outcome with
  | disabled =>
      cases ok
      exact ⟨search, rfl, .together rfl room⟩
  | guardFault fault =>
      obtain ⟨again, fits⟩ := addRaised_tracks le room ok
      exact ⟨wide, again, .of_size_le fits⟩
  | candidate candidate =>
      exact record_tracks le room (Recycler.cached_allocCopy _ origin.block) ok

theorem addDeadlock_tracks
    {origin : State layout.bytes}
    {wide : Search layout}
    (le : small ≤ large)
    (room : search.faults.size < small)
    (ok : search.addDeadlock (setup.withRoom large) origin = .ok wide) :
    search.addDeadlock (setup.withRoom small) origin = .ok wide ∧
      wide.faults.size ≤ small := by
  have opened (size : Nat) : search.addDeadlock (setup.withRoom size) origin =
      if setup.config.deadlockDetection then
        search.addFault (setup.withRoom size) Setup.deadlockRecord origin true
      else return search := rfl
  rw [opened] at ok ⊢
  split at ok
  · rename_i wanted
    rw [if_pos wanted]
    exact addFault_tracks le room ok
  · rename_i unwanted
    rw [if_neg unwanted]
    cases ok
    exact ⟨rfl, room.le⟩

theorem fireRules_tracks
    {shard : Nat}
    {origin : State layout.bytes}
    {stuck : Bool}
    {rules : List (Rule layout.bytes)}
    {wide : Search layout}
    (le : small ≤ large)
    (room : search.faults.size < small)
    (ok : search.fireRules (setup.withRoom large) shard origin stuck rules = .ok wide) :
    ∃ narrow, search.fireRules (setup.withRoom small) shard origin stuck rules =
      .ok narrow ∧ Tracks small narrow wide := by
  induction rules generalizing stuck search with
  | nil =>
      unfold fireRules at ok ⊢
      cases stuck with
      | true =>
          obtain ⟨again, fits⟩ := addDeadlock_tracks le room ok
          exact ⟨wide, again, .of_size_le fits⟩
      | false =>
          cases ok
          exact ⟨_, rfl, .together rfl room⟩
  | cons rule rest inductionHypothesis =>
      obtain ⟨outcome, attempted, ok⟩ := bind_eq_ok.mp ok
      obtain ⟨recorded, fired, ok⟩ := bind_eq_ok.mp ok
      obtain ⟨narrow, fires, tracks⟩ := recordRule_tracks le room fired
      cases tracks with
      | together same more =>
          subst same
          rw [if_neg (by simp [isExhausted_withRoom]; omega)] at ok
          obtain ⟨last, further, tracks⟩ := inductionHypothesis more ok
          refine ⟨last, bind_eq_ok.mpr ⟨outcome, attempted,
            bind_eq_ok.mpr ⟨narrow, fires, ?_⟩⟩, tracks⟩
          rw [if_neg (by simp [isExhausted_withRoom]; omega)]
          exact further
      | behind spent grows =>
          refine ⟨narrow, bind_eq_ok.mpr ⟨outcome, attempted,
            bind_eq_ok.mpr ⟨narrow, fires, ?_⟩⟩, .behind spent ?_⟩
          · rw [if_pos (by simp [isExhausted_withRoom, spent])]
            rfl
          · split at ok
            · cases ok
              exact grows
            · exact grows.trans (fireRules_grows ok)

theorem seed_tracks
    {starts : List (StartState layout.bytes)}
    {wide : Search layout}
    (le : small ≤ large)
    (room : search.faults.size < small)
    (ok : search.seed (setup.withRoom large) starts = .ok wide) :
    ∃ narrow, search.seed (setup.withRoom small) starts = .ok narrow ∧
      Tracks small narrow wide := by
  induction starts generalizing search with
  | nil =>
      cases ok
      exact ⟨_, rfl, .together rfl room⟩
  | cons start rest inductionHypothesis =>
      rw [seed, if_neg (by simp [isExhausted_withRoom]; omega)] at ok
      rw [seed, if_neg (by simp [isExhausted_withRoom]; omega)]
      obtain ⟨candidate, attempted, ok⟩ := bind_eq_ok.mp ok
      obtain ⟨recorded, recording, ok⟩ := bind_eq_ok.mp ok
      let allocated : Search layout :=
        { search with recycler := search.recycler.allocZeroed.2 }
      have allocatedRoom : allocated.faults.size < small := room
      have uncached : allocated.recycler.cached = none := Recycler.cached_allocZeroed _
      obtain ⟨narrow, records, tracks⟩ :=
        record_tracks le allocatedRoom uncached recording
      cases tracks with
      | together same more =>
          subst same
          obtain ⟨last, further, tracks⟩ := inductionHypothesis more ok
          exact ⟨last, bind_eq_ok.mpr ⟨candidate, attempted,
            bind_eq_ok.mpr ⟨narrow, records, further⟩⟩, tracks⟩
      | behind spent grows =>
          refine ⟨narrow, bind_eq_ok.mpr ⟨candidate, attempted,
            bind_eq_ok.mpr ⟨narrow, records, ?_⟩⟩,
            .behind spent (grows.trans (seed_grows ok))⟩
          exact seed_of_exhausted (by simp [isExhausted_withRoom, spent])

theorem explore_tracks
    {shard preferred : Nat}
    {wide : Search layout}
    (le : small ≤ large)
    (room : search.faults.size < small)
    (ok : search.explore (setup.withRoom large) shard preferred = .ok wide) :
    ∃ narrow, search.explore (setup.withRoom small) shard preferred = .ok narrow ∧
      Tracks small narrow wide := by
  have roomy : search.isExhausted (setup.withRoom small) = false := by
    simp [isExhausted_withRoom]
    omega
  induction preferred, search using explore.induct (setup.withRoom large) shard with
  | case1 preferred search exhausted =>
      simp only [isExhausted_withRoom, decide_eq_true_eq] at exhausted
      omega
  | case2 preferred search wideRoom empty =>
      cases (explore_of_empty (Bool.eq_false_iff.mpr wideRoom) empty).symm.trans ok
      exact ⟨_, explore_of_empty roomy empty, .together rfl room⟩
  | case3 preferred search wideRoom state source rest taken error failed =>
      rw [explore_of_taken (Bool.eq_false_iff.mpr wideRoom) taken, failed] at ok
      cases ok
  | case4 preferred search wideRoom state source rest taken next expanded _
      inductionHypothesis =>
      rw [explore_of_taken (Bool.eq_false_iff.mpr wideRoom) taken, expanded] at ok
      rw [explore_of_taken roomy taken]
      let remaining : Search layout := { search with queue := rest }
      have remainingRoom : remaining.faults.size < small := room
      obtain ⟨narrow, fires, tracks⟩ := fireRules_tracks le remainingRoom expanded
      cases tracks with
      | together same more =>
          subst same
          obtain ⟨last, further, tracks⟩ := inductionHypothesis more ok
            (by simp [isExhausted_withRoom]; omega)
          exact ⟨last, bind_eq_ok.mpr ⟨narrow, fires, further⟩, tracks⟩
      | behind spent grows =>
          refine ⟨narrow, bind_eq_ok.mpr ⟨narrow, fires, ?_⟩,
            .behind spent (grows.trans (explore_grows ok))⟩
          exact explore_of_exhausted (by simp [isExhausted_withRoom, spent])

end

/-- What the search with less room reports and discovers, compared to the other
one. -/
theorem Tracks.compare
    {small : Nat}
    {narrow wide : Search layout}
    (tracks : Tracks small narrow wide) :
    narrow.faults.toList = wide.faults.toList.take (min small wide.faults.size) ∧
      (∀ block, narrow.visited.contains block = true →
        wide.visited.contains block = true) ∧
      narrow.rulesFired ≤ wide.rulesFired ∧
      (wide.faults.size < small → narrow = wide) := by
  cases tracks with
  | together same room =>
      subst same
      refine ⟨?_, fun _ => id, Nat.le_refl _, fun _ => rfl⟩
      rw [Nat.min_eq_right room.le, ← Array.length_toList, List.take_length]
  | behind spent grows =>
      have covered : small ≤ wide.faults.size := by
        simpa [spent] using grows.faults.length_le
      refine ⟨?_, grows.visited, grows.rulesFired, fun few => by omega⟩
      rw [Nat.min_eq_left covered, ← spent, ← Array.length_toList]
      exact List.prefix_iff_eq_take.mp grows.faults

end Search

namespace Setup

variable {small large : Nat}

/-- A search with more room that succeeds is tracked by one with less. -/
theorem search_tracks
    (positive : 0 < small)
    (le : small ≤ large)
    {wide : Search layout}
    (ok : (setup.withRoom large).search = .ok wide) :
    ∃ narrow, (setup.withRoom small).search = .ok narrow ∧
      Search.Tracks small narrow wide := by
  obtain ⟨start, started, ok⟩ := bind_eq_ok.mp ok
  obtain ⟨seeded, seeds, explores⟩ := bind_eq_ok.mp ok
  obtain ⟨queue, -, -, begun⟩ := Search.start_eq_ok (liftBreach_eq_ok.mp started)
  have room : start.faults.size < small := by
    rw [begun]
    exact positive
  obtain ⟨narrow, narrowSeeds, tracks⟩ := Search.seed_tracks le room seeds
  cases tracks with
  | together same more =>
      subst same
      let fresh : Search layout := { narrow with recycler := .empty layout.bytes }
      have freshRoom : fresh.faults.size < small := more
      obtain ⟨last, further, tracks⟩ := Search.explore_tracks le freshRoom explores
      exact ⟨last, bind_eq_ok.mpr ⟨start, started,
        bind_eq_ok.mpr ⟨narrow, narrowSeeds, further⟩⟩, tracks⟩
  | behind spent grows =>
      refine ⟨{ narrow with recycler := .empty layout.bytes },
        bind_eq_ok.mpr ⟨start, started,
        bind_eq_ok.mpr ⟨narrow, narrowSeeds, Search.explore_of_exhausted ?_⟩⟩,
        .behind spent ?_⟩
      · exact decide_eq_true spent.ge
      · have reached : narrow.Grows { seeded with recycler := .empty layout.bytes } :=
          ⟨grows.visited, grows.rulesFired, grows.faults⟩
        obtain ⟨visited, rulesFired, faults⟩ :=
          reached.trans (Search.explore_grows explores)
        exact ⟨visited, rulesFired, faults⟩

/-- With less room for faults a search reports the first of the faults that it
reports with more room, as many as fit, and it discovers no other states and
fires rules no more often. If it had room for everything that is reported with
more room, then both searches are the same. -/
theorem less_room
    (positive : 0 < small)
    (le : small ≤ large) :
    (∀ wide, (setup.withRoom large).search = .ok wide →
      ∃ narrow, (setup.withRoom small).search = .ok narrow ∧
        narrow.faults.toList = wide.faults.toList.take (min small wide.faults.size) ∧
        (∀ block, narrow.visited.contains block = true →
          wide.visited.contains block = true) ∧
        narrow.rulesFired ≤ wide.rulesFired ∧
        (wide.faults.size < small → narrow = wide)) ∧
    (∀ narrowSink wideSink narrow wide narrowReport wideReport,
      (setup.withRoom small).run narrowSink = .ok (narrow, narrowReport) →
      (setup.withRoom large).run wideSink = .ok (wide, wideReport) →
        narrow.faults = wide.faults.take (min small wide.faults.length) ∧
        narrow.states ≤ wide.states ∧
        narrow.rulesFired ≤ wide.rulesFired ∧
        (wide.faults.length < small → narrow = wide)) ∧
    (setup.model.NeverBreaches → layout.Built → setup.Storable →
      ∃ wide, (setup.withRoom large).search = .ok wide) := by
  refine ⟨fun wide searched => ?_, ?_, fun sound built storable => ?_⟩
  · obtain ⟨narrow, narrowSearched, tracks⟩ := search_tracks positive le searched
    exact ⟨narrow, narrowSearched, tracks.compare⟩
  · intro narrowSink wideSink narrowResult wideResult narrowReport wideReport
      narrowRan wideRan
    obtain ⟨wide, searched, rfl⟩ := search_of_run wideRan
    obtain ⟨narrow, narrowSearched, rfl⟩ := search_of_run narrowRan
    obtain ⟨other, again, tracks⟩ := search_tracks positive le searched
    cases narrowSearched.symm.trans again
    obtain ⟨faults, visited, rulesFired, equal⟩ := tracks.compare
    refine ⟨faults, ?_, rulesFired, fun few => congrArg Search.result (equal few)⟩
    show narrow.visited.size ≤ wide.visited.size
    rw [← VisitedSet.card_blocks, ← VisitedSet.card_blocks]
    refine Finset.card_le_card fun block member => ?_
    exact VisitedSet.mem_blocks.mpr (visited block (VisitedSet.mem_blocks.mp member))
  · have wideStorable : (setup.withRoom large).Storable :=
      ⟨storable.shards, storable.state⟩
    have wideSound : (setup.withRoom large).model.NeverBreaches := sound
    obtain ⟨wide, searched, -⟩ :=
      search_reaches wideSound built wideStorable (positive.trans_le le)
    exact ⟨wide, searched⟩

end Setup

end

namespace Lamp

theorem faultTotal_withRoom (room : Nat) : (setup.withRoom room).faultTotal = 1 := by
  have starts : (setup.withRoom room).startRecords =
      [⟨.model, "no bulb", some "startstate broken"⟩] := rfl
  have blocks : ∀ block, (setup.withRoom room).blockRecords block = [] := fun _ => rfl
  simp [Setup.faultTotal, starts, blocks]

/-- The lamp has one defect. It is reported if there is room for one fault, and
room for two is as good as room for three. -/
theorem less_room_lamp :
    ∃ narrow wide, (setup.withRoom 1).search = .ok narrow ∧
      (setup.withRoom 3).search = .ok wide ∧ narrow.faults.toList = wide.faults.toList ∧
      (setup.withRoom 2).search = .ok wide := by
  have storable : (setup.withRoom 3).Storable :=
    ⟨setup_storable.shards, setup_storable.state⟩
  have sound : (setup.withRoom 3).model.NeverBreaches := model_neverBreaches
  obtain ⟨wide, -, searched, -, -, -, errors, -⟩ :=
    Setup.run_explores sound layout_built storable rfl
  rw [faultTotal_withRoom] at errors
  have one : wide.faults.size = 1 := errors
  obtain ⟨least, -, -⟩ := @Setup.less_room layout setup 1 3 (by decide) (by decide)
  obtain ⟨narrow, narrowSearched, faults, -⟩ := least wide searched
  obtain ⟨more, -, -⟩ := @Setup.less_room layout setup 2 3 (by decide) (by decide)
  obtain ⟨middle, middleSearched, -, -, -, equal⟩ := more wide searched
  refine ⟨narrow, wide, narrowSearched, searched, ?_, ?_⟩
  · rw [faults, List.take_of_length_le]
    simp [one]
  · rw [middleSearched, equal (by omega)]

end Lamp

end StateSpace
