import StateSpace.Proofs.Search.Completeness
import StateSpace.Proofs.Search.Sequential
import StateSpace.Proofs.Search.Termination

/-!
# The outcome of a run

A run finds what the specification of reachable states asks for, and as much
of it as there is room for faults. The same holds for any number of workers
and any interleaving of their steps.
-/

namespace StateSpace

namespace Setup

variable {layout : Layout} {setup : Setup layout}

/-- A valid configuration whose sink takes everything leaves a search as the
only thing that can fail. -/
theorem run_ok
    (valid : setup.config.defect? = none)
    {search : Search layout}
    (searched : setup.search = .ok search) :
    ∃ report, setup.run {} = .ok (search.result, report) := by
  refine ⟨search.report.add (.summary ⟨search.visited.size, search.rulesFired,
    search.faults.size, .zero⟩), ?_⟩
  simp only [run, valid, searched]
  rfl

/-- If a complete exploration leaves room for faults, then a search finds
everything and leaves no state behind. -/
theorem search_complete
    (sound : setup.model.NeverBreaches)
    (built : layout.Built)
    (storable : setup.Storable)
    (few : setup.faultTotal < setup.config.maxErrors) :
    ∃ search, setup.search = .ok search ∧ search.board.Complete setup ∧
      search.queue.items = 0 := by
  obtain ⟨search, searched, ⟨history, run⟩, ended⟩ :=
    search_reaches sound built storable (Nat.zero_lt_of_lt few)
  have room := run.room sound built few rfl
  have empty : search.queue.items = 0 :=
    ended.resolve_left fun spent => Bool.false_ne_true (room.symm.trans spent)
  exact ⟨search, searched, run.complete sound built ⟨empty, rfl⟩ room, empty⟩

/-- A run of a valid configuration comes to its end. It discovers only
reachable blocks, and it reports as many of the faults of a complete
exploration as there is room for. If that is more room than needed then it
discovers every reachable block, leaves no state behind, counts every firing
and reports every fault. -/
theorem run_explores
    (sound : setup.model.NeverBreaches)
    (built : layout.Built)
    (storable : setup.Storable)
    (valid : setup.config.defect? = none) :
    ∃ search report, setup.search = .ok search ∧
      setup.run {} = .ok (search.result, report) ∧
      (∀ block, search.visited.contains block = true → setup.Reachable block) ∧
      search.result.states = search.visited.size ∧
      search.result.errors = min setup.faultTotal setup.config.maxErrors ∧
      (search.result.faults : Multiset FaultRecord) ≤ setup.allRecords ∧
      (setup.faultTotal < setup.config.maxErrors →
        (∀ block, setup.Reachable block → search.visited.contains block = true) ∧
        search.queue.isEmpty = true ∧
        search.result.states = setup.reachableBlocks.card ∧
        search.result.rulesFired = setup.firingTotal ∧
        (search.result.faults : Multiset FaultRecord) = setup.allRecords) := by
  have room : 0 < setup.config.maxErrors := by
    unfold Config.defect? at valid
    split at valid
    · cases valid
    · omega
  obtain ⟨search, searched, ⟨history, run⟩, ended⟩ :=
    search_reaches sound built storable room
  obtain ⟨report, ran⟩ := run_ok valid searched
  have grounded := run.grounded sound built (Crew.start_grounded setup _)
  refine ⟨search, report, searched, ran, grounded.board, rfl,
    run.faults_size sound built rfl ended, run.records_le sound built, ?_⟩
  intro few
  obtain ⟨same, again, complete, empty⟩ := search_complete sound built storable few
  cases searched.symm.trans again
  refine ⟨fun block => (complete.discovered block).mpr,
    WorkQueue.isEmpty_iff.mpr empty, ?_, complete.firings, complete.records⟩
  rw [← Board.blocks_eq complete.discovered, VisitedSet.card_blocks]
  rfl

end Setup

/-! ## A lamp -/

namespace Lamp

/-- One Boolean variable. -/
def layout : Layout :=
  ⟨#[⟨"lit", .boolean, 0⟩], 1⟩

theorem layout_built : layout.Built := by
  refine ⟨[("lit", .boolean)], ?_, ?_⟩
  · simp [Ty.Built.boolean]
  · simp only [Layout.of?, Layout.extend, Std.HashSet.contains_empty]
    rfl

/-- A lamp that starts dark, or else out of order, and that can be lit again and
again. -/
def model : Model layout where
  startStates :=
    [⟨"dark", fun _ => pure ()⟩, ⟨"broken", fun _ => Update.fault (.model "no bulb")⟩]
  rules := [⟨"light", fun _ _ => .ok true, fun _ => set (⟨1⟩ : Block layout.bytes)⟩]
  invariants := []
  assumptions := []
  canonicalizer := none
  startStates_ne_nil := by simp

def setup : Setup layout :=
  ⟨model, { maxErrors := 2 }⟩

theorem model_neverBreaches : model.NeverBreaches where
  starts := by
    intro start member policy block breach
    simp only [model, List.mem_cons, List.not_mem_nil, or_false] at member
    rcases member with rfl | rfl <;> nofun
  guards := by
    intro rule member policy block breach
    simp only [model, List.mem_cons, List.not_mem_nil, or_false] at member
    subst member
    nofun
  bodies := by
    intro rule member policy block breach
    simp only [model, List.mem_cons, List.not_mem_nil, or_false] at member
    subst member
    nofun
  invariants := nofun
  assumptions := nofun
  canonicalizer := nofun

theorem setup_storable : setup.Storable where
  shards := by decide
  state := by decide

theorem setup_faultTotal : setup.faultTotal = 1 := by
  have starts : setup.startRecords =
      [⟨.model, "no bulb", some "startstate broken"⟩] := rfl
  have blocks : ∀ block, setup.blockRecords block = [] := fun _ => rfl
  simp [Setup.faultTotal, starts, blocks]

/-- The lamp is explored: it is dark or lit, lighting it was counted in both
states, and the defect was reported. -/
theorem run_explores_lamp :
    ∃ result report, setup.run {} = .ok (result, report) ∧
      result.states = setup.reachableBlocks.card ∧
      result.rulesFired = setup.firingTotal ∧
      result.errors = 1 := by
  have room : setup.faultTotal < setup.config.maxErrors := by
    rw [setup_faultTotal]
    decide
  obtain ⟨search, report, -, ran, -, -, errors, -, everything⟩ :=
    Setup.run_explores model_neverBreaches layout_built setup_storable rfl
  obtain ⟨-, -, states, firings, -⟩ := everything room
  refine ⟨search.result, report, ran, states, firings, ?_⟩
  rw [errors, setup_faultTotal]
  rfl

end Lamp

/-! ## Any number of workers -/

namespace Setup

variable {layout : Layout} {setup : Setup layout}

/-- The setup with another number of workers. -/
def withThreads
    (setup : Setup layout)
    (threads : Nat) : Setup layout :=
  { setup with config := { setup.config with threads } }

theorem Reachable.withThreads
    {block : Block layout.bytes}
    (reachable : setup.Reachable block)
    (threads : Nat) :
    (setup.withThreads threads).Reachable block := by
  induction reachable with
  | start declared begins canonical => exact .start declared begins canonical
  | rule _ declared leads canonical inductionHypothesis =>
      exact .rule inductionHypothesis declared leads canonical

/-- What is reachable does not depend on the number of workers. -/
theorem reachable_withThreads
    {threads : Nat}
    {block : Block layout.bytes} :
    (setup.withThreads threads).Reachable block ↔ setup.Reachable block :=
  ⟨fun reachable => reachable.withThreads setup.config.threads,
    fun reachable => reachable.withThreads threads⟩

theorem reachableBlocks_withThreads
    (setup : Setup layout)
    (threads : Nat) :
    (setup.withThreads threads).reachableBlocks = setup.reachableBlocks := by
  ext block
  rw [mem_reachableBlocks, mem_reachableBlocks, reachable_withThreads]

theorem firingTotal_withThreads
    (setup : Setup layout)
    (threads : Nat) :
    (setup.withThreads threads).firingTotal = setup.firingTotal := by
  rw [firingTotal, reachableBlocks_withThreads]
  rfl

theorem allRecords_withThreads
    (setup : Setup layout)
    (threads : Nat) :
    (setup.withThreads threads).allRecords = setup.allRecords := by
  rw [allRecords, reachableBlocks_withThreads]
  rfl

theorem faultTotal_withThreads
    (setup : Setup layout)
    (threads : Nat) :
    (setup.withThreads threads).faultTotal = setup.faultTotal := by
  rw [← card_allRecords, allRecords_withThreads, card_allRecords]

theorem storable_withThreads_one
    (rounded : layout.bits + 7 < Word.limit) :
    (setup.withThreads 1).Storable where
  shards := by
    have alone : (setup.withThreads 1).workers = 1 := rfl
    rw [alone]
    decide
  state := rounded

end Setup

/-! ## Any interleaving -/

section

variable {layout : Layout}

/-- Two boards with the same findings: the discovered blocks and their number,
the firings, and the faults in some order. -/
structure Board.Agrees
    (left right : Board layout) : Prop where
  discovered : ∀ block, left.visited.contains block = right.visited.contains block
  states : left.visited.size = right.visited.size
  firings : left.rulesFired = right.rulesFired
  errors : left.faults.size = right.faults.size
  records : left.faults.toList.Perm right.faults.toList

/-- Complete boards agree, also those of setups that differ in their workers. -/
theorem Board.Complete.agrees
    {setup : Setup layout}
    {threads : Nat}
    {left right : Board layout}
    (complete : left.Complete setup)
    (other : right.Complete (setup.withThreads threads)) :
    left.Agrees right := by
  have discovered : ∀ block, right.visited.contains block = true ↔
      setup.Reachable block :=
    fun block => (other.discovered block).trans Setup.reachable_withThreads
  have records : left.faults.toList.Perm right.faults.toList := by
    rw [← Multiset.coe_eq_coe, complete.records, other.records,
      Setup.allRecords_withThreads]
  refine ⟨?_, ?_, ?_, ?_, records⟩
  · intro block
    rw [Bool.eq_iff_iff, complete.discovered, discovered]
  · rw [← VisitedSet.card_blocks, ← VisitedSet.card_blocks,
      Board.blocks_eq complete.discovered, Board.blocks_eq discovered]
  · rw [complete.firings, other.firings, Setup.firingTotal_withThreads]
  · simpa using records.length_eq

/-- If a complete exploration leaves room for faults, then the order in which
waiting states are taken and tasks advance makes no difference. Every run of
a crew can be brought to its end, and whichever way it ends it has found what
the search of a single worker finds. -/
theorem Crew.interleavings_agree
    {setup : Setup layout}
    (sound : setup.model.NeverBreaches)
    (built : layout.Built)
    (rounded : layout.bits + 7 < Word.limit)
    (few : setup.faultTotal < setup.config.maxErrors)
    (recycler : Recycler layout.bytes) :
    ∃ search, (setup.withThreads 1).search = .ok search ∧
      ∀ history crew, Run setup (start setup recycler) history crew →
        (∃ last, Reaches setup crew last ∧ last.Idle) ∧
        (crew.Idle → crew.board.Agrees search.board) := by
  have fewAlone : (setup.withThreads 1).faultTotal <
      (setup.withThreads 1).config.maxErrors := by
    rw [Setup.faultTotal_withThreads]
    exact few
  have soundAlone : (setup.withThreads 1).model.NeverBreaches := sound
  obtain ⟨search, searched, complete, -⟩ := Setup.search_complete soundAlone built
    (Setup.storable_withThreads_one rounded) fewAlone
  refine ⟨search, searched, ?_⟩
  intro history crew run
  have grounded := run.grounded sound built (start_grounded setup recycler)
  refine ⟨grounded.completes sound built, fun idle => ?_⟩
  exact (run.complete_of_few sound built few idle).agrees complete

end

/-- Whatever the interleaving, a crew finds about the lamp what a single worker
finds. -/
theorem Lamp.interleavings_agree_lamp :
    ∃ search, (setup.withThreads 1).search = .ok search ∧
      ∀ history crew, Crew.Run setup (Crew.start setup (.empty _)) history crew →
        crew.Idle → crew.board.Agrees search.board := by
  have room : setup.faultTotal < setup.config.maxErrors := by
    rw [setup_faultTotal]
    decide
  obtain ⟨search, searched, ends⟩ := Crew.interleavings_agree model_neverBreaches
    layout_built (by decide) room (.empty _)
  exact ⟨search, searched, fun history crew run => (ends history crew run).2⟩

end StateSpace
