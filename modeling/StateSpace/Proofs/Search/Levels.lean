import StateSpace.Proofs.Search.Completeness
import StateSpace.Proofs.Search.Paths

/-!
# Lines of stored states

A search that stores states in a line, and that takes them in this order, works
level by level. The line is sorted by depth, and it reaches at most one level
beyond the state that was taken last. If whatever a taken state leads to is
discovered before the next state is taken then a block that is new on some level
has no shorter path to it.
-/

namespace StateSpace

variable {layout : Layout} {setup : Setup layout}

/-! ## Levels -/

/-- The depth of the state that was taken last. -/
def level (taken : List (State layout.bytes)) : Nat :=
  (taken.getLast?.map State.depth).getD 0

/-- A line of stored states has every discovered block once. No path to a block
is shorter than that of its state, and the line is sorted by depth. -/
structure Ranked
    (setup : Setup layout)
    (visited : VisitedSet (Block layout.bytes))
    (line : List (State layout.bytes)) : Prop where
  discovered : visited.blocks.val = line.map State.block
  known : ∀ state ∈ line, setup.Known state
  shortest : ∀ state ∈ line, setup.IsShortest state
  sorted : line.Pairwise fun earlier later => earlier.depth ≤ later.depth

/-- A line of stored states goes at most one level beyond the taken ones. While
there is room for faults, no start state is missing. -/
structure Layered
    (setup : Setup layout)
    (board : Board layout)
    (taken line : List (State layout.bytes)) : Prop
    extends Ranked setup board.visited line where
  band : ∀ state ∈ line, state.depth ≤ level taken + 1
  seeded : board.isExhausted setup = false → ∀ stored, setup.Path 0 stored →
    board.visited.contains stored = true

theorem Layered.exists_state
    {board : Board layout}
    {taken line : List (State layout.bytes)}
    (layered : Layered setup board taken line)
    {block : Block layout.bytes}
    (found : board.visited.contains block = true) :
    ∃ state ∈ line, state.block = block := by
  have member : block ∈ board.visited.blocks.val := VisitedSet.mem_blocks.mpr found
  rw [layered.discovered, Multiset.mem_coe] at member
  exact List.mem_map.mp member

/-- While there is room for faults, nothing to which there is a path as short as
the one to a taken state is missing, if what was taken before has been dealt
with. -/
theorem Layered.complete_below
    {board : Board layout}
    {earlier rest line : List (State layout.bytes)}
    {origin : State layout.bytes}
    {taken : List (State layout.bytes)}
    (layered : Layered setup board taken line)
    (split : line = earlier ++ origin :: rest)
    (room : board.isExhausted setup = false)
    (settled : ∀ state ∈ earlier, setup.Settled board.visited state.block)
    {length : Nat}
    {block : Block layout.bytes}
    (path : setup.Path length block)
    (near : length ≤ origin.ancestors.length) :
    board.visited.contains block = true := by
  induction path with
  | start declared begins canonical =>
      exact layered.seeded room _ (.start declared begins canonical)
  | @rule length previous left stored rule path declared leads canonical
      inductionHypothesis =>
      obtain ⟨state, member, rfl⟩ :=
        layered.exists_state (inductionHypothesis (by omega))
      have short := (layered.shortest state member).2 path
      -- The state stands before the origin, because it is on an earlier level.
      have before : state ∈ earlier := by
        rw [split, List.mem_append, List.mem_cons] at member
        rcases member with before | rfl | behind
        · exact before
        · omega
        · have sorted := layered.sorted
          rw [split] at sorted
          have deeper :=
            List.rel_of_pairwise_cons (List.pairwise_append.mp sorted).2.1 behind
          simp only [State.depth] at deeper
          omega
      exact settled state before rule declared left stored leads canonical

/-- A new block that the last taken state leads to is one level further, and no
path to it is shorter. -/
theorem Layered.discover
    {board : Board layout}
    {earlier rest : List (State layout.bytes)}
    {origin : State layout.bytes}
    (layered : Layered setup board (earlier ++ [origin]) (earlier ++ origin :: rest))
    (room : board.isExhausted setup = false)
    (settled : ∀ state ∈ earlier, setup.Settled board.visited state.block)
    {rule : Rule layout.bytes}
    {block stored : Block layout.bytes}
    (declared : rule ∈ setup.model.rules)
    (leads : setup.model.Leads setup.policy origin.block rule block)
    (canonical : setup.canonical block = .ok stored)
    (fresh : board.visited.contains stored = false) :
    Layered setup { board with visited := board.visited.insert stored }
      (earlier ++ [origin])
      (earlier ++ origin :: rest ++ [origin.successor stored]) where
  discovered := by
    have absent : stored ∉ board.visited.blocks := by simpa using fresh
    have extended :
      (earlier ++ origin :: rest ++ [origin.successor stored]).map State.block =
      (earlier ++ origin :: rest).map State.block ++ [stored] := List.map_append
    rw [VisitedSet.blocks_insert, Finset.insert_val_of_notMem absent, layered.discovered,
      extended]
    exact Multiset.coe_eq_coe.mpr (List.perm_append_singleton _ _).symm
  known := by
    intro state member
    rcases List.mem_append.mp member with old | new
    · exact layered.known state old
    · rw [List.mem_singleton.mp new]
      have origin : setup.Known origin := layered.known origin (by simp)
      exact (Setup.Arrived.ofRule origin declared leads).stored stored canonical
  shortest := by
    intro state member
    rcases List.mem_append.mp member with old | new
    · exact layered.shortest state old
    · rw [List.mem_singleton.mp new]
      have known := layered.shortest origin (by simp)
      refine ⟨.rule known.1 declared leads canonical, fun length path => ?_⟩
      by_contra shorter
      have near : length ≤ origin.ancestors.length :=
        Nat.lt_succ_iff.mp (not_le.mp shorter)
      have found := layered.complete_below rfl room settled path near
      exact Bool.false_ne_true (fresh.symm.trans found)
  sorted := by
    refine List.pairwise_append.mpr ⟨layered.sorted, List.pairwise_singleton .., ?_⟩
    intro state member next new
    rw [List.mem_singleton.mp new]
    have near : state.depth ≤ origin.depth + 1 := by
      simpa [level] using layered.band state member
    exact near
  band := by
    intro state member
    rcases List.mem_append.mp member with old | new
    · exact layered.band state old
    · rw [List.mem_singleton.mp new]
      simp [level, State.depth, State.successor]
  seeded := by
    intro more other path
    simp [VisitedSet.contains_insert, layered.seeded more other path]

/-! ## What keeps a line layered -/

theorem Layered.of_board
    {board advanced : Board layout}
    {taken line : List (State layout.bytes)}
    (layered : Layered setup board taken line)
    (visited : advanced.visited = board.visited)
    (earlier : advanced.isExhausted setup = false → board.isExhausted setup = false) :
    Layered setup advanced taken line where
  discovered := by rw [visited, layered.discovered]
  known := layered.known
  shortest := layered.shortest
  sorted := layered.sorted
  band := layered.band
  seeded := fun room stored path => by
    rw [visited]
    exact layered.seeded (earlier room) stored path

/-- The first state that waits can be taken. -/
theorem Layered.take
    {board : Board layout}
    {taken rest : List (State layout.bytes)}
    {state : State layout.bytes}
    (layered : Layered setup board taken (taken ++ state :: rest)) :
    Layered setup board (taken ++ [state]) (taken ++ state :: rest) where
  toRanked := layered.toRanked
  band := by
    intro other member
    have near := layered.band other member
    have before : level taken ≤ state.depth := by
      unfold level
      cases last : taken.getLast? with
      | none => exact Nat.zero_le _
      | some final =>
          have present : final ∈ taken := List.mem_of_getLast? last
          exact (List.pairwise_append.mp layered.sorted).2.2 final present state
            (List.mem_cons_self ..)
    have now : level (taken ++ [state]) = state.depth := by simp [level]
    omega
  seeded := layered.seeded

end StateSpace
