import StateSpace.Proofs.Search.Crew
import StateSpace.Proofs.Search.Handed

/-!
# What a move of a task can do

The moves of tasks are programs with many branches. Here each branch is one
constructor, with what was found on the way to it and the task and the board
that it leaves. Whatever all moves keep is proved by cases on these.
-/

namespace StateSpace

variable {layout : Layout}

/-- The ways in which a judged candidate is settled. -/
inductive Firing.Settles
    (firing : Firing layout)
    (agenda : Agenda layout)
    (recycler : Recycler layout.bytes) : Task layout → Prop
  | rejected
      {fault : Fault}
      {freed : Recycler layout.bytes}
      (judged : firing.judgement = .rejected fault)
      (free : recycler.free firing.state.block = .ok freed) :
      Settles firing agenda recycler
        ⟨agenda, freed, .afterFault (FaultRecord.ofFault? fault firing.context)
          firing.blamed firing.traceable⟩
  | infeasible
      {freed : Recycler layout.bytes}
      (judged : firing.judgement = .infeasible)
      (free : recycler.free firing.state.block = .ok freed) :
      Settles firing agenda recycler ⟨agenda, freed, .active .attempt⟩
  | violated
      {record : FaultRecord}
      (judged : firing.judgement = .violated record) :
      Settles firing agenda recycler
        ⟨agenda, recycler,
          .active (.raise record firing.state true (.weigh (some firing.state)))⟩
  | accepted
      (judged : firing.judgement = .accepted) :
      Settles firing agenda recycler ⟨agenda, recycler, .active (.offer firing.state)⟩

theorem Firing.settles
    {firing : Firing layout}
    {agenda : Agenda layout}
    {recycler : Recycler layout.bytes}
    {task : Task layout}
    (settled : firing.settle agenda recycler = .ok task) :
    firing.Settles agenda recycler task := by
  unfold Firing.settle at settled
  split at settled
  · rename_i judged
    obtain ⟨freed, free, returned⟩ := bind_eq_ok.mp settled
    cases returned
    exact .rejected judged (liftBreach_eq_ok.mp free)
  · rename_i judged
    obtain ⟨freed, free, returned⟩ := bind_eq_ok.mp settled
    cases returned
    exact .infeasible judged (liftBreach_eq_ok.mp free)
  · rename_i judged
    cases settled
    exact .violated judged
  · rename_i judged
    cases settled
    exact .accepted judged

/-- The ways in which the first item of an agenda is attempted. -/
inductive Agenda.Attempts
    (setup : Setup layout)
    (recycler : Recycler layout.bytes) : Agenda layout → Task layout → Prop
  | started :
      Attempts setup recycler (.starts []) ⟨.starts [], recycler, .ended⟩
  | start
      {start : StartState layout.bytes}
      {rest : List (StartState layout.bytes)}
      {candidate : Candidate layout.bytes}
      {task : Task layout}
      (attempted : setup.model.attemptStart setup.policy start = .ok candidate)
      (settles : (Firing.ofStart start candidate).Settles (.starts rest)
        recycler.allocZeroed.2 task) :
      Attempts setup recycler (.starts (start :: rest)) task
  | deadlocked
      {origin : State layout.bytes}
      {stuck : Bool}
      (found : (stuck && setup.config.deadlockDetection) = true) :
      Attempts setup recycler (.rules origin stuck [])
        ⟨.rules origin false [], recycler,
          .active (.raise Setup.deadlockRecord origin true .leave)⟩
  | expanded
      {origin : State layout.bytes}
      {stuck : Bool}
      (clear : (stuck && setup.config.deadlockDetection) = false) :
      Attempts setup recycler (.rules origin stuck [])
        ⟨.rules origin false [], recycler, .ended⟩
  | disabled
      {origin : State layout.bytes}
      {stuck : Bool}
      {rule : Rule layout.bytes}
      {rest : List (Rule layout.bytes)}
      (attempted : setup.model.attemptRule setup.policy origin.block rule =
        .ok .disabled) :
      Attempts setup recycler (.rules origin stuck (rule :: rest))
        ⟨.rules origin stuck rest, recycler, .active .attempt⟩
  | guardFault
      {origin : State layout.bytes}
      {stuck : Bool}
      {rule : Rule layout.bytes}
      {rest : List (Rule layout.bytes)}
      {fault : Fault}
      (attempted : setup.model.attemptRule setup.policy origin.block rule =
        .ok (.guardFault fault)) :
      Attempts setup recycler (.rules origin stuck (rule :: rest))
        ⟨.rules origin stuck rest, recycler,
          .afterFault (FaultRecord.ofFault? fault ("rule " ++ rule.name)) origin true⟩
  | completed
      {origin : State layout.bytes}
      {stuck : Bool}
      {rule : Rule layout.bytes}
      {rest : List (Rule layout.bytes)}
      {candidate : Candidate layout.bytes}
      (attempted : setup.model.attemptRule setup.policy origin.block rule =
        .ok (.candidate candidate))
      (whole : candidate.completed = true) :
      Attempts setup recycler (.rules origin stuck (rule :: rest))
        ⟨.rules origin false rest, (recycler.allocCopy origin.block).2,
          .active (.count (.ofRule origin rule candidate))⟩
  | faulted
      {origin : State layout.bytes}
      {stuck : Bool}
      {rule : Rule layout.bytes}
      {rest : List (Rule layout.bytes)}
      {candidate : Candidate layout.bytes}
      {task : Task layout}
      (attempted : setup.model.attemptRule setup.policy origin.block rule =
        .ok (.candidate candidate))
      (partly : candidate.completed = false)
      (settles : (Firing.ofRule origin rule candidate).Settles (.rules origin false rest)
        (recycler.allocCopy origin.block).2 task) :
      Attempts setup recycler (.rules origin stuck (rule :: rest)) task

theorem Agenda.attempts
    {setup : Setup layout}
    {agenda : Agenda layout}
    {recycler : Recycler layout.bytes}
    {task : Task layout}
    (attempted : agenda.attempt setup recycler = .ok task) :
    agenda.Attempts setup recycler task := by
  match agenda with
  | .starts [] =>
    cases attempted
    exact .started
  | .starts (start :: rest) =>
    obtain ⟨candidate, found, settled⟩ := bind_eq_ok.mp attempted
    exact .start (Model.attemptStartOn_eq_ok (liftBreach_eq_ok.mp found))
      (Firing.settles settled)
  | .rules origin stuck [] =>
    cases attempted
    cases found : stuck && setup.config.deadlockDetection with
    | true => exact .deadlocked found
    | false => exact .expanded found
  | .rules origin stuck (rule :: rest) =>
    obtain ⟨outcome, found, continued⟩ := bind_eq_ok.mp attempted
    have attempt := Model.attemptRuleOn_eq_ok (liftBreach_eq_ok.mp found)
    cases outcome with
    | disabled =>
        cases continued
        exact .disabled attempt
    | guardFault fault =>
        cases continued
        exact .guardFault attempt
    | candidate candidate =>
        cases completed : candidate.completed with
        | true =>
            simp only [completed] at continued
            cases continued
            exact .completed attempt completed
        | false =>
            simp only [completed] at continued
            exact .faulted attempt completed (Firing.settles continued)

/-- The ways in which a point is left for another one. -/
inductive Point.Advances
    (setup : Setup layout)
    (queued : Nat)
    (agenda : Agenda layout)
    (recycler : Recycler layout.bytes)
    (board : Board layout) : Point layout → Task layout → Board layout → Prop
  | attempt
      {task : Task layout}
      (attempts : agenda.Attempts setup recycler task) :
      Advances setup queued agenda recycler board .attempt task board
  | count
      {firing : Firing layout}
      {task : Task layout}
      (settles : firing.Settles agenda recycler task) :
      Advances setup queued agenda recycler board (.count firing) task
        { board with rulesFired := board.rulesFired + 1 }
  | forgo
      {record : FaultRecord}
      {state : State layout.bytes}
      {traceable : Bool}
      {sequel : Sequel layout}
      (exhausted : board.isExhausted setup = true) :
      Advances setup queued agenda recycler board (.raise record state traceable sequel)
        ⟨agenda, recycler, sequel.stage⟩ { board with raised := board.raised + 1 }
  | claim
      {record : FaultRecord}
      {state : State layout.bytes}
      {traceable : Bool}
      {sequel : Sequel layout}
      (room : board.isExhausted setup = false) :
      Advances setup queued agenda recycler board (.raise record state traceable sequel)
        ⟨agenda, recycler, .active (.print record state traceable sequel)⟩
        { board with raised := board.raised + 1 }
  | print
      {record : FaultRecord}
      {state : State layout.bytes}
      {traceable : Bool}
      {sequel : Sequel layout}
      {trace : Option (List String)}
      {dump : List String}
      (traced : Search.traceLines setup state traceable = .ok trace)
      (dumped : Search.dumpLines state trace = .ok dump) :
      Advances setup queued agenda recycler board (.print record state traceable sequel)
        ⟨agenda, recycler, .active (.log record sequel)⟩
        { board with report := board.report.add (.fault record trace dump) }
  | log
      {record : FaultRecord}
      {sequel : Sequel layout} :
      Advances setup queued agenda recycler board (.log record sequel)
        ⟨agenda, recycler, sequel.stage⟩
        { board with faults := board.faults.push record }
  | leave
      (exhausted : board.isExhausted setup = true) :
      Advances setup queued agenda recycler board (.weigh none)
        ⟨agenda, recycler, .ended⟩ board
  | discard
      {state : State layout.bytes}
      {freed : Recycler layout.bytes}
      (exhausted : board.isExhausted setup = true)
      (free : recycler.free state.block = .ok freed) :
      Advances setup queued agenda recycler board (.weigh (some state))
        ⟨agenda, freed, .ended⟩ board
  | resume
      (room : board.isExhausted setup = false) :
      Advances setup queued agenda recycler board (.weigh none)
        ⟨agenda, recycler, .active .attempt⟩ board
  | keep
      {state : State layout.bytes}
      (room : board.isExhausted setup = false) :
      Advances setup queued agenda recycler board (.weigh (some state))
        ⟨agenda, recycler, .active (.offer state)⟩ board
  | known
      {state : State layout.bytes}
      {block : Block layout.bytes}
      {freed : Recycler layout.bytes}
      (canonical : setup.canonical state.block = .ok block)
      (seen : board.visited.contains block = true)
      (free : recycler.free block = .ok freed) :
      Advances setup queued agenda recycler board (.offer state)
        ⟨agenda, freed, .active .attempt⟩ board
  | discover
      {state : State layout.bytes}
      {block : Block layout.bytes}
      (canonical : setup.canonical state.block = .ok block)
      (fresh : board.visited.contains block = false) :
      Advances setup queued agenda recycler board (.offer state)
        ⟨agenda, recycler,
          .push ⟨block, state.ancestors⟩ (board.visited.insert block).size⟩
        { board with visited := board.visited.insert block }
  | progress
      {size : Nat}
      (due : size % setup.config.progressInterval = 0) :
      Advances setup queued agenda recycler board (.announce size)
        ⟨agenda, recycler, .active .attempt⟩
        { board with
          report := board.report.add (.progress size .zero board.rulesFired queued) }
  | quiet
      {size : Nat}
      (early : size % setup.config.progressInterval ≠ 0) :
      Advances setup queued agenda recycler board (.announce size)
        ⟨agenda, recycler, .active .attempt⟩ board

theorem Point.advances
    {setup : Setup layout}
    {queued : Nat}
    {agenda : Agenda layout}
    {recycler : Recycler layout.bytes}
    {board advanced : Board layout}
    {point : Point layout}
    {task : Task layout}
    (moved : point.advance setup queued agenda recycler board =
      .ok (task, advanced)) :
    point.Advances setup queued agenda recycler board task advanced := by
  cases point with
  | attempt =>
      obtain ⟨next, attempted, returned⟩ := bind_eq_ok.mp moved
      cases returned
      exact .attempt (Agenda.attempts attempted)
  | count firing =>
      obtain ⟨next, settled, returned⟩ := bind_eq_ok.mp moved
      cases returned
      exact .count (Firing.settles settled)
  | raise record state traceable sequel =>
      cases moved
      cases exhausted : board.isExhausted setup with
      | true => exact .forgo exhausted
      | false => exact .claim exhausted
  | print record state traceable sequel =>
      obtain ⟨trace, traced, rendered⟩ := bind_eq_ok.mp moved
      obtain ⟨dump, dumped, returned⟩ := bind_eq_ok.mp rendered
      cases returned
      exact .print traced dumped
  | log record sequel =>
      cases moved
      exact .log
  | weigh kept =>
      simp only [Point.advance] at moved
      split at moved
      · rename_i exhausted
        cases kept with
        | none =>
            cases moved
            exact .leave exhausted
        | some state =>
            obtain ⟨freed, free, returned⟩ := bind_eq_ok.mp moved
            cases returned
            exact .discard exhausted (liftBreach_eq_ok.mp free)
      · rename_i room
        cases kept with
        | none =>
            cases moved
            exact .resume (Bool.eq_false_iff.mpr room)
        | some state =>
            cases moved
            exact .keep (Bool.eq_false_iff.mpr room)
  | offer state =>
      obtain ⟨block, canonical, offered⟩ := bind_eq_ok.mp moved
      have found := liftBreach_eq_ok.mp canonical
      by_cases seen : board.visited.contains block = true
      · rw [if_pos seen] at offered
        obtain ⟨freed, free, returned⟩ := bind_eq_ok.mp offered
        cases returned
        exact .known found seen (liftBreach_eq_ok.mp free)
      · rw [if_neg seen] at offered
        cases offered
        exact .discover found (Bool.eq_false_iff.mpr seen)
  | announce size =>
      cases moved
      by_cases due : size % setup.config.progressInterval = 0
      · rw [if_pos due]
        exact .progress due
      · rw [if_neg due]
        exact .quiet due

end StateSpace
