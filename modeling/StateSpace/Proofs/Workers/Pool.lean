import StateSpace.Proofs.Queue.Shards
import StateSpace.Proofs.Search.Crew

/-!
# Pools of workers

Every worker of a run has a shard of the queue, to which alone it pushes. The
first worker starts at once, the others wait at a gate until the first one
opens it. A worker looks for room for faults and for an abort, takes a state
in a scan of the shards, expands it, and begins again. It leaves if it is told
to stop or if its scan found every shard empty when it visited it.

A move reads or writes what the workers share once. The steps of a pool are
moves of its workers in any order.
-/

namespace StateSpace

variable {layout : Layout}

/-- What the workers of a run share. -/
structure Shared (layout : Layout) where
  board : Board layout
  queue : WorkQueue (State layout.bytes)
  /-- Whether the gate before the later workers is open. -/
  gateOpen : Bool
  /-- Whether a worker has failed. -/
  aborted : Bool

/-- Why a worker is done. -/
inductive Exit
  /-- A scan found every shard empty. -/
  | drained
  /-- The room for faults is used up, or the run is aborted. -/
  | stopped
  /-- An expansion failed with an error. -/
  | failed
  /-- An expansion broke a precondition, which unwinds the worker. -/
  | unwound
  deriving DecidableEq

/-- What a worker does next. -/
inductive Place (layout : Layout)
  /-- Wait at the gate. -/
  | parked
  /-- Look for room for faults. -/
  | arriving
  /-- Look for an abort. -/
  | checking
  /-- Visit a shard, after so many visits of a scan. -/
  | scanning (first visits : Nat)
  | expanding (task : Task layout)
  /-- Look at the gate, after an expansion of the first worker. -/
  | peeking
  /-- Add the length of a shard to those of the shards before it. -/
  | measuring (shard queued : Nat)
  /-- Open the gate, because enough states wait. -/
  | releasing
  /-- Abort the run. -/
  | aborting
  /-- Open the gate, because the run is aborted. -/
  | alarming
  /-- Leave, which opens the gate if the first worker does so. -/
  | leaving (exit : Exit)
  | gone (exit : Exit)

/-- A worker of a run. -/
structure Worker (layout : Layout) where
  recycler : Recycler layout.bytes
  /-- The shard that the next scan begins with. -/
  preferred : Nat
  place : Place layout

/-- One move of the worker of the given number, with what it leaves in the
history. The number of queued states that an expansion shows is a guess. -/
inductive Move
    (setup : Setup layout)
    (number : Nat) :
    Shared layout → Worker layout → List (Event layout.bytes) →
      Shared layout → Worker layout → Prop
  | enter
      {shared : Shared layout}
      {recycler : Recycler layout.bytes}
      {preferred : Nat}
      (opened : shared.gateOpen = true) :
      Move setup number shared ⟨recycler, preferred, .parked⟩ []
        shared ⟨recycler, preferred, .arriving⟩
  | stop
      {shared : Shared layout}
      {recycler : Recycler layout.bytes}
      {preferred : Nat}
      (exhausted : shared.board.isExhausted setup = true) :
      Move setup number shared ⟨recycler, preferred, .arriving⟩ []
        shared ⟨recycler, preferred, .leaving .stopped⟩
  | check
      {shared : Shared layout}
      {recycler : Recycler layout.bytes}
      {preferred : Nat}
      (room : shared.board.isExhausted setup = false) :
      Move setup number shared ⟨recycler, preferred, .arriving⟩ []
        shared ⟨recycler, preferred, .checking⟩
  | halt
      {shared : Shared layout}
      {recycler : Recycler layout.bytes}
      {preferred : Nat}
      (aborted : shared.aborted = true) :
      Move setup number shared ⟨recycler, preferred, .checking⟩ []
        shared ⟨recycler, preferred, .leaving .stopped⟩
  | scan
      {shared : Shared layout}
      {recycler : Recycler layout.bytes}
      {preferred : Nat}
      (sound : shared.aborted = false) :
      Move setup number shared ⟨recycler, preferred, .checking⟩ []
        shared ⟨recycler, preferred, .scanning preferred 0⟩
  | take
      {shared : Shared layout}
      {recycler : Recycler layout.bytes}
      {preferred first visits : Nat}
      {state : State layout.bytes}
      {rest : WorkQueue (State layout.bytes)}
      (taken : shared.queue.visit (shared.queue.scanned first visits) =
        some (state, rest)) :
      Move setup number shared ⟨recycler, preferred, .scanning first visits⟩
        [.taken state] { shared with queue := rest }
        ⟨recycler, shared.queue.scanned first visits,
          .expanding (Task.ofState setup state recycler)⟩
  | miss
      {shared : Shared layout}
      {recycler : Recycler layout.bytes}
      {preferred first visits : Nat}
      (missed : shared.queue.visit (shared.queue.scanned first visits) = none)
      (more : visits + 1 < shared.queue.shardCount) :
      Move setup number shared ⟨recycler, preferred, .scanning first visits⟩ []
        shared ⟨recycler, preferred, .scanning first (visits + 1)⟩
  | drain
      {shared : Shared layout}
      {recycler : Recycler layout.bytes}
      {preferred first visits : Nat}
      (missed : shared.queue.visit (shared.queue.scanned first visits) = none)
      (all : shared.queue.shardCount ≤ visits + 1) :
      Move setup number shared ⟨recycler, preferred, .scanning first visits⟩ []
        shared ⟨recycler, preferred, .leaving .drained⟩
  | advance
      {shared : Shared layout}
      {recycler : Recycler layout.bytes}
      {preferred : Nat}
      (queued : Nat)
      {agenda : Agenda layout}
      {owned : Recycler layout.bytes}
      {point : Point layout}
      {task : Task layout}
      {advanced : Board layout}
      (moved : point.advance setup queued agenda owned shared.board =
        .ok (task, advanced)) :
      Move setup number shared
        ⟨recycler, preferred, .expanding ⟨agenda, owned, .active point⟩⟩
        (point.events setup) { shared with board := advanced }
        ⟨recycler, preferred, .expanding task⟩
  | fail
      {shared : Shared layout}
      {recycler : Recycler layout.bytes}
      {preferred : Nat}
      (queued : Nat)
      {agenda : Agenda layout}
      {owned : Recycler layout.bytes}
      {point : Point layout}
      {error : CheckError}
      (failed : point.advance setup queued agenda owned shared.board =
        .error (.check error)) :
      Move setup number shared
        ⟨recycler, preferred, .expanding ⟨agenda, owned, .active point⟩⟩
        [] shared ⟨recycler, preferred, .aborting⟩
  | unwind
      {shared : Shared layout}
      {recycler : Recycler layout.bytes}
      {preferred : Nat}
      (queued : Nat)
      {agenda : Agenda layout}
      {owned : Recycler layout.bytes}
      {point : Point layout}
      {breach : Breach}
      (failed : point.advance setup queued agenda owned shared.board =
        .error (.breach breach)) :
      Move setup number shared
        ⟨recycler, preferred, .expanding ⟨agenda, owned, .active point⟩⟩
        [] shared ⟨recycler, preferred, .leaving .unwound⟩
  | push
      {shared : Shared layout}
      {recycler : Recycler layout.bytes}
      {preferred size waiting : Nat}
      {agenda : Agenda layout}
      {owned : Recycler layout.bytes}
      {state : State layout.bytes}
      {pushed : WorkQueue (State layout.bytes)}
      (ok : shared.queue.push state number = .ok (waiting, pushed)) :
      Move setup number shared
        ⟨recycler, preferred, .expanding ⟨agenda, owned, .push state size⟩⟩
        [] { shared with queue := pushed }
        ⟨recycler, preferred, .expanding ⟨agenda, owned, .active (.announce size)⟩⟩
  | finish
      {shared : Shared layout}
      {recycler : Recycler layout.bytes}
      {preferred : Nat}
      {agenda : Agenda layout}
      {owned : Recycler layout.bytes} :
      Move setup number shared ⟨recycler, preferred, .expanding ⟨agenda, owned, .ended⟩⟩
        agenda.closing shared
        ⟨owned, preferred, if number = 0 then .peeking else .arriving⟩
  | peek
      {shared : Shared layout}
      {recycler : Recycler layout.bytes}
      {preferred : Nat} :
      Move setup number shared ⟨recycler, preferred, .peeking⟩ [] shared
        ⟨recycler, preferred,
          if 1 < setup.workers ∧ shared.gateOpen = false then .measuring 0 0
          else .arriving⟩
  | measure
      {shared : Shared layout}
      {recycler : Recycler layout.bytes}
      {preferred shard queued : Nat}
      (more : shard < shared.queue.shardCount) :
      Move setup number shared ⟨recycler, preferred, .measuring shard queued⟩ [] shared
        ⟨recycler, preferred,
          .measuring (shard + 1) (queued + (shared.queue.shardAt shard).length)⟩
  | compare
      {shared : Shared layout}
      {recycler : Recycler layout.bytes}
      {preferred shard queued : Nat}
      (all : shared.queue.shardCount ≤ shard) :
      Move setup number shared ⟨recycler, preferred, .measuring shard queued⟩ [] shared
        ⟨recycler, preferred,
          if setup.config.warmupThreshold < queued then .releasing else .arriving⟩
  | release
      {shared : Shared layout}
      {recycler : Recycler layout.bytes}
      {preferred : Nat} :
      Move setup number shared ⟨recycler, preferred, .releasing⟩ []
        { shared with gateOpen := true } ⟨recycler, preferred, .arriving⟩
  | abort
      {shared : Shared layout}
      {recycler : Recycler layout.bytes}
      {preferred : Nat} :
      Move setup number shared ⟨recycler, preferred, .aborting⟩ []
        { shared with aborted := true } ⟨recycler, preferred, .alarming⟩
  | alarm
      {shared : Shared layout}
      {recycler : Recycler layout.bytes}
      {preferred : Nat} :
      Move setup number shared ⟨recycler, preferred, .alarming⟩ []
        { shared with gateOpen := true } ⟨recycler, preferred, .leaving .failed⟩
  | leave
      {shared : Shared layout}
      {recycler : Recycler layout.bytes}
      {preferred : Nat}
      {exit : Exit} :
      Move setup number shared ⟨recycler, preferred, .leaving exit⟩ []
        { shared with gateOpen := if number = 0 then true else shared.gateOpen }
        ⟨recycler, preferred, .gone exit⟩

/-- The workers of a run and what they share. -/
structure Pool
    (layout : Layout)
    (size : Nat) where
  shared : Shared layout
  workers : Fin size → Worker layout

namespace Pool

variable {size : Nat}

/-- A step of a pool is a move of one of its workers. -/
inductive Step (setup : Setup layout) :
    Pool layout size → List (Event layout.bytes) → Pool layout size → Prop
  | move
      {pool : Pool layout size}
      (number : Fin size)
      {events : List (Event layout.bytes)}
      {shared : Shared layout}
      {worker : Worker layout}
      (moved : Move setup number pool.shared (pool.workers number) events
        shared worker) :
      Step setup pool events ⟨shared, Function.update pool.workers number worker⟩

/-- Any number of moves in any order, with the history of what was done. -/
abbrev Run (setup : Setup layout) :
    Pool layout size → List (Event layout.bytes) → Pool layout size → Prop :=
  Execution (Step setup)

/-- A worker that has not begun. All but the first wait at the gate. -/
def newcomer
    (layout : Layout)
    (number : Nat) : Worker layout :=
  ⟨.empty layout.bytes, number, if number = 0 then .arriving else .parked⟩

/-- The pool of a run whose seeding is over, with one worker for each shard. -/
def start
    (setup : Setup layout)
    (seeded : Search layout) : Pool layout setup.workers where
  shared :=
    { board := seeded.board
      queue := seeded.queue
      gateOpen := false
      aborted := false }
  workers := fun number => newcomer layout number

end Pool
end StateSpace
