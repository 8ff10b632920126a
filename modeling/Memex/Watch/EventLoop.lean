import Memex.Lib.Trace
import Memex.Lib.Transitions
import Memex.Watch.Service

/-! # The event loop

Callbacks of the file watcher put events into a bounded queue while one thread drains it,
decides when to ingest, and ingests. A callback and the thread interleave at every
access to the queue and to the overflow bit. -/

namespace Memex.Watch

open Ingest

def eventQueueCapacity : Nat := 8192

/-- Where the thread of `run_event_loop` is. -/
inductive LoopPhase where
  /-- Watches are armed, the first ingest has not begun. -/
  | starting
  /-- Between two ticks. -/
  | idle
  /-- `poll` read its clock and tried the pending roots. -/
  | polling (now : Nat)
  /-- `drain` has swapped the overflow bit; so many more results may be received. -/
  | draining (polled now left : Nat)
  /-- `poll` returned a cause. -/
  | firing (cause : FireCause)
  | ingesting (cause : FireCause) (snapshot : Finset String)
  deriving DecidableEq

/-- The service, the queue in the order of arrival, the overflow bit, and the results that
met a full queue and whose callbacks have not set the bit yet. -/
structure WatchSystem where
  service : WatchService
  queue : List EventResult := []
  overflow : Bool := false
  refused : List EventResult := []
  phase : LoopPhase := .starting

inductive WatchStep where
  /-- `try_send` of `enqueue_event` finds room. -/
  | accept (result : EventResult)
  /-- `try_send` of `enqueue_event` finds the queue full. -/
  | refuse (result : EventResult)
  /-- `enqueue_event` stores the overflow bit after it was refused. -/
  | storeOverflow (result : EventResult)
  | activatePending (arm : String → Option String) (now : Nat)
  | takeOverflow (now : Nat)
  | receive
  | decideFire (age : String → Option Int)
  | start (cause : FireCause) (snapshot : Finset String)
  | refreshRoots (canonicalRoot : String → String) (roots : Finset String)
  /-- The ingest succeeded; a dirty one may have become a full scan. -/
  | complete (fullScan : Bool) (now : Nat)
  /-- The no-op check vetoed a dirty ingest. -/
  | skip
  | fail
  /-- The hot sweep found changes. -/
  | noteDirty (paths : List String) (now : Nat)

/-- Room in the queue decides what `try_send` answers. -/
def callbackStep (system : WatchSystem) : WatchStep → Option WatchSystem
  | .accept result =>
      if system.queue.length < eventQueueCapacity then
        some { system with queue := system.queue ++ [result] }
      else none
  | .refuse result =>
      if system.queue.length < eventQueueCapacity then none
      else some { system with refused := result :: system.refused }
  | .storeOverflow result =>
      if result ∈ system.refused then
        some { system with overflow := true, refused := system.refused.erase result }
      else none
  | _ => none

/-- One access of the loop's thread, in the phase it is in. -/
def loopStep (filter : WatchFilter) (config : WatchConfig) (system : WatchSystem) :
    LoopPhase → WatchStep → Option WatchSystem
  | .starting, .start .resync snapshot =>
      if snapshot = system.service.dirtyPaths then
        some { system with phase := .ingesting .resync snapshot }
      else none
  | .idle, .activatePending arm now =>
      some { system with service := system.service.activatePending arm, phase := .polling now }
  | .idle, .noteDirty paths now =>
      some { system with service := system.service.noteDirtyAt config paths now }
  | .polling polled, .takeOverflow now =>
      some { system with
        service := if system.overflow then system.service.requestResync else system.service
        overflow := false
        phase := .draining polled now eventQueueCapacity }
  | .draining polled now (left + 1), .receive =>
      match system.queue with
      | [] => none
      | result :: rest => some { system with
          service := system.service.drainResult filter config now result
          queue := rest
          phase := .draining polled now left }
  | .draining polled _ left, .decideFire age =>
      if left = 0 ∨ system.queue = [] then
        some { system with
          phase := match system.service.fireDecision config age polled with
            | some cause => .firing cause
            | none => .idle }
      else none
  | .firing cause, .start started snapshot =>
      if started = cause ∧ snapshot = system.service.dirtyPaths then
        some { system with phase := .ingesting cause snapshot }
      else none
  | .firing _, .refreshRoots canonicalRoot roots =>
      some { system with service := system.service.ensureRoots canonicalRoot roots }
  | .ingesting _ _, .refreshRoots canonicalRoot roots =>
      some { system with service := system.service.ensureRoots canonicalRoot roots }
  | .ingesting cause _, .complete fullScan now =>
      some { system with
        service := system.service.markComplete config (if fullScan then .resync else cause) now
        phase := .idle }
  | .ingesting .dirty _, .skip =>
      some { system with service := system.service.markSkipped, phase := .idle }
  | .ingesting _ _, .fail => some { system with phase := .idle }
  | _, _ => none

/-- A step of a callback or of the loop. -/
def watchStep (filter : WatchFilter) (config : WatchConfig) (system : WatchSystem)
    (step : WatchStep) : Option WatchSystem :=
  match step with
  | .accept _ | .refuse _ | .storeOverflow _ => callbackStep system step
  | _ => loopStep filter config system system.phase step

/-- The watches are armed and nothing has been read. -/
def startWatch (config : WatchConfig) (roots : Finset String) (arm : String → Option String)
    (now : Nat) : WatchSystem where
  service := WatchService.new config roots arm now

/-- The steps that return from `enqueue_event` with an event taken or given up. -/
def Offers (event : Event) (step : WatchStep) : Prop :=
  step = .accept (.ok event) ∨ step = .storeOverflow (.ok event)

/-- The ingest that runs after a step, if it began among the steps looked at. -/
def ingestAfter (running : Option (FireCause × Finset String)) :
    WatchStep → Option (FireCause × Finset String)
  | .start cause snapshot => some (cause, snapshot)
  | .complete _ _ | .skip | .fail => none
  | _ => running

/-- The step ends an ingest that read the path. -/
def EndsCovering (path : String) (ingest : FireCause × Finset String) : WatchStep → Prop
  | .complete fullScan _ => fullScan = true ∨ ingest.1 = .resync ∨ path ∈ ingest.2
  | .skip => path ∈ ingest.2
  | _ => False

/-- Among the steps an ingest that covers the path began, and it was completed or vetoed:
a dirty one whose snapshot has the path, or a resync. -/
def Covered (path : String) (steps : List WatchStep) : Prop :=
  Trace.Occurs (fun before step => ∃ ingest,
    before.foldl ingestAfter none = some ingest ∧ EndsCovering path ingest step) steps

/-- The hint is in one of its four places. -/
def Hinted (event : Event) (path : String) (system : WatchSystem) : Prop :=
  path ∈ system.service.dirty ∨ .ok event ∈ system.queue ∨ system.overflow = true ∨
    system.service.resyncNeeded = true

end Memex.Watch
