import Mathlib.Data.Finset.Lattice.Fold
import Memex.Lib.Text
import Memex.Ingest.Inventory

/-! # The watch service

The hints a daemon keeps between two ingests: paths that events named, and
whether everything has to be reconciled. Instants are nanoseconds. -/

namespace Memex.Watch

open Ingest Text

/-- Timing knobs for the event pipeline. -/
structure WatchConfig where
  debounce : Nat := 1500000000
  settle : Nat := 500000000
  maxBatchAge : Nat := 8000000000
  minSpacing : Nat := 5000000000
  resyncInterval : Nat := 600000000000
  dirtyCap : Nat := 10000
  deriving DecidableEq, Repr

/-- Why the scheduler wants an ingest run. -/
inductive FireCause where
  | dirty
  | resync
  deriving DecidableEq, Repr

/-- `notify::EventKind`. -/
inductive EventKind where
  | any
  | access
  | create
  | modify
  | remove
  | other
  deriving DecidableEq, Repr

/-- `notify::Event`: what happened, to which paths, and whether history may be missing. -/
structure Event where
  kind : EventKind
  paths : List String
  needRescan : Bool := false
  deriving DecidableEq, Repr

/-- What a callback hands over: an event, or the text of a watcher error. -/
abbrev EventResult := Except String Event

/-! ## Interesting paths -/

/-- `Path::file_name` of an absolute path without a trailing slash. -/
def pathName (path : String) : String :=
  String.ofList (path.toList.rtakeWhile (· ≠ '/'))

/-- `Path::with_file_name`. -/
def withFileName (path name : String) : String :=
  String.ofList (path.toList.rdropWhile (· ≠ '/')) ++ name

/-- `is_checkpoint_artifact_name`. -/
def isCheckpointArtifactName (name : String) : Bool :=
  name ∈ ["checkpoints.sqlite", "checkpoints.sqlite-wal", "checkpoints.sqlite-shm",
    "checkpoints.sqlite-journal", "ingest.json", "ingest.pending.json", "scan_cache.json"] ||
  name = ".checkpoints.lock" ||
  ["ingest", "ingest.pending", "scan_cache"].any fun stem =>
    let start := stem ++ ".legacy-"
    startsWith name start &&
      match stripSuffix (String.ofList (name.toList.drop start.length)) ".json" with
      | some digest => digest.length = 64 && digest.toList.all fun char =>
          char.isDigit || ('a' ≤ char && char ≤ 'f') || ('A' ≤ char && char ≤ 'F')
      | none => false

/-- `opencode::is_database_path` of a file name. -/
def isOpencodeDatabaseName (name : String) : Bool :=
  startsWith name "opencode" && endsWith name ".db"

/-- `is_wal_or_shm` of `sources/antigravity.rs`. -/
def isWalOrShm (name : String) : Bool :=
  endsWith name "-wal.db" || endsWith name "-shm.db" || endsWith name ".tmp"

/-- `antigravity::is_db_path`. -/
def isAntigravityDbPath (path : String) : Bool :=
  let name := pathName path
  endsWith name ".db" && name ≠ ".db" && !isWalOrShm name

/-- `antigravity::matches_path`. -/
def antigravityMatchesPath (path : String) : Bool :=
  let normalized := String.ofList (path.toList.map fun char => if char = '\\' then '/' else char)
  if !(contains normalized ".gemini/" || contains normalized "antigravity") then false
  else if endsWith normalized ".db" || endsWith normalized ".pb" then
    contains normalized "conversations/" && !isWalOrShm normalized
  else
    (endsWith normalized "overview.txt" || endsWith normalized "transcript.jsonl" ||
      endsWith normalized "transcript_full.jsonl") && contains normalized ".system_generated/logs/"

/-- The configuration that decides which paths count. -/
structure WatchFilter where
  excluder : PathExcluder
  /-- `bob::is_configured_database`. -/
  isConfiguredDatabase : String → Bool

def ignorableFileName (name : String) : Bool :=
  name = ".DS_Store" || endsWith name ".tmp" || endsWith name ".swp" || endsWith name "~" ||
    endsWith name "-wal" || endsWith name "-shm" || endsWith name "-journal" ||
    startsWith name ".memex-opencode-spool-"

/-- The database that reads the write-ahead log at a path. -/
def walDatabase (filter : WatchFilter) (path : String) : Option String :=
  match stripSuffix (pathName path) "-wal" with
  | none => none
  | some name =>
      let database := withFileName path name
      if isOpencodeDatabaseName name || filter.isConfiguredDatabase database ||
        (isAntigravityDbPath database && antigravityMatchesPath database) then some database
      else none

/-- The path an event path is tracked under, if it is worth tracking. -/
def interestingPath (filter : WatchFilter) (path : String) : Option String :=
  if isCheckpointArtifactName (pathName path) then none
  else match walDatabase filter path with
    | some database =>
        if !filter.excluder.isExcluded path && !filter.excluder.isExcluded database then
          some database
        else none
    | none =>
        if ignorableFileName (pathName path) || filter.excluder.isExcluded path then none
        else some path

/-- Classify one watcher event: the paths worth tracking, and whether to rescan. -/
def interestingEventPaths (filter : WatchFilter) (event : Event) : List String × Bool :=
  if event.kind = .access then ([], event.needRescan)
  else (event.paths.filterMap (interestingPath filter), event.needRescan)

/-! ## The service -/

/-- `WatchService` between two calls. Lists that the code sorts and dedups are sets. -/
structure WatchService where
  watched : Finset String := ∅
  pending : Finset String := ∅
  dirty : Finmap fun _ : String => Nat := ∅
  batchStart : Option Nat := none
  lastFire : Option Nat := none
  resyncDue : Nat
  resyncNeeded : Bool := false

namespace WatchService

/-- Snapshot of currently dirty paths. -/
def dirtyPaths (service : WatchService) : Finset String :=
  service.dirty.keys

def requestResync (service : WatchService) : WatchService :=
  { service with resyncNeeded := true }

/-- Try to arm the pending roots. `arm` gives the canonical spelling of a root that is a
directory and whose watch was armed. -/
def activatePending (arm : String → Option String) (service : WatchService) : WatchService :=
  let armed := service.pending.filter fun root => (arm root).isSome
  let activated := { service with
    pending := service.pending.filter fun root => (arm root).isNone
    watched := service.watched ∪ armed.image fun root => (arm root).getD root }
  if armed = ∅ then activated else activated.requestResync

/-- Reconcile watches with freshly resolved roots. -/
def ensureRoots (canonicalRoot : String → String) (roots : Finset String)
    (service : WatchService) : WatchService :=
  let desired := roots.image canonicalRoot
  let watched := service.watched ∩ desired
  { service with watched, pending := service.pending ∪ (desired \ watched) }

/-- `WatchService::new`, with the roots of the configuration. -/
def new (config : WatchConfig) (roots : Finset String) (arm : String → Option String)
    (now : Nat) : WatchService :=
  { pending := roots, resyncDue := now + config.resyncInterval : WatchService }.activatePending arm

/-- Remember paths until the set is full; then everything has to be reconciled. -/
def insertDirty (config : WatchConfig) (now : Nat) : WatchService → List String → WatchService
  | service, [] => service
  | service, path :: rest =>
      if config.dirtyCap ≤ service.dirty.keys.card ∧ path ∉ service.dirty then
        requestResync { service with dirty := ∅ }
      else insertDirty config now { service with dirty := service.dirty.insert path now } rest

def startBatch (now : Nat) (service : WatchService) : WatchService :=
  if service.batchStart.isNone && decide (service.dirty.keys ≠ ∅) then
    { service with batchStart := some now }
  else service

/-- Record externally observed changes as if they arrived as events. -/
def noteDirtyAt (config : WatchConfig) (paths : List String) (now : Nat)
    (service : WatchService) : WatchService :=
  (insertDirty config now service paths).startBatch now

/-- What `drain` does with one queued result. Its loop over the paths is that of
`note_dirty_at`. -/
def drainResult (filter : WatchFilter) (config : WatchConfig) (now : Nat)
    (result : EventResult) (service : WatchService) : WatchService :=
  match result with
  | .error _ => service.requestResync
  | .ok event =>
      let (paths, rescan) := interestingEventPaths filter event
      let requested := if rescan then service.requestResync else service
      if paths = [] then requested else requested.noteDirtyAt config paths now

/-- No dirty file was modified within the settle window. `age` is the age of a file's
last modification; a path without one counts as settled. -/
def settled (config : WatchConfig) (age : String → Option Int) (service : WatchService) : Bool :=
  decide (∀ path ∈ service.dirty.keys,
    (age path).all fun elapsed => (config.settle : Int) ≤ elapsed)

def fireDecision (config : WatchConfig) (age : String → Option Int) (now : Nat)
    (service : WatchService) : Option FireCause :=
  if service.lastFire.any fun last => now - last < config.minSpacing then none
  else if service.resyncNeeded || service.resyncDue ≤ now then some .resync
  else if service.dirty.keys = ∅ then none
  else
    let newest := service.dirty.keys.sup fun path => (service.dirty.lookup path).getD 0
    let aged := service.batchStart.any fun start => config.maxBatchAge ≤ now - start
    if !aged && (now - newest < config.debounce || !service.settled config age) then none
    else some .dirty

/-- Record a completed ingest. -/
def markComplete (config : WatchConfig) (cause : FireCause) (now : Nat)
    (service : WatchService) : WatchService :=
  let completed := { service with dirty := ∅, batchStart := none, lastFire := some now }
  match cause with
  | .dirty => completed
  | .resync =>
      { completed with resyncDue := now + config.resyncInterval, resyncNeeded := false }

/-- Record a vetoed fire: drop the noise, keep the timers. -/
def markSkipped (service : WatchService) : WatchService :=
  { service with dirty := ∅, batchStart := none }

end WatchService

end Memex.Watch
