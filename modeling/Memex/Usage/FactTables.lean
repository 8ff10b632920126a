import Mathlib.Data.List.SplitBy
import Mathlib.Data.Finset.Sort
import Mathlib.Data.String.Basic
import Memex.Lib.MarkedRows
import Memex.Lib.Transaction
import Memex.Types
import Memex.Usage.Events

/-! # The tables of canonical usage facts

`usage/cache.rs`: the events of a source are kept as rows, numbered within each file. A second
table keeps for each file the digest of the events its rows were made from; triggers delete it
with every write to one of the rows. `replace_partition_facts` writes only the files whose digest
is another one than before. -/

namespace Memex.Usage

open Overlay MarkedRows Transaction

/-- `CachedUsageEvent`: an event without its source and its path, as it is serialized. -/
structure CachedUsageEvent where
  sourceRecordId : Option String
  sessionId : Option String
  requestId : Option String
  messageId : Option String
  timestampMs : Nat
  project : Option String
  provider : Option String
  model : Option String
  tokens : TokenBuckets
  sourceCostUsd : Option UInt64
  costAuthoritative : Bool
  dedupeConfidence : String
  conservativeUndercount : Bool
  cacheChainExcluded : Bool
  sidechain : Bool
  permissionReview : Bool
  sourceOrder : Nat
  deriving DecidableEq

def CachedUsageEvent.fromEvent (event : UsageEventView) : CachedUsageEvent where
  sourceRecordId := event.sourceRecordId
  sessionId := event.sessionId
  requestId := event.requestId
  messageId := event.messageId
  timestampMs := event.timestampMs
  project := event.project
  provider := event.provider
  model := event.model
  tokens := event.tokens
  sourceCostUsd := event.sourceCostUsd
  costAuthoritative := event.costAuthoritative
  dedupeConfidence := event.dedupeConfidence
  conservativeUndercount := event.conservativeUndercount
  cacheChainExcluded := event.cacheChainExcluded
  sidechain := event.sidechain
  permissionReview := event.permissionReview
  sourceOrder := event.sourceOrder

/-- `SCANNERS`. -/
def scanners : List SourceKind :=
  [.claude, .codex, .opencode, .pi, .omp, .openClaw, .cursor, .copilot, .grok, .hermes, .jcode,
    .muse, .antigravity, .bob]

def sourceOrdinal (filter : SourceKind) : Nat := scanners.idxOf filter

/-- `as i64` of an unsigned number. -/
def asI64 (value : Nat) : Int := if value < 2 ^ 63 then value else value - 2 ^ 64

/-- The columns of a row besides its key. -/
structure FactRow where
  sourceOrder : Int
  ordinal : Nat
  timestampMs : Int
  sessionId : Option String
  project : Option String
  provider : Option String
  model : Option String
  sourceRecordId : Option String
  requestId : Option String
  messageId : Option String
  rawInput : Int
  uncachedInput : Int
  cacheRead : Int
  cacheWrite : Int
  cacheWrite1h : Int
  output : Int
  reasoning : Int
  sourceCostUsd : Option UInt64
  costAuthoritative : Bool
  dedupeConfidence : String
  conservativeUndercount : Bool
  cacheChainExcluded : Bool
  sidechain : Bool
  permissionReview : Bool
  deriving DecidableEq

/-- A row of `usage_fact_sync`. -/
structure FactSync where
  fingerprint : String
  parserVersion : Nat
  warnings : List String
  generation : String

/-- A set in the order in which it is walked. -/
structure SetWalk where
  paths : Finset String → List String
  nodup : ∀ set, (paths set).Nodup
  mem_paths : ∀ set path, path ∈ paths set ↔ path ∈ set

/-- What the tables get from elsewhere: the digest of the serialized events of a file, the number
that a real column keeps, and the freshness of the files. -/
structure FactHost (D : Type) where
  digest : List CachedUsageEvent → D
  keptReal : UInt64 → Option UInt64
  freshness : SourceKind → List (String × Nat × Int) → String
  parserVersion : SourceKind → Nat
  walk : SetWalk

/-- The tables `usage_facts`, `usage_fact_files` and `usage_fact_sync`. -/
structure FactContent (D : Type) where
  facts : Marked (SourceKind × String) Nat FactRow D := {}
  sync : Table SourceKind FactSync := ∅

/-- The columns that an event is inserted with. -/
def factRow {D : Type} (host : FactHost D) (filter : SourceKind) (event : UsageEventView) :
    FactRow where
  sourceOrder := asI64 event.sourceOrder
  ordinal := sourceOrdinal filter
  timestampMs := asI64 event.timestampMs
  sessionId := event.sessionId
  project := event.project
  provider := event.provider
  model := event.model
  sourceRecordId := event.sourceRecordId
  requestId := event.requestId
  messageId := event.messageId
  rawInput := asI64 event.tokens.rawInput
  uncachedInput := asI64 event.tokens.uncachedInput
  cacheRead := asI64 event.tokens.cacheRead
  cacheWrite := asI64 event.tokens.cacheWrite
  cacheWrite1h := asI64 event.tokens.cacheWrite1h
  output := asI64 event.tokens.output
  reasoning := asI64 event.tokens.reasoning
  sourceCostUsd := event.sourceCostUsd.bind host.keptReal
  costAuthoritative := event.costAuthoritative
  dedupeConfidence := event.dedupeConfidence
  conservativeUndercount := event.conservativeUndercount
  cacheChainExcluded := event.cacheChainExcluded
  sidechain := event.sidechain
  permissionReview := event.permissionReview

section Statements

variable {D : Type} (host : FactHost D) (filter : SourceKind)

abbrev Statement (D : Type) := FactContent D → Option (FactContent D)

/-- `DELETE FROM usage_facts WHERE source = ?1 AND path = ?2`. -/
def deleteFacts (path : String) : Statement D := fun content =>
  some { content with facts := content.facts.deleteGroup (filter, path) }

def insertFact (rowIdx : Nat) (event : UsageEventView) : Statement D := fun content =>
  (content.facts.insertRow (filter, event.sourcePath) rowIdx (factRow host filter event)).map
    fun facts => { content with facts }

/-- The positions of events within their files, counted on from those of a map. -/
def numberFrom (perFile : Table String Nat) : List UsageEventView → List (Nat × UsageEventView)
  | [] => []
  | event :: rest =>
      let current := (perFile.lookup event.sourcePath).getD 0
      (current, event) :: numberFrom (perFile.insert event.sourcePath (current + 1)) rest

def insertFactEvents (events : List UsageEventView) : List (Statement D) :=
  (numberFrom ∅ events).map fun numbered => insertFact host filter numbered.1 numbered.2

/-- `INSERT OR REPLACE INTO usage_fact_files`. -/
def insertDigest (path : String) (digest : D) : Statement D := fun content =>
  some { content with facts := content.facts.setMark (filter, path) digest }

def writeFactSync (fingerprint : List (String × Nat × Int)) (warnings : List String)
    (generation : String) : Statement D := fun content =>
  some { content with
    sync := content.sync.insert filter
      { fingerprint := host.freshness filter fingerprint
        parserVersion := host.parserVersion filter
        warnings
        generation } }

/-- A run of events of one file is added to what the file has contributed. -/
def addRun (contributed : Table String (List UsageEventView)) :
    List UsageEventView → Table String (List UsageEventView)
  | [] => contributed
  | first :: rest =>
      contributed.insert first.sourcePath
        ((contributed.lookup first.sourcePath).getD [] ++ first :: rest)

/-- The events of each file. -/
def contributions (events : List UsageEventView) : Table String (List UsageEventView) :=
  (events.splitBy fun left right => left.sourcePath = right.sourcePath).foldl addRun ∅

def hashOf (events : List UsageEventView) (path : String) : Option D :=
  ((contributions events).lookup path).map fun contributed =>
    host.digest (contributed.map CachedUsageEvent.fromEvent)

/-- The files of a source that have rows. -/
def factPaths (content : FactContent D) : Finset String :=
  (content.facts.rows.keys.filter fun key => key.1.1 = filter).image fun key => key.1.2

/-- The stored digest of a file that has rows. -/
def previousDigest (content : FactContent D) (path : String) : Option D :=
  if path ∈ factPaths filter content then content.facts.marks.lookup (filter, path) else none

/-- The files with another digest than before, and those that vanished. -/
def changedPaths [DecidableEq D] (events : List UsageEventView) (content : FactContent D) :
    Finset String :=
  ((contributions events).keys.filter fun path =>
      previousDigest filter content path ≠ hashOf host events path) ∪
    (factPaths filter content).filter fun path => path ∉ contributions events

def replaceStatements [DecidableEq D] (events : List UsageEventView)
    (fingerprint : List (String × Nat × Int)) (warnings : List String) (generation : String)
    (content : FactContent D) : List (Statement D) :=
  let changed := changedPaths host filter events content
  let walk := host.walk.paths changed
  -- a full population keeps the rows in report order
  let inserted :=
    if (contributions events).keys ⊆ changed then events
    else walk.flatMap fun path => ((contributions events).lookup path).getD []
  walk.map (deleteFacts filter) ++ (insertFactEvents host filter inserted ++
    (walk.filterMap (fun path => (hashOf host events path).map (insertDigest filter path)) ++
      [writeFactSync host filter fingerprint warnings generation]))

/-- One transaction; a fault leaves the content as it was. -/
def replacePartitionFacts [DecidableEq D] (events : List UsageEventView)
    (fingerprint : List (String × Nat × Int)) (warnings : List String) (generation : String)
    (fault : Option Nat) (content : FactContent D) : FactContent D × Bool :=
  commitAll (replaceStatements host filter events fingerprint warnings generation content) fault
    content

def upsertFileFacts (removedPaths : List String) (events : List UsageEventView)
    (fingerprint : List (String × Nat × Int)) (warnings : List String) (generation : String)
    (fault : Option Nat) (content : FactContent D) : FactContent D × Bool :=
  commitAll (removedPaths.map (deleteFacts filter) ++ (insertFactEvents host filter events ++
    [writeFactSync host filter fingerprint warnings generation])) fault content

def invalidateFacts (content : FactContent D) : FactContent D :=
  { content with sync := content.sync.erase filter }

/-- Everything of the source is deleted, and all its events are inserted. -/
def rebuildStatements (events : List UsageEventView) (content : FactContent D) :
    List (Statement D) :=
  (host.walk.paths (factPaths filter content)).map (deleteFacts filter) ++
    insertFactEvents host filter events

end Statements

end Memex.Usage
