import Memex.State.Checkpoint
import Memex.Ingest.Plan

/-! # What discovery observes

The answers of the file system, of the source stores and of the configuration
during one refresh. Discovery is a function of these answers and of the
checkpoint session. -/

namespace Memex.Ingest

open State

/-- `PathExcluder`: glob matching on the path and on its canonical spelling.
An empty pattern set matches nothing. -/
structure PathExcluder where
  set : Option (String → Bool)
  canonicalize : String → Option String

def PathExcluder.isExcluded (excluder : PathExcluder) (path : String) : Bool :=
  match excluder.set with
  | none => false
  | some isMatch =>
      isMatch path || match excluder.canonicalize path with
        | some canonical => canonical ≠ path && isMatch canonical
        | none => false

theorem isSome_set_of_isExcluded {excluder : PathExcluder} {path : String}
    (h : excluder.isExcluded path = true) : excluder.set.isSome = true := by
  unfold PathExcluder.isExcluded at h
  split at h
  · cases h
  · rename_i hset
    rw [hset]
    rfl

/-- `Path::components`, each with the place of its kind in the order: the root, a leading `.`,
`..` and names. -/
def pathComponents (path : String) : List (Nat × String) :=
  let parts := (path.toList.splitOn '/').map String.ofList
  let named := (parts.filter fun part => part ≠ "" && part ≠ ".").map fun part =>
    (if part = ".." then 2 else 3, part)
  if path.toList.head? = some '/' then (0, "/") :: named
  else if parts.head? = some "." then (1, ".") :: named
  else named

def componentsLe : List (Nat × String) → List (Nat × String) → Bool
  | [], _ => true
  | _ :: _, [] => false
  | left :: lefts, right :: rights =>
      if left = right then componentsLe lefts rights
      else left.1 < right.1 || (left.1 = right.1 && left.2 ≤ right.2)

/-- The order of paths, component by component. -/
def pathLe (left right : String) : Bool :=
  componentsLe (pathComponents left) (pathComponents right)

example : pathLe "/a/b" "/a-b" = true ∧ pathLe "/a-b" "/a/b" = false := by decide

structure IngestOptions where
  includeReasoning : Bool := false
  includeOpencode : Bool := false
  includeBob : Bool := false
  excluder : PathExcluder := { set := none, canonicalize := fun _ => none }
  embeddings : Bool := false
  backfillEmbeddings : Bool := false
  model : String := ""

/-- A file or database handed over by source enumeration. -/
structure SourceFile where
  source : SourceKind
  path : String
  deriving DecidableEq, Repr

/-- Result of a stat call. `modified` is in nanoseconds since the epoch. -/
structure Metadata where
  len : Nat
  isFile : Bool := true
  device : Nat := 0
  inode : Nat := 0
  modified : Option Nat := none
  ctime : Int := 0
  ctimeNsec : Int := 0
  deriving DecidableEq, Repr

inductive Stat where
  | found (metadata : Metadata)
  | notFound
  | error
  deriving DecidableEq, Repr

/-- The aggregate row of one Bob task. -/
structure BobTask where
  id : String
  updatedAt : Nat
  messageCount : Nat
  fingerprint : String
  deriving DecidableEq, Repr

/-- What opening a Bob database shows. -/
structure BobStore where
  stat : Stat
  parentIsDir : Bool
  enumerateTasks : Option (List BobTask)

structure OpencodeSession where
  id : String
  directory : String
  deriving DecidableEq, Repr

/-- `scan_database`: the sessions of an OpenCode database and those that
changed since the stored state. -/
structure DatabaseScan where
  eventRowid : Int := 0
  eventId : Option String := none
  dirtySessionIds : Finset String := ∅
  sessions : List OpencodeSession := []
  sessionCursors : Overlay.Table String OpencodeSessionCursor := ∅
  v2 : Bool := false
  deriving DecidableEq

/-- `prehydrate_opencode_database`: the records read for the requested
sessions, and whether reading got to its end. Ids are drawn for records even
when it did not. -/
structure Hydration where
  records : List Record
  complete : Bool
  deriving DecidableEq

/-- What an OpenCode database shows. -/
structure OpencodeStore where
  stat : Stat
  scan : Option OpencodeDatabaseState → Option DatabaseScan
  hydrate : DatabaseScan → Finset String → Hydration

/-- All the answers one refresh gets from outside the checkpoint. -/
structure Inventory where
  /-- Transcripts found by walking the enabled sources. -/
  transcripts : List SourceFile := []
  stat : String → Stat := fun _ => .notFound
  prefixSha256 : String → Nat → Option String := fun _ _ => none
  sqliteWal : String → SqliteWalIdentity := fun _ => ⟨false, 0, none⟩
  isAntigravityDb : String → Bool := fun _ => false
  projectionSessionId : String → Option String := fun _ => none
  projectionPaths : String → List String := fun _ => []
  isHistoryPath : String → Bool := fun _ => false
  sessionIdFromPath : String → Option String := fun _ => none
  /-- Session id of a tracked path that lies under a rollout root. -/
  rolloutSessionId : String → Option String := fun _ => none
  hasBackgroundSessionKindSince : String → Nat → Nat → Option Bool := fun _ _ _ => some false
  indexVersion : SourceKind → Bool → Nat := fun _ _ => 1
  /-- Stat answers of the later sweep for missing files. -/
  sweepStat : String → Stat := fun _ => .notFound
  sweepParentIsDir : String → Bool := fun _ => false
  /-- Paths the session catalogue has rows for. -/
  analyticsPaths : Finset String := ∅
  bobDatabases : List String := []
  bobStore : String → BobStore := fun _ => ⟨.notFound, false, none⟩
  bobVirtualPath : String → String → String := fun database id => database ++ "/" ++ id
  bobOwner : String → Option String := fun _ => none
  bobAlias : String → Option String := fun _ => none
  opencodeDatabases : List String := []
  opencodeStore : String → OpencodeStore :=
    fun _ => ⟨.notFound, fun _ => none, fun _ _ => ⟨[], false⟩⟩
  opencodeSessions : List String := []
  legacyRoot : String → Option String := fun _ => none
  legacySessionName : String → Option String := fun _ => none
  databaseRoot : String → Option String := fun _ => none
  /-- Stamps of the directories walked by a full scan. -/
  directoryStamps : DirectoryStampUpdate := ⟨"", [], []⟩

end Memex.Ingest
