import Mathlib.Data.List.Lex
import Mathlib.Data.List.Nodup
import Mathlib.Data.Prod.Lex
import Mathlib.Data.String.Basic
import Memex.Lib.Text
import Memex.Memory.Documents

/-! # Refreshing the memory store

`prepare_refresh` of `memory.rs`, behind discovery: every file that was found is kept as it is
stored, read or marked stale; of the other documents it is decided whether they are gone. -/

namespace Memex.Memory

structure MemoryDiscoveryFailure where
  provider : SourceKind
  root : Path
  error : String
  deriving DecidableEq, Repr

structure MemoryDiscovery where
  candidates : List MemoryCandidate
  failures : List MemoryDiscoveryFailure

/-- The exclude patterns are given by the paths they match. -/
structure MemoryDiscoveryOptions where
  claudeProjectRoots : List Path
  codexHomes : List Path
  enabledSources : List SourceKind
  isExcluded : Path → Bool

/-- `symlink_metadata` -/
structure FileStat where
  isFile : Bool
  metadata : Metadata
  deriving DecidableEq, Repr

/-- What a refresh sees of the file system behind discovery: `read` is `read_consistent`. -/
structure Disk where
  host : Host
  stat : Path → Option FileStat
  read : Path → Except String (String × Metadata)

/-! ## Documents that were found -/

/-- Size and times of the file are those of the document. -/
def unchangedOnDisk (disk : Disk) (document : MemoryDocument) (path : Path) : Bool :=
  document.freshness = .fresh && document.size ≠ 0 && document.changedNs.isSome &&
    (disk.stat path).any fun stat =>
      stat.isFile && stat.metadata.size = document.size &&
        stat.metadata.modifiedMillis = document.mtimeMs &&
        stat.metadata.changedNanos = document.changedNs

/-- The document that is not read again: its scope is resolved from the stored directory. -/
def keptDocument (host : Host) (candidate : MemoryCandidate) (document : MemoryDocument) :
    MemoryDocument :=
  { document with scope := resolveMemoryScope host candidate { cwd := document.scope.cwd } }

/-- The document whose content was read and is the stored one. -/
def rereadDocument (host : Host) (candidate : MemoryCandidate) (content : String)
    (metadata : Metadata) (document : MemoryDocument) : MemoryDocument :=
  { document with
    mtimeMs := metadata.modifiedMillis
    size := metadata.size
    changedNs := metadata.changedNanos
    scope := resolveMemoryScope host candidate (parseSourceMetadata content) }

/-- What becomes of a document that was found. -/
inductive Refreshed where
  | unchanged (document : MemoryDocument)
  | parsed (document : MemoryDocument)
  | staleRetained (document : MemoryDocument) (error : String)
  | unread (error : String)
  deriving DecidableEq

def Refreshed.document : Refreshed → Option MemoryDocument
  | unchanged document => some document
  | parsed document => some document
  | staleRetained document _ => some document
  | unread _ => none

def Refreshed.error : Refreshed → Option String
  | staleRetained _ error => some error
  | unread error => some error
  | _ => none

section Refresh

variable (parsers : Parsers)

def refreshCandidate (disk : Disk) (candidate : MemoryCandidate) (prior : Option MemoryDocument) :
    Refreshed :=
  match prior.filter fun document => unchangedOnDisk disk document candidate.sourcePath with
  | some document => .unchanged (keptDocument disk.host candidate document)
  | none =>
      match disk.read candidate.sourcePath with
      | .ok (content, metadata) =>
          match prior.filter fun document => document.freshness = .fresh &&
              document.versionSha256 = contentVersion parsers content with
          | some document =>
              .unchanged (rereadDocument disk.host candidate content metadata document)
          | none => .parsed (parseMemoryContent parsers disk.host candidate content metadata)
      | .error error =>
          match prior with
          | some document => .staleRetained { document with freshness := .stale error } error
          | none => .unread error

def MemoryCandidate.stableId (candidate : MemoryCandidate) : String :=
  memoryStableId parsers candidate.provider candidate.sourcePath

/-- The candidates one after the other; each takes the document of its id away. -/
def visit (disk : Disk) :
    List MemoryDocument → List MemoryCandidate → List Refreshed × List MemoryDocument
  | previous, [] => ([], previous)
  | previous, candidate :: rest =>
      let id := candidate.stableId parsers
      let prior := previous.find? fun document => document.stableId = id
      let later := visit disk (previous.filter fun document => document.stableId ≠ id) rest
      (refreshCandidate parsers disk candidate prior :: later.1, later.2)

/-! ## Documents that were not found -/

def discoveryFailureCovers (failures : List MemoryDiscoveryFailure) (provider : SourceKind)
    (sourcePath : Path) : Bool :=
  failures.any fun failure => failure.provider = provider && sourcePath.startsWith failure.root

def selectedRoots (host : Host) (options : MemoryDiscoveryOptions) : SourceKind → List Path
  | .claude => options.claudeProjectRoots.map (Path.canonicalizeWithMissing host.canonicalize)
  | .codex => options.codexHomes.map fun home =>
      Path.canonicalizeWithMissing host.canonicalize (home.push "memories")
  | _ => []

def documentIsUnderSelectedRoot (host : Host) (options : MemoryDiscoveryOptions)
    (document : MemoryDocument) : Bool :=
  (selectedRoots host options document.provider).any fun root => document.sourcePath.startsWith root

/-- What becomes of a document that was not found. -/
inductive Retained where
  | deleted
  | kept (document : MemoryDocument)
  | stale (document : MemoryDocument)
  deriving DecidableEq

def Retained.document : Retained → Option MemoryDocument
  | deleted => none
  | kept document => some document
  | stale document => some document

/-- The failures that leave it open whether a document is there. -/
def incompleteError (failures : List MemoryDiscoveryFailure) (document : MemoryDocument) : String :=
  "memory discovery incomplete: " ++ "; ".intercalate
    ((failures.filter fun failure => failure.provider = document.provider &&
        document.sourcePath.startsWith failure.root).map fun failure =>
      failure.root.display ++ ": " ++ failure.error)

def retainDocument (host : Host) (options : MemoryDiscoveryOptions)
    (failures : List MemoryDiscoveryFailure) (document : MemoryDocument) : Retained :=
  if options.isExcluded document.sourcePath then .deleted
  else if document.provider ∉ options.enabledSources ||
      !documentIsUnderSelectedRoot host options document then .kept document
  else if discoveryFailureCovers failures document.provider document.sourcePath then
    .stale { document with freshness := .stale (incompleteError failures document) }
  else .deleted

/-! ## References between documents -/

/-- The path of a reference, up to the first `.md`. -/
def memoryRefPath (target : String) : Option Path :=
  let target := target.toList.takeWhile (· ≠ '#')
  (Text.findIgnoreCase target ".md").map fun start =>
    Path.ofText (String.ofList (target.take (start + 3)))

/-- The map from paths to ids; of two documents with one path the last is taken. -/
def idByPath (documents : List MemoryDocument) (path : Path) : Option String :=
  (documents.reverse.find? fun document => document.sourcePath = path).map (·.stableId)

def resolveRef (ids : Path → Option String) (parent : Path) (reference : MemoryRef) : MemoryRef :=
  { reference with
    memoryId := (memoryRefPath reference.target).bind fun target =>
      ids (parent.join target).normalizeLexical }

def resolveRefs (ids : Path → Option String) (document : MemoryDocument) : MemoryDocument :=
  let parent := document.sourcePath.parent.getD (Path.ofText ".")
  { document with refs := document.refs.map (resolveRef ids parent) }

def resolveMemoryRefs (documents : List MemoryDocument) : List MemoryDocument :=
  documents.map (resolveRefs (idByPath documents))

/-! ## The refresh -/

/-- Components are ordered by their kind: the root, `.`, `..`, and names. -/
def componentRank (name : String) : Nat ×ₗ String :=
  toLex (if name = "." then (1, "") else if name = ".." then (2, "") else (3, name))

def Path.rank (path : Path) : List (Nat ×ₗ String) :=
  (if path.isAbsolute then [toLex (0, "")] else []) ++ path.names.map componentRank

def MemoryDocument.rank (document : MemoryDocument) : String ×ₗ List (Nat ×ₗ String) :=
  toLex (document.provider.storageLabel, document.sourcePath.rank)

def sortDocuments (documents : List MemoryDocument) : List MemoryDocument :=
  documents.mergeSort fun left right => left.rank ≤ right.rank

structure MemoryRefreshFailure where
  provider : SourceKind
  path : Path
  error : String
  deriving DecidableEq, Repr

structure MemoryRefreshReport where
  discovered : Nat
  parsed : Nat
  unchanged : Nat
  staleRetained : Nat
  deleted : Nat
  documentCount : Nat
  sectionCount : Nat
  staleCount : Nat
  failures : List MemoryRefreshFailure
  changed : Bool
  snapshot : List MemoryDocument

/-- The order in which a `HashMap` of documents is walked. -/
structure MapOrder where
  walk : List MemoryDocument → List MemoryDocument
  perm : ∀ documents, (walk documents).Perm documents

/-- The map from ids to documents; of two documents with one id the last is taken. -/
def previousById (documents : List MemoryDocument) : List MemoryDocument :=
  documents.foldl (fun kept document =>
    kept.filter (fun other => other.stableId ≠ document.stableId) ++ [document]) []

def isStale (document : MemoryDocument) : Bool :=
  document.freshness ≠ .fresh

/-- The files that were found one after the other, and then the documents that were not. -/
def refreshAll (order : MapOrder) (options : MemoryDiscoveryOptions) (discovery : MemoryDiscovery)
    (disk : Disk) (previous : List MemoryDocument) : List Refreshed × List Retained :=
  let visited := visit parsers disk (previousById previous) discovery.candidates
  (visited.1, (order.walk visited.2).map (retainDocument disk.host options discovery.failures))

/-- The documents of the next snapshot, before their references are resolved. -/
def refreshedDocuments (outcomes : List Refreshed × List Retained) : List MemoryDocument :=
  outcomes.1.filterMap Refreshed.document ++ outcomes.2.filterMap Retained.document

/-- `prepare_refresh` behind discovery; `previous` is `none` if there was no snapshot. -/
def prepareRefresh (order : MapOrder) (options : MemoryDiscoveryOptions)
    (discovery : MemoryDiscovery) (disk : Disk) (previous : Option (List MemoryDocument)) :
    MemoryRefreshReport :=
  let outcomes := refreshAll parsers order options discovery disk (previous.getD [])
  let snapshot := sortDocuments (resolveMemoryRefs (refreshedDocuments outcomes))
  { discovered := discovery.candidates.length
    parsed := outcomes.1.countP fun outcome => outcome matches .parsed _
    unchanged := outcomes.1.countP fun outcome => outcome matches .unchanged _
    staleRetained := (outcomes.1.countP fun outcome => outcome matches .staleRetained _ _) +
      outcomes.2.countP fun outcome => outcome matches .stale _
    deleted := outcomes.2.countP fun outcome => outcome matches .deleted
    documentCount := snapshot.length
    sectionCount := (snapshot.map fun document => document.sections.length).sum
    staleCount := snapshot.countP isStale
    failures := (discovery.failures.map fun failure =>
        ⟨failure.provider, failure.root, failure.error⟩) ++
      (discovery.candidates.zip outcomes.1).filterMap fun (candidate, outcome) =>
        outcome.error.map fun error => ⟨candidate.provider, candidate.sourcePath, error⟩
    changed := previous.isNone || snapshot ≠ previous.getD []
    snapshot := snapshot }

end Refresh

end Memex.Memory
