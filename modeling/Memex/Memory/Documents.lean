import Memex.Memory.Paths
import Memex.Memory.Sections
import Memex.Retrieval.CanonicalId

/-! # Memory documents

`memory.rs`: a document is what is read of a file, what its header says and what the file system
and the repositories say of the directory it is about. -/

namespace Memex.Memory

open Sources

structure MemoryScope where
  project : Option String := none
  cwd : Option Path := none
  deriving DecidableEq, Repr

inductive MemoryDocumentKind where
  | index
  | summary
  | note
  deriving DecidableEq, Repr

inductive MemoryFreshness where
  | fresh
  | stale (error : String)
  deriving DecidableEq, Repr

structure MemoryEventDate where
  label : String
  value : String
  line : Nat
  deriving DecidableEq, Repr

structure MemoryRef where
  target : String
  label : Option String
  line : Nat
  memoryId : Option String
  sessionId : Option String
  sourcePath : Option Path
  deriving DecidableEq, Repr

structure MemoryCandidate where
  provider : SourceKind
  sourcePath : Path
  scope : MemoryScope
  kind : MemoryDocumentKind
  deriving DecidableEq, Repr

structure MemoryDocument where
  provider : SourceKind
  stableId : String
  versionSha256 : String
  sourcePath : Path
  scope : MemoryScope
  kind : MemoryDocumentKind
  mtimeMs : Nat
  size : Nat
  changedNs : Option Int
  eventDates : List MemoryEventDate
  title : Option String
  content : String
  sections : List MemorySection
  refs : List MemoryRef
  freshness : MemoryFreshness
  deriving DecidableEq, Repr

def MemoryDocument.findSection (document : MemoryDocument) (id : String) : Option MemorySection :=
  document.sections.find? fun part => part.id = id

/-! ## The header of a document -/

structure ParsedSourceMetadata where
  threadId : Option String := none
  rolloutPath : Option Path := none
  cwd : Option Path := none
  deriving DecidableEq, Repr

/-- `str::lines` -/
def linesOf (content : String) : List (List Char) :=
  (splitInclusive content.toList).map fun line =>
    match line.reverse with
    | '\n' :: '\r' :: rest => rest.reverse
    | '\n' :: rest => rest.reverse
    | _ => line

/-- `trim_matches` of quotation marks. -/
def trimQuotes (text : List Char) : List Char :=
  let isQuote (symbol : Char) : Bool := symbol = '\'' || symbol = '"'
  (text.dropWhile isQuote).rdropWhile isQuote

def metadataField (line : List Char) (field : String) : Option String :=
  if ':' ∉ line then none
  else
    let key := trim (String.ofList (line.takeWhile (· ≠ ':')))
    let rest := (line.dropWhile (· ≠ ':')).drop 1
    let value := trimQuotes (trim (String.ofList rest)).toList
    if key = field && value ≠ [] then some (String.ofList value) else none

/-- A letter of the regular expressions, which know ASCII only. -/
def isWordStart (symbol : Char) : Bool :=
  symbol.isAlpha || symbol = '_'

/-- The regular expression `^[A-Za-z_][A-Za-z0-9_-]*\s*:`. -/
def isGenericMetadataField : List Char → Bool
  | [] => false
  | first :: rest =>
      let behind := rest.dropWhile fun symbol => symbol.isAlphanum || symbol = '_' || symbol = '-'
      isWordStart first && (behind.dropWhile isWhitespace).head? = some ':'

def metadataLoop : List (List Char) → ParsedSourceMetadata → ParsedSourceMetadata
  | [], metadata => metadata
  | line :: rest, metadata =>
      if isBlankText (String.ofList line) then metadata
      else
        match metadataField line "thread_id" with
        | some value => metadataLoop rest { metadata with threadId := some value }
        | none =>
          match metadataField line "rollout_path" with
          | some value =>
            metadataLoop rest { metadata with rolloutPath := some (Path.ofText value) }
          | none =>
            match metadataField line "cwd" with
            | some value => metadataLoop rest { metadata with cwd := some (Path.ofText value) }
            | none => if isGenericMetadataField line then metadataLoop rest metadata else metadata

def parseSourceMetadata (content : String) : ParsedSourceMetadata :=
  metadataLoop ((linesOf content).take 32) {}

/-! ## Reading a document -/

/-- The digest in hexadecimal, and what regular expressions find: dates, and references that are
not resolved yet. -/
structure Parsers where
  tables : CharTables
  sha256Hex : List UInt8 → String
  explicitDates : String → List MemoryEventDate
  refs : String → ParsedSourceMetadata → List MemoryRef
  refs_unresolved : ∀ content metadata, ∀ reference ∈ refs content metadata,
    reference.memoryId = none

/-- What the system says while a refresh runs: paths, and the projects of repositories. -/
structure Host where
  canonicalize : Path → Option Path
  repositories : Path → Option String

/-- Metadata of a regular file. -/
structure Metadata where
  size : Nat
  modifiedMillis : Nat
  changedNanos : Option Int
  deriving DecidableEq, Repr

/-- Whose header says what the document is about. -/
def MemoryCandidate.ownsScope (candidate : MemoryCandidate) : Bool :=
  candidate.provider = .codex && candidate.kind = .summary

def resolveMemoryScope (host : Host) (candidate : MemoryCandidate)
    (metadata : ParsedSourceMetadata) : MemoryScope :=
  let scope :=
    if candidate.ownsScope then
      { cwd := metadata.cwd, project := metadata.cwd.bind Path.fileName }
    else candidate.scope
  match scope.cwd with
  | none => scope
  | some cwd =>
      let cwd := Path.canonicalizeWithMissing host.canonicalize cwd
      { cwd := some cwd, project := (host.repositories cwd).or scope.project }

section Parse

variable (parsers : Parsers) (host : Host)

def contentVersion (content : String) : String :=
  parsers.sha256Hex (Retrieval.utf8 content)

def memoryStableId (provider : SourceKind) (sourcePath : Path) : String :=
  let label := provider.storageLabel
  "memory-" ++ label ++ "-" ++
    parsers.sha256Hex (Retrieval.utf8 label ++ 0 :: Retrieval.utf8 sourcePath.display)

/-- The document of a file's content. The search for section ids always ends. -/
def parseMemoryContent (candidate : MemoryCandidate) (content : String) (metadata : Metadata) :
    MemoryDocument :=
  let parsed := (parseSections parsers.tables content).getD ([], none)
  let sourceMetadata := parseSourceMetadata content
  { provider := candidate.provider
    stableId := memoryStableId parsers candidate.provider candidate.sourcePath
    versionSha256 := contentVersion parsers content
    sourcePath := candidate.sourcePath
    scope := resolveMemoryScope host candidate sourceMetadata
    kind := candidate.kind
    mtimeMs := metadata.modifiedMillis
    size := metadata.size
    changedNs := metadata.changedNanos
    eventDates := parsers.explicitDates content
    title := parsed.2.or candidate.sourcePath.fileStem
    content := content
    sections := parsed.1
    refs := parsers.refs content sourceMetadata
    freshness := .fresh }

end Parse

end Memex.Memory
