import Memex.Machine.ReadBudget
import Memex.Memory.Documents

/-! # Reading memory documents

`memory_search.rs`: the stored document of an id is compared with its source. A source that changed
is parsed again; where it cannot be, what is stored stands in for it. A text comes in pages, each of
which names the place to go on at. -/

namespace Memex.Memory

open Sources Machine

def maxMemoryReadChars : Nat := 64000

structure MemoryReadRequest where
  memoryId : String
  sectionRef : Option String := none
  contentVersion : Option String := none
  offsetChars : Nat := 0
  maxChars : Nat := 16000
  deriving DecidableEq, Repr

def MemoryReadRequest.validate (request : MemoryReadRequest) : Except String Unit :=
  if isBlankText request.memoryId then .error "memory_id must not be empty"
  else if request.maxChars = 0 || maxMemoryReadChars < request.maxChars then
    .error s!"memory read max_chars must be between 1 and {maxMemoryReadChars}"
  else .ok ()

structure MemoryReadValue where
  memoryId : String
  contentVersion : String
  sectionRef : Option String
  sectionId : Option String
  title : Option String
  heading : Option String
  documentKind : MemoryDocumentKind
  project : Option String
  cwd : Option Path
  source : SourceKind
  sourcePath : Path
  mtimeMs : Nat
  eventDates : List MemoryEventDate
  startLine : Option Nat
  endLine : Option Nat
  text : String
  refs : List MemoryRef
  freshness : MemoryFreshness
  changedSinceSearch : Bool
  offsetChars : Nat
  content : ContentPage
  nextOffsetChars : Option Nat
  deriving DecidableEq, Repr

/-- An error of the file system, and whether it says that there is no such file. -/
structure ReadFailure where
  message : String
  isMissing : Bool
  deriving DecidableEq, Repr

/-- What one call sees of the store, of the document's file and of the host, in the order it looks:
first on its own, then to compare the file, then to parse it. -/
structure SourceView where
  documents : Except String (List MemoryDocument)
  isFile : Except ReadFailure Bool
  canonical : Option Path
  comparedIsFile : Except String Bool
  comparedPath : Except String Path
  comparedBytes : Except String (List UInt8)
  pathBefore : Except ReadFailure Path
  parsedContent : Except ReadFailure (String × Metadata)
  pathAfter : Except ReadFailure Path
  host : Host

/-! ## References to sections -/

/-- What stands before and behind the first colon. -/
def splitColon (text : List Char) : Option (List Char × List Char) :=
  if ':' ∈ text then some (text.takeWhile (· ≠ ':'), (text.dropWhile (· ≠ ':')).drop 1) else none

def sectionRefStart : String := "msec1"

def makeSectionRef (version sectionId : String) : String :=
  sectionRefStart ++ ":" ++ version ++ ":" ++ sectionId

def parseSectionRef (sectionRef : String) : Except String (String × String) :=
  match splitColon sectionRef.toList with
  | none => .error "invalid memory section_ref"
  | some (start, rest) =>
      match splitColon rest with
      | none => .error "invalid memory section_ref"
      | some (version, sectionId) =>
          if start = sectionRefStart.toList && version ≠ [] && sectionId ≠ [] then
            .ok (String.ofList version, String.ofList sectionId)
          else .error "invalid memory section_ref"

def refsForLines (document : MemoryDocument) (start stop : Nat) : List MemoryRef :=
  document.refs.filter fun reference => start ≤ reference.line && reference.line ≤ stop

section Read

variable (parsers : Parsers)

/-- Whether the file is what was stored, and whether it is not. -/
def sourceFreshness (view : SourceView) (document : MemoryDocument) : MemoryFreshness × Bool :=
  let path := document.sourcePath.display
  match view.comparedIsFile with
  | .error error => (.stale s!"cannot inspect memory source {path}: {error}", true)
  | .ok false => (.stale s!"memory source {path} is not a regular non-symlink file", true)
  | .ok true =>
      match view.comparedPath with
      | .error error => (.stale s!"cannot resolve memory source {path}: {error}", true)
      | .ok canonical =>
          if canonical ≠ document.sourcePath then
            (.stale s!"memory source path identity changed from {path} to {canonical.display}",
              true)
          else
            match view.comparedBytes with
            | .error error => (.stale s!"cannot read memory source {path}: {error}", true)
            | .ok bytes =>
                if parsers.sha256Hex bytes = document.versionSha256 then (.fresh, false)
                else (.stale "memory source changed after the snapshot was created", true)

def reparseMemoryDocument (view : SourceView) (previous : MemoryDocument) :
    Except ReadFailure MemoryDocument :=
  view.pathBefore.bind fun before =>
    if before ≠ previous.sourcePath then
      .error ⟨"memory source path identity changed before reading", false⟩
    else
      view.parsedContent.bind fun (content, metadata) =>
        let candidate : MemoryCandidate :=
          { provider := previous.provider
            sourcePath := previous.sourcePath
            scope := previous.scope
            kind := previous.kind }
        let current := parseMemoryContent parsers view.host candidate content metadata
        view.pathAfter.bind fun after =>
          if after ≠ previous.sourcePath then
            .error ⟨"memory source path identity changed while reading", false⟩
          else .ok current

/-- The document an answer is about, how fresh it is, whether the source changed and whether it was
parsed again. -/
structure Served where
  document : MemoryDocument
  freshness : MemoryFreshness
  sourceChanged : Bool
  reparsedCurrent : Bool

/-- Why nothing is read of a document, if its source is known to be gone or to be another file. -/
def refusal (view : SourceView) (document : MemoryDocument) : Option String :=
  match view.isFile with
  | .ok false => some "memory source is no longer a regular file; refresh the index"
  | .error ⟨_, true⟩ => some "memory source no longer exists; refresh the index"
  | _ =>
      if view.canonical.any (· ≠ document.sourcePath) then
        some "memory source path identity changed; refresh the index"
      else none

def storedDocument (view : SourceView) (memoryId : String) : Except String MemoryDocument :=
  view.documents.bind fun documents =>
    match documents.find? fun document => document.stableId = memoryId with
    | none => .error s!"memory document '{memoryId}' not found"
    | some document =>
        match refusal view document with
        | some message => .error message
        | none => .ok document

def serve (view : SourceView) (stored : MemoryDocument) : Except String Served :=
  let (freshness, sourceChanged) := sourceFreshness parsers view stored
  if sourceChanged then
    match reparseMemoryDocument parsers view stored with
    | .ok current => .ok ⟨current, current.freshness, true, true⟩
    | .error failure =>
        if failure.isMissing then
          .error s!"memory source disappeared while reading: {failure.message}"
        else
          .ok ⟨stored, .stale ("memory source changed but current content could not be parsed: " ++
            failure.message), true, false⟩
  else .ok ⟨stored, freshness, false, false⟩

/-- Whether a request asks for another version than the one that is served. -/
def requestVersionChanged (request : MemoryReadRequest) (parsedRef : Option (String × String))
    (version : String) : Bool :=
  request.contentVersion.any (· ≠ version) || parsedRef.any fun parsed => parsed.1 ≠ version

/-- `selector_stale`: neither the section nor the offset of the request is used. -/
def changedSinceSearch (request : MemoryReadRequest) (parsedRef : Option (String × String))
    (served : Served) : Bool :=
  let hasVersionEvidence := request.contentVersion.isSome || parsedRef.isSome
  requestVersionChanged request parsedRef served.document.versionSha256 ||
    (served.sourceChanged && (!served.reparsedCurrent || !hasVersionEvidence))

/-- The section a reference asks for. -/
def selectSection (request : MemoryReadRequest) (document : MemoryDocument)
    (parsedRef : Option (String × String)) : Except String (Option MemorySection) :=
  match parsedRef with
  | none => .ok none
  | some (_, sectionId) =>
      match document.findSection sectionId with
      | some part => .ok (some part)
      | none => .error ("memory section '" ++ request.sectionRef.getD "" ++ "' not found")

/-- The text that is cut into pages. -/
def fullText (document : MemoryDocument) (selected : Option MemorySection) : String :=
  (selected.map (·.content)).getD document.content

/-- The page of a text at an offset. -/
def pageValue (served : Served) (selected : Option MemorySection) (changed : Bool)
    (offsetChars maxChars : Nat) : MemoryReadValue :=
  let document := served.document
  let text := fullText document selected
  let totalChars := charCount text
  let returnedChars := min maxChars (totalChars - offsetChars)
  { memoryId := document.stableId
    contentVersion := document.versionSha256
    sectionRef := selected.map fun part => makeSectionRef document.versionSha256 part.id
    sectionId := selected.map (·.id)
    title := document.title
    heading := selected.bind (·.heading)
    documentKind := document.kind
    project := document.scope.project
    cwd := document.scope.cwd
    source := document.provider
    sourcePath := document.sourcePath
    mtimeMs := document.mtimeMs
    eventDates := document.eventDates
    startLine := selected.map (·.startLine)
    endLine := selected.map (·.endLine)
    text := charRange text offsetChars returnedChars
    refs :=
      match selected with
      | some part => refsForLines document part.startLine part.endLine
      | none => document.refs
    freshness := served.freshness
    changedSinceSearch := changed
    offsetChars := offsetChars
    content := ReadBudget.fieldPage .text offsetChars returnedChars totalChars
    nextOffsetChars :=
      if offsetChars + returnedChars < totalChars then some (offsetChars + returnedChars)
      else none }

/-- The answer from what is served. -/
def answerFrom (request : MemoryReadRequest) (served : Served) : Except String MemoryReadValue :=
  (request.sectionRef.mapM parseSectionRef).bind fun parsedRef =>
    let changed := changedSinceSearch request parsedRef served
    let selected :=
      if changed then .ok none else selectSection request served.document parsedRef
    selected.bind fun selected =>
      let offsetChars := if changed then 0 else request.offsetChars
      let totalChars := charCount (fullText served.document selected)
      if totalChars < offsetChars then
        .error <| s!"offset_chars {offsetChars} is past the end of memory content " ++
          s!"({totalChars} chars)"
      else .ok (pageValue served selected changed offsetChars request.maxChars)

/-- The document that a request for an id is answered from. -/
def servedFor (view : SourceView) (memoryId : String) : Except String Served :=
  (storedDocument view memoryId).bind (serve parsers view)

def readMemory (view : SourceView) (request : MemoryReadRequest) :
    Except String MemoryReadValue :=
  request.validate.bind fun _ =>
    (servedFor parsers view request.memoryId).bind (answerFrom request)

/-- `read_memory` of `machine.rs` on the local machine: the answer is checked once more. -/
def readMachineMemory (view : SourceView) (request : MemoryReadRequest) :
    Except String MemoryReadValue :=
  (readMemory parsers view request).bind fun value =>
    if value.memoryId ≠ request.memoryId then
      .error "memory read returned a different document"
    else if request.maxChars < charCount value.text then
      .error "memory read exceeded requested content budget"
    else if value.content.returnedChars ≠ charCount value.text ||
        value.content.totalChars < value.content.returnedChars then
      .error "memory read returned inconsistent content metadata"
    else .ok value

/-! ## Following pages -/

/-- The request for the page behind an answer. -/
def MemoryReadRequest.next (request : MemoryReadRequest) (value : MemoryReadValue)
    (offsetChars : Nat) : MemoryReadRequest :=
  { request with
    sectionRef := value.sectionRef
    contentVersion := some value.contentVersion
    offsetChars := offsetChars }

/-- The pages a client gets that goes on where each answer says, until one says nothing; nothing
if that takes too many steps or an answer is an error. -/
def followPages (view : SourceView) : Nat → MemoryReadRequest → Option (List MemoryReadValue)
  | 0, _ => none
  | steps + 1, request =>
      match readMemory parsers view request with
      | .error _ => none
      | .ok value =>
          match value.nextOffsetChars with
          | none => some [value]
          | some next => (followPages view steps (request.next value next)).map (value :: ·)

/-- How a loop over the pages ends. -/
inductive PageLoop where
  | complete (text : String) (reads : Nat)
  | changedMidRead (reads : Nat)
  | failed (error : String)
  deriving DecidableEq

/-- The inner loop of `read_full_memory`; `reads` counts the calls, each of which sees a view of its
own. -/
def pageLoop (views : Nat → SourceView) (first : MemoryReadValue) :
    Nat → Nat → MemoryReadRequest → String → Option Nat → Option PageLoop
  | _, reads, _, text, none => some (.complete text reads)
  | 0, _, _, _, some _ => none
  | steps + 1, reads, request, text, some offsetChars =>
      let request := request.next first offsetChars
      match readMachineMemory parsers (views reads) request with
      | .error error => some (.failed error)
      | .ok page =>
          if page.changedSinceSearch || page.contentVersion ≠ first.contentVersion then
            some (.changedMidRead (reads + 1))
          else pageLoop views first steps (reads + 1) request (text ++ page.text)
            page.nextOffsetChars

/-- The whole text in one answer. -/
def wholeValue (first : MemoryReadValue) (text : String) : MemoryReadValue :=
  { first with
    text := text
    content := { first.content with
      returnedChars := charCount text
      truncated := false
      continuations := [] }
    nextOffsetChars := none }

def maxVersionRestarts : Nat := 2

def changedRepeatedly : String :=
  "memory changed repeatedly while reading; search again and retry with the new content_version"

/-- How an attempt to read the whole text ends. -/
inductive Attempt where
  | returned (value : MemoryReadValue)
  | failed (error : String)
  | changedMidRead (reads : Nat)

def Attempt.ofLoop (first : MemoryReadValue) : PageLoop → Attempt
  | .complete text _ => .returned (wholeValue first text)
  | .changedMidRead reads => .changedMidRead reads
  | .failed error => .failed error

/-- A first answer and the pages behind it, of which there may be so many. -/
def attempt (views : Nat → SourceView) (original : MemoryReadRequest) (steps reads : Nat) :
    Option Attempt :=
  let request := { original with maxChars := maxMemoryReadChars }
  match readMachineMemory parsers (views reads) request with
  | .error error => some (.failed error)
  | .ok first =>
      (pageLoop parsers views first steps (reads + 1) request first.text
        first.nextOffsetChars).map (Attempt.ofLoop first)

/-- What comes of an attempt, if something is done about a text that changed. -/
def settle (restart : Nat → Option (Except String MemoryReadValue)) :
    Option Attempt → Option (Except String MemoryReadValue)
  | none => none
  | some (.returned value) => some (.ok value)
  | some (.failed error) => some (.error error)
  | some (.changedMidRead reads) => restart reads

/-- `read_full_memory` with so many restarts left. -/
def readFull (views : Nat → SourceView) (original : MemoryReadRequest) (steps : Nat) :
    Nat → Nat → Option (Except String MemoryReadValue)
  | 0, reads =>
      settle (fun _ => some (.error changedRepeatedly)) (attempt parsers views original steps reads)
  | restarts + 1, reads =>
      settle (readFull views original steps restarts) (attempt parsers views original steps reads)

def readFullMemory (views : Nat → SourceView) (original : MemoryReadRequest) (steps : Nat) :
    Option (Except String MemoryReadValue) :=
  readFull parsers views original steps maxVersionRestarts 0

end Read

end Memex.Memory
