import Memex.Machine.ReadBudget
import Memex.Retrieval.Context

/-! # Bounded reads

`machine.rs`: the side that owns an index answers a read within a budget of characters; the side
that asked checks the answer against its request. -/

namespace Memex.Machine

open LineStream Retrieval

/-- Addition of `usize` values, if the sum is one. -/
def checkedAdd (left right : Nat) : Option Nat :=
  if left + right < 2 ^ 64 then some (left + right) else none

/-- A state of the index: its live records, of which no two have one document id. -/
structure Snapshot where
  records : List Record
  unique : (records.map Record.docId).Nodup
  countable : records.length < 2 ^ 64

structure BoundedRecord where
  recordId : String
  record : Record
  content : ContentPage
  deriving DecidableEq, Repr

structure BoundedContextRecord where
  recordId : String
  relation : ContextRelation
  distance : Int
  record : Record
  content : ContentPage
  deriving DecidableEq, Repr

/-- A record of a context with what a budget left of it. -/
def BoundedContextRecord.ofEntry (entry : ContextRecord × BoundedRecord) :
    BoundedContextRecord where
  recordId := entry.2.recordId
  relation := entry.1.relation
  distance := entry.1.distance
  record := entry.2.record
  content := entry.2.content

structure BoundedContext where
  anchorRecordId : String
  order : String
  offset : Nat
  total : Nat
  nextOffset : Option Nat
  records : List BoundedContextRecord
  deriving DecidableEq, Repr

structure SessionPageRequest where
  sessionId : String
  sourcePath : String
  offset : Nat
  limit : Nat
  deriving DecidableEq, Repr

structure SessionPageContext where
  sessionId : String
  sourcePath : String
  records : List Record
  cwd : Option String
  offset : Nat
  total : Nat
  nextOffset : Option Nat
  deriving DecidableEq, Repr

structure BoundedSessionPage where
  sessionId : String
  sourcePath : String
  records : List BoundedRecord
  cwd : Option String
  offset : Nat
  total : Nat
  nextOffset : Option Nat
  deriving DecidableEq, Repr

/-! ## Requests -/

def maxSessionPageSize : Nat := 500

def maxSessionBatchSize : Nat := 32

def validateContextSelector (selector : ContextSelector) : Except String Unit :=
  let (id, sessionId) : Option String × Option String :=
    match selector with
    | .recordId id sessionId _ => (some id, sessionId)
    | .eventId id sessionId _ => (some id, sessionId)
    | .docId _ sessionId _ => (none, sessionId)
  if id = some "" then .error "record selector id must not be empty"
  else if sessionId = some "" then .error "record selector session_id must not be empty"
  else .ok ()

def validateSessionPageRequest (request : SessionPageRequest) : Except String Unit :=
  if request.sessionId = "" then .error "session page session_id must not be empty"
  else if request.limit = 0 then .error "session page limit must be greater than zero"
  else if maxSessionPageSize < request.limit then
    .error s!"session page limit {request.limit} exceeds maximum {maxSessionPageSize}"
  else .ok ()

def validateSessionBatch (requests : List SessionPageRequest) : Except String Unit :=
  if maxSessionBatchSize < requests.length then
    .error s!"session batch size {requests.length} exceeds maximum {maxSessionBatchSize}"
  else requests.forM validateSessionPageRequest

/-! ## Pages of a session -/

/-- The order of the records of a session. -/
def sessionOrder (left right : Record) : Ordering :=
  (compare left.turnId right.turnId).then
    ((compare left.ts right.ts).then (compare left.docId right.docId))

/-- `session_query` of a session id and, if it is not empty, of a path. -/
def sessionScope (index : List Record) (sessionId sourcePath : String) : List Record :=
  index.filter fun record => record.sessionId = sessionId &&
    (sourcePath = "" || record.sourcePath = sourcePath)

/-- The best documents of a search, from an offset on. -/
def topDocs (order : Record → Record → Ordering) (limit offset : Nat) (found : List Record) :
    List Record :=
  ((LatestByKey.sorted order found).drop offset).take limit

/-- `records_for_session_page`: a page of the second half is searched from the end. -/
def recordsForSessionPage (index : List Record) (request : SessionPageRequest) :
    List Record × Nat :=
  let found := sessionScope index request.sessionId request.sourcePath
  let total := found.length
  if total ≤ request.offset then ([], total)
  else
    let pageLimit := min (max request.limit 1) (total - request.offset)
    let remainingAfter := total - request.offset - pageLimit
    let page :=
      if request.offset ≤ remainingAfter then
        topDocs sessionOrder pageLimit request.offset found
      else topDocs (fun left right => sessionOrder right left) pageLimit remainingAfter found
    (LatestByKey.sorted sessionOrder page, total)

def boundedNextOffset (offset returned total : Nat) : Option Nat :=
  if offset + returned < total then some (offset + returned) else none

/-- `session_page_context_local`; the working directory is looked up in the transcript. -/
def sessionPageContextLocal (discoverCwd : String → String → Option String)
    (index : List Record) (request : SessionPageRequest) : SessionPageContext :=
  let (records, total) := recordsForSessionPage index request
  { sessionId := request.sessionId
    sourcePath := request.sourcePath
    records
    cwd := discoverCwd request.sourcePath request.sessionId
    offset := request.offset
    total
    nextOffset := boundedNextOffset request.offset records.length total }

/-! ## Answers -/

def applyRecordBudget (digest : Bytes → String) (record : Record) (budget : ReadBudget)
    (field : Option ReadField) (offsetChars : Nat) :
    Except String (ReadBudget × BoundedRecord) :=
  match budget.apply record field offsetChars with
  | .error message => .error message
  | .ok (spent, selected, content) =>
      .ok (spent, { recordId := canonicalRecordId digest record, record := selected, content })

/-- Items are returned whole or clipped until the budget is spent. -/
def applyBudget {α : Type} (digest : Bytes → String) (recordOf : α → Record) :
    ReadBudget → List α → Except String (ReadBudget × List (α × BoundedRecord))
  | budget, [] => .ok (budget, [])
  | budget, item :: rest =>
      if budget.remaining = some 0 then .ok (budget, [])
      else
        match applyRecordBudget digest (recordOf item) budget none 0 with
        | .error message => .error message
        | .ok (spent, bounded) =>
            match applyBudget digest recordOf spent rest with
            | .error message => .error message
            | .ok (left, returned) => .ok (left, (item, bounded) :: returned)

/-- The anchor stands before all others. -/
def anchorFirst (left right : ContextRecord) : Prop :=
  left.relation = .anchor ∨ right.relation ≠ .anchor

instance (left right : ContextRecord) : Decidable (anchorFirst left right) :=
  inferInstanceAs (Decidable (_ ∨ _))

/-- The order in which a context is returned, with its name. -/
def contextOrder (maxChars : Option Nat) (records : List ContextRecord) :
    List ContextRecord × String :=
  if maxChars.isSome then
    (records.insertionSort anchorFirst, "anchor_first")
  else (records, "chronological")

def applyContextBudget (digest : Bytes → String) (context : ContextResult) (offset : Nat)
    (maxChars : Option Nat) : Except String BoundedContext :=
  let (ordered, order) := contextOrder maxChars context.records
  let total := ordered.length
  match applyBudget digest ContextRecord.record { remaining := maxChars } (ordered.drop offset) with
  | .error message => .error message
  | .ok (_, returned) =>
      .ok
        { anchorRecordId := context.anchorRecordId
          order, offset, total
          nextOffset := boundedNextOffset offset returned.length total
          records := returned.map BoundedContextRecord.ofEntry }

/-- The pages of a batch share one budget. -/
def applyPagesBudget (digest : Bytes → String) :
    ReadBudget → List SessionPageContext → Except String (List BoundedSessionPage)
  | _, [] => .ok []
  | budget, context :: rest =>
      match applyBudget digest id budget context.records with
      | .error message => .error message
      | .ok (left, returned) =>
          let page : BoundedSessionPage :=
            { sessionId := context.sessionId
              sourcePath := context.sourcePath
              records := returned.map Prod.snd
              cwd := context.cwd
              offset := context.offset
              total := context.total
              nextOffset := boundedNextOffset context.offset returned.length context.total }
          (applyPagesBudget digest left rest).map (page :: ·)

def applySessionPagesBudget (digest : Bytes → String) (contexts : List SessionPageContext)
    (maxChars : Option Nat) : Except String (List BoundedSessionPage) :=
  applyPagesBudget digest { remaining := maxChars } contexts

section Serving

variable (digest : Bytes → String) (discoverCwd : String → String → Option String)
  (index : List Record)

/-- `RpcOperation::ReadRecord`. -/
def serveReadRecord (selector : ContextSelector) (field : Option ReadField)
    (offsetChars maxChars : Nat) : Except String BoundedRecord :=
  match validateContextSelector selector with
  | .error message => .error message
  | .ok () =>
      if maxChars = 0 then .error "max_chars must be greater than zero for a record read"
      else
        match resolveRecord digest index selector with
        | .error message => .error message
        | .ok record =>
            (applyRecordBudget digest record { remaining := some maxChars } field offsetChars).map
              Prod.snd

/-- `RpcOperation::ReadContext`. -/
def serveReadContext (selector : ContextSelector) (options : ContextOptions)
    (offset maxChars : Nat) : Except String BoundedContext :=
  match validateContextSelector selector with
  | .error message => .error message
  | .ok () =>
      match contextRecords digest index selector options with
      | .error message => .error message
      | .ok context => applyContextBudget digest context offset (some maxChars)

/-- `RpcOperation::ReadSessionPages`. -/
def serveReadSessionPages (requests : List SessionPageRequest) (maxChars : Nat) :
    Except String (List BoundedSessionPage) :=
  match validateSessionBatch requests with
  | .error message => .error message
  | .ok () =>
      applySessionPagesBudget digest (requests.map (sessionPageContextLocal discoverCwd index))
        (some maxChars)

end Serving

/-! ## Checks of an answer -/

/-- The continuations of a page: none is past its end, no field has two. -/
def validateContinuations : List ReadField → List ContentContinuation → Except String Unit
  | _, [] => .ok ()
  | fields, continuation :: rest =>
      if continuation.totalChars < continuation.offsetChars then
        .error "bounded response has invalid continuation metadata"
      else if continuation.field ∈ fields then
        .error "bounded response repeats a continuation field"
      else validateContinuations (fields ++ [continuation.field]) rest

/-- `validate_content_page`: how many characters were returned. -/
def validateContentPage (record : Record) (content : ContentPage) : Except String Nat :=
  let actual := contentChars record
  if actual ≠ content.returnedChars then
    .error "bounded response content length does not match returned_chars"
  else if content.totalChars < content.returnedChars then
    .error "bounded response returned_chars exceeds total_chars"
  else if content.truncated = content.continuations.isEmpty then
    .error "bounded response has inconsistent truncation metadata"
  else (validateContinuations [] content.continuations).map fun _ => actual

def validateBoundedRecord (digest : Bytes → String) (bounded : BoundedRecord)
    (selector : ContextSelector) (maxChars : Option Nat) : Except String Unit :=
  if bounded.recordId ≠ canonicalRecordId digest bounded.record then
    .error "record read returned a non-canonical record identity"
  else if selectorMatches digest bounded.record selector = false then
    .error "record read response does not match its selector"
  else
    match validateContentPage bounded.record bounded.content with
    | .error message => .error message
    | .ok returned =>
        if maxChars.any (· < returned) then
          .error "record read response exceeds its requested character budget"
        else .ok ()

def validateBoundedPagination (offset total : Nat) (nextOffset : Option Nat) (returned : Nat)
    (context : String) : Except String Unit :=
  if total < offset then
    if returned ≠ 0 ∨ nextOffset.isSome then
      .error s!"{context} response has invalid out-of-range pagination"
    else .ok ()
  else
    match checkedAdd offset returned with
    | none => .error s!"{context} response has overflowing pagination metadata"
    | some expectedEnd =>
        if total < expectedEnd then .error s!"{context} response has an invalid pagination total"
        else if nextOffset ≠ (if expectedEnd < total then some expectedEnd else none) then
          .error s!"{context} response has inconsistent continuation metadata"
        else .ok ()

/-- A record of a context that is not the anchor it is said to be. -/
def wrongAnchor (digest : Bytes → String) (anchorRecordId : String) (selector : ContextSelector)
    (item : BoundedContextRecord) : Bool :=
  item.recordId ≠ anchorRecordId || !selectorMatches digest item.record selector

/-- The loop over the records of a context: the characters and the anchors so far. -/
def validateContextRecords (digest : Bytes → String) (anchorRecordId : String)
    (selector : ContextSelector) :
    Nat → Nat → List BoundedContextRecord → Except String (Nat × Nat)
  | returned, anchorCount, [] => .ok (returned, anchorCount)
  | returned, anchorCount, item :: rest =>
      if item.recordId ≠ canonicalRecordId digest item.record then
        .error "context read returned a non-canonical record identity"
      else if item.relation = .anchor ∧ wrongAnchor digest anchorRecordId selector item then
        .error "context read returned the wrong anchor record"
      else
        match validateContentPage item.record item.content with
        | .error message => .error message
        | .ok chars =>
            match checkedAdd returned chars with
            | none => .error "context read character count overflowed"
            | some returned =>
                validateContextRecords digest anchorRecordId selector returned
                  (if item.relation = .anchor then anchorCount + 1 else anchorCount) rest

def validateBoundedContext (digest : Bytes → String) (context : BoundedContext)
    (selector : ContextSelector) (offset : Nat) (maxChars : Option Nat) : Except String Unit :=
  if context.offset ≠ offset then .error "context read response has an unexpected offset"
  else if context.order ≠ (if maxChars.isSome then "anchor_first" else "chronological") then
    .error "context read response has an unexpected order"
  else
    match validateBoundedPagination context.offset context.total context.nextOffset
        context.records.length "context read" with
    | .error message => .error message
    | .ok () =>
        match validateContextRecords digest context.anchorRecordId selector 0 0
            context.records with
        | .error message => .error message
        | .ok (returned, anchorCount) =>
            if maxChars.any (· < returned) then
              .error "context read response exceeds its requested character budget"
            else if maxChars.any (0 < ·) ∧ offset = 0 then
              if context.records.head?.all (fun item => item.relation ≠ .anchor ||
                  wrongAnchor digest context.anchorRecordId selector item) ∨ anchorCount ≠ 1 then
                .error "bounded context response does not begin with exactly the selected anchor"
              else .ok ()
            else if 1 < anchorCount then
              .error "context read response contains duplicate anchors"
            else .ok ()

/-- A record of a page that is not of the session asked for. -/
def outsideSession (request : SessionPageRequest) (record : Record) : Bool :=
  record.sessionId ≠ request.sessionId ||
    (request.sourcePath ≠ "" && record.sourcePath ≠ request.sourcePath)

/-- The loop over the records of a page: the characters so far. -/
def validatePageRecords (digest : Bytes → String) (request : SessionPageRequest) :
    Nat → List BoundedRecord → Except String Nat
  | returned, [] => .ok returned
  | returned, bounded :: rest =>
      if bounded.recordId ≠ canonicalRecordId digest bounded.record then
        .error "session-page read returned a non-canonical record identity"
      else if outsideSession request bounded.record then
        .error "session-page read returned a record outside its requested session"
      else
        match validateContentPage bounded.record bounded.content with
        | .error message => .error message
        | .ok chars =>
            match checkedAdd returned chars with
            | none => .error "session-page read character count overflowed"
            | some returned => validatePageRecords digest request returned rest

/-- The loop over the pages: the characters so far. -/
def validatePages (digest : Bytes → String) :
    Nat → List (BoundedSessionPage × SessionPageRequest) → Except String Nat
  | returned, [] => .ok returned
  | returned, (page, request) :: rest =>
      if page.sessionId ≠ request.sessionId ∨ page.sourcePath ≠ request.sourcePath ∨
          page.offset ≠ request.offset then
        .error "session-page read response does not match its request"
      else if request.limit < page.records.length then
        .error "session-page read response exceeds its requested record limit"
      else
        match validateBoundedPagination page.offset page.total page.nextOffset
            page.records.length "session-page read" with
        | .error message => .error message
        | .ok () =>
            match validatePageRecords digest request returned page.records with
            | .error message => .error message
            | .ok returned => validatePages digest returned rest

def validateBoundedSessionPages (digest : Bytes → String) (pages : List BoundedSessionPage)
    (requests : List SessionPageRequest) (maxChars : Option Nat) : Except String Unit :=
  if pages.length ≠ requests.length then
    .error s!"session-page read returned {pages.length} pages for {requests.length} requests"
  else
    match validatePages digest 0 (pages.zip requests) with
    | .error message => .error message
    | .ok returned =>
        if maxChars.any (· < returned) then
          .error "session-page read response exceeds its requested character budget"
        else .ok ()

end Memex.Machine
