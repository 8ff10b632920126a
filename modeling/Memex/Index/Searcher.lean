import Memex.Index.Filters
import Memex.Machine.BoundedReads

/-! # Reading the index

The read operations of `SearchIndex`, on the documents that one searcher sees. A collector of the
best documents is made with a limit, and with the limit zero it panics. -/

namespace Memex.Index

open BooleanQuery Filters Machine

/-- What a read operation fails with: a panic of the collector, a subtraction below zero, or a
query that cannot be parsed. -/
inductive Failure where
  | zeroLimit
  | underflow
  | parse (message : String)
  deriving DecidableEq, Repr

/-- `QueryOptions` with its text and limit. -/
structure SearchOptions extends QueryOptions where
  query : String := ""
  limit : Nat

inductive TimestampOrder where
  | newest
  | oldest
  deriving DecidableEq, Repr

/-- The documents of a searcher by address, as the index writes them, the parser of its queries
and their relevance, and whether the session identity is stored in fast fields. -/
structure SearchIndex where
  fields : IndexFields
  docs : List Document
  stored : ∀ doc ∈ docs, Stored fields doc
  readers : Readers
  parseQuery : String → Except String DocQuery
  relevance : DocQuery → Document → Nat
  fastSessionIdentity : Bool

namespace SearchIndex

variable (index : SearchIndex)

/-- The documents that a query matches, by address. -/
def found (query : DocQuery) : List Document :=
  index.docs.filter fun doc => accepts doc.holds query

/-- `Count`. -/
def count (query : DocQuery) : Nat :=
  (index.found query).length

def recordOf (doc : Document) : Record :=
  recordFromDoc index.readers index.fields doc

/-- `TopDocs::with_limit(limit).and_offset(offset)` in some order; ties stand by address. -/
def topDocs (query : DocQuery) (order : Document → Document → Ordering) (limit offset : Nat) :
    Except Failure (List Document) :=
  if limit = 0 then .error .zeroLimit
  else .ok (((LatestByKey.sorted order (index.found query)).drop offset).take limit)

/-- The most relevant documents first. -/
def byRelevance (query : DocQuery) (left right : Document) : Ordering :=
  compare (index.relevance query right) (index.relevance query left)

/-- `build_query` of some options. -/
def queryOf (options : SearchOptions) : Except Failure DocQuery :=
  if Sources.trim options.query = "" then
    .ok (buildQuery index.fields .all options.toQueryOptions)
  else
    match index.parseQuery options.query with
    | .error message => .error (.parse message)
    | .ok text => .ok (buildQuery index.fields text options.toQueryOptions)

end SearchIndex

/-! ## Orders and scopes -/

def byTimestamp (left right : Document) : Ordering :=
  compare (left.getU64 .ts) (right.getU64 .ts)

/-- `TimestampAscending`. -/
def byTimestampAndId (left right : Document) : Ordering :=
  (byTimestamp left right).then (compare (left.getU64 .docId) (right.getU64 .docId))

/-- `SessionOrder`. -/
def bySessionOrder (left right : Document) : Ordering :=
  (compare (left.getU64 .turnId) (right.getU64 .turnId)).then (byTimestampAndId left right)

/-- `exact_source_query`. -/
def exactSourceQuery (fields : IndexFields) (source : SourceKind) : Option DocQuery :=
  fields.source.map fun field =>
    labelsQuery field
      (match source with
        | .codex => ["codex", "codex-session", "codex-history"]
        | _ => [source.storageLabel])

/-- `session_query`. -/
def sessionQuery (fields : IndexFields) (sessionId : String) (sourcePath : Option String)
    (source : Option SourceKind) (extra : Option DocQuery) : DocQuery :=
  .must (termQuery .sessionId sessionId ::
    (sourcePath.map (termQuery .sourcePath)).toList ++
    (source.bind (exactSourceQuery fields)).toList ++ extra.toList)

/-- `source_scope_query`. -/
def sourceScopeQuery (scope : State.SessionScope) : DocQuery :=
  .must [termQuery .sourcePath scope.sourcePath, termQuery .sessionId scope.sessionId]

/-- Subtraction of `usize` values. -/
def checkedSub (left right : Nat) : Except Failure Nat :=
  if right ≤ left then .ok (left - right) else .error .underflow

/-! ## The operations -/

namespace SearchIndex

variable (index : SearchIndex)

/-- `doc_ids_matching_query`, in ascending order. -/
def docIdsMatchingQuery (query : DocQuery) : Except Failure (List Nat) := do
  let docs ← index.topDocs query (index.byRelevance query) (max index.docs.length 1) 0
  return (docs.filterMap fun doc =>
    match doc.lookup .docId with
    | some (.u64 docId) => some docId
    | _ => none).insertionSort (· ≤ ·)

def docIdsBySourceScope (scope : State.SessionScope) : Except Failure (List Nat) :=
  index.docIdsMatchingQuery (sourceScopeQuery scope)

def docIdsBySourcePath (path : String) : Except Failure (List Nat) :=
  index.docIdsMatchingQuery (termQuery .sourcePath path)

def getByDocId (docId : Nat) : Except Failure (Option Record) := do
  let query : DocQuery := .term (.u64 .docId docId)
  let docs ← index.topDocs query (index.byRelevance query) 1 0
  return docs.head?.map index.recordOf

def recordsMatchingQuery (query : DocQuery) : Except Failure (List Record) :=
  let count := index.count query
  if count = 0 then return []
  else do
    let docs ← index.topDocs query (index.byRelevance query) count 0
    return docs.map index.recordOf

def recordsByDocId (docId : Nat) : Except Failure (List Record) :=
  index.recordsMatchingQuery (.term (.u64 .docId docId))

def recordsByEventId (eventId : String) : Except Failure (List Record) :=
  index.recordsMatchingQuery (termQuery .eventId eventId)

/-- An index without canonical ids has no answer. -/
def recordsByCanonicalId (recordId : String) : Except Failure (Option (List Record)) :=
  match index.fields.canonicalRecordId with
  | none => return none
  | some field => do
      let records ← index.recordsMatchingQuery (termQuery field recordId)
      return some records

/-- The session of a record, or with the field of canonical ids only its candidates. -/
def canonicalScope (recordId sessionId : String) (sourcePath : Option String)
    (source : Option SourceKind) : DocQuery :=
  sessionQuery index.fields sessionId sourcePath source
    (index.fields.canonicalRecordId.map fun field => termQuery field recordId)

/-- How many candidates are read: two if they carry the id, or all of the session. -/
def canonicalLimit (scope : DocQuery) : Nat :=
  if index.fields.canonicalRecordId.isSome then 2 else index.count scope

def recordsByCanonicalIdInSessionScope (recordId sessionId : String)
    (sourcePath : Option String) (source : Option SourceKind) : Except Failure (List Record) :=
  let scope := index.canonicalScope recordId sessionId sourcePath source
  if index.canonicalLimit scope = 0 then return []
  else do
    let docs ← index.topDocs scope bySessionOrder (index.canonicalLimit scope) 0
    let named := (docs.map index.recordOf).filter fun record =>
      Retrieval.canonicalRecordId index.readers.digest record = recordId
    return LatestByKey.sorted sessionOrder (named.take 2)

def recordsByContextScope (sessionId : Option String) (source : Option SourceKind) :
    Except Failure (List Record) :=
  let clauses := (sessionId.map (termQuery .sessionId)).toList ++
    (source.bind (exactSourceQuery index.fields)).toList
  index.recordsMatchingQuery (if clauses = [] then .all else .must clauses)

def search (options : SearchOptions) : Except Failure (List (Nat × Record)) := do
  let query ← index.queryOf options
  let docs ← index.topDocs query (index.byRelevance query) options.limit 0
  return docs.map fun doc => (index.relevance query doc, index.recordOf doc)

def searchByTimestamp (options : SearchOptions) (order : TimestampOrder) :
    Except Failure (List Record) := do
  let query ← index.queryOf options
  let before (left right : Document) : Ordering :=
    match order with
    | .newest => byTimestampAndId right left
    | .oldest => byTimestampAndId left right
  let docs ← index.topDocs query before (max options.limit 1) 0
  return docs.map index.recordOf

/-- The sessions of the matching documents. No collector with a limit is made. -/
def sessionScopesMatchingQuery (options : SearchOptions) :
    Except Failure (List SessionScopeKey) := do
  let query ← index.queryOf options
  return ((index.found query).map fun doc => identity (index.recordOf doc)).dedup

def fastSessionScopesMatchingQuery (options : SearchOptions) :
    Except Failure (Option (List SessionScopeKey)) :=
  if index.fields.source.isSome && index.fastSessionIdentity then do
    let scopes ← index.sessionScopesMatchingQuery options
    return some scopes
  else return none

def sessionScopeHasMatchingConversationKind (options : SearchOptions) (scope : SessionScopeKey)
    (kind : String) : Except Failure Bool := do
  let inScope ← index.queryOf { options with sessionScope := some [scope] }
  let query : DocQuery := .must [inScope, termQuery .conversationKind kind]
  let docs ← index.topDocs query (index.byRelevance query) 1 0
  return docs ≠ []

def docIdsMatchingFilters (options : SearchOptions) : Except Failure (List Nat) := do
  let query ← index.queryOf { options with query := "" }
  let count := index.count query
  if count = 0 then return []
  else
    let docs ← index.topDocs query
      (fun left right => compare (left.getU64 .docId) (right.getU64 .docId)) count 0
    return docs.map fun doc => doc.getU64 .docId

/-- All records of a session, in a collector of as many as the index has documents. -/
def recordsBySessionId (sessionId : String) : Except Failure (List Record) := do
  let query := termQuery .sessionId sessionId
  let docs ← index.topDocs query (index.byRelevance query) index.docs.length 0
  return docs.map index.recordOf

def matchingSessionScopes (sessionId : String) (sourcePath : Option String)
    (source : Option SourceKind) : Except Failure (List (SourceKind × String)) := do
  let session := sessionQuery index.fields sessionId sourcePath source none
  let first ← index.topDocs session (index.byRelevance session) 1 0
  match first.head?.map index.recordOf with
  | none => return []
  | some representative =>
      let identity : DocQuery := .must (termQuery .sourcePath representative.sourcePath ::
        (exactSourceQuery index.fields representative.source).toList)
      let others : DocQuery := .boolean [(.must, session), (.mustNot, identity)]
      let second ← index.topDocs others (index.byRelevance others) 1 0
      return (representative :: (second.head?.map index.recordOf).toList).map fun record =>
        (record.source, record.sourcePath)

/-! ## Pages of a session -/

/-- `records_by_session_scope_page`: a page of the second half is collected from the end. -/
def recordsBySessionScopePage (sessionId : String) (sourcePath : Option String)
    (source : Option SourceKind) (offset limit : Nat) : Except Failure (List Record × Nat) :=
  let query := sessionQuery index.fields sessionId sourcePath source none
  let total := index.count query
  if total ≤ offset then return ([], total)
  else do
    let rest ← checkedSub total offset
    let pageLimit := min (max limit 1) rest
    let remainingAfter ← checkedSub rest pageLimit
    let (order, skipped) :=
      if offset ≤ remainingAfter then (bySessionOrder, offset)
      else (fun left right => bySessionOrder right left, remainingAfter)
    let docs ← index.topDocs query order pageLimit skipped
    return (LatestByKey.sorted sessionOrder (docs.map index.recordOf), total)

def recordsBySessionPathPage (sessionId : String) (sourcePath : Option String)
    (offset limit : Nat) : Except Failure (List Record × Nat) :=
  index.recordsBySessionScopePage sessionId sourcePath none offset limit

def recordsBySessionIdPage (sessionId : String) (offset limit : Nat) :
    Except Failure (List Record × Nat) :=
  index.recordsBySessionPathPage sessionId none offset limit

/-- The documents before a record in the order of its session, by the three numbers. -/
def predecessors (anchor : Record) : DocQuery :=
  .should
    [.term (.range .turnId .unbounded (.excluded anchor.turnId)),
      .must [.term (.u64 .turnId anchor.turnId),
        .term (.range .ts .unbounded (.excluded anchor.ts))],
      .must [.term (.u64 .turnId anchor.turnId), .term (.u64 .ts anchor.ts),
        .term (.range .docId .unbounded (.excluded anchor.docId))]]

/-- The record itself and the documents after it. -/
def successors (anchor : Record) : DocQuery :=
  .should
    [.term (.range .turnId (.excluded anchor.turnId) .unbounded),
      .must [.term (.u64 .turnId anchor.turnId),
        .term (.range .ts (.excluded anchor.ts) .unbounded)],
      .must [.term (.u64 .turnId anchor.turnId), .term (.u64 .ts anchor.ts),
        .term (.range .docId (.included anchor.docId) .unbounded)]]

/-- `records_by_session_scope_around`. -/
def recordsBySessionScopeAround (sessionId : String) (sourcePath : Option String)
    (source : Option SourceKind) (recordId : String) (limit : Nat) :
    Except Failure (Option (List Record × Nat × Nat)) := do
  let anchors ← index.recordsByCanonicalIdInSessionScope recordId sessionId sourcePath source
  match anchors.head? with
  | none => return none
  | some anchor =>
      let session := sessionQuery index.fields sessionId sourcePath source
      let beforeQuery := session (some (predecessors anchor))
      let anchorOffset := index.count beforeQuery
      let total := index.count (session none)
      let limit := min (max limit 1) total
      let beforeLimit := min anchorOffset (limit / 2)
      let afterAvailable ← checkedSub total anchorOffset
      let afterLimit ← checkedSub limit beforeLimit
      let afterCount := min afterAvailable afterLimit
      let beforeRoom ← checkedSub limit afterCount
      let beforeCount := min anchorOffset beforeRoom
      let offset ← checkedSub anchorOffset beforeCount
      let before ← index.topDocs beforeQuery (fun left right => bySessionOrder right left)
        (max beforeCount 1) 0
      let after ← index.topDocs (session (some (successors anchor))) bySessionOrder
        (max afterCount 1) 0
      let records := (before.take beforeCount ++ after.take afterCount).map index.recordOf
      return some (LatestByKey.sorted sessionOrder records, total, offset)

def recordsBySessionPathAround (sessionId : String) (sourcePath : Option String)
    (recordId : String) (limit : Nat) : Except Failure (Option (List Record × Nat × Nat)) :=
  index.recordsBySessionScopeAround sessionId sourcePath none recordId limit

/-! ## Times and recent records -/

def sessionScopeTimeBounds (sessionId : String) (sourcePath : Option String)
    (source : Option SourceKind) : Except Failure (Option (Nat × Nat)) := do
  let query := sessionQuery index.fields sessionId sourcePath source none
  let oldest ← index.topDocs query byTimestamp 1 0
  let newest ← index.topDocs query (fun left right => byTimestamp right left) 1 0
  return oldest.head?.bind fun first => newest.head?.map fun last =>
    (first.getU64 .ts, last.getU64 .ts)

def sessionTimeBounds (sessionId : String) (sourcePath : Option String) :
    Except Failure (Option (Nat × Nat)) :=
  index.sessionScopeTimeBounds sessionId sourcePath none

def recentRecordsFilteredSince (limit : Nat) (source : Option SourceKind)
    (project : Option String) (since : Option Nat) : Except Failure (List Record) := do
  let clauses := sourceClauses index.fields source ++
    (project.map (termQuery .project)).toList ++
    (since.map fun since => Query.term (Term.range .ts (.included since) .unbounded)).toList
  let query : DocQuery := if clauses = [] then .all else .must clauses
  let docs ← index.topDocs query (fun left right => byTimestamp right left) (max limit 1) 0
  return docs.map index.recordOf

def recentRecordsFiltered (limit : Nat) (source : Option SourceKind) (project : Option String) :
    Except Failure (List Record) :=
  index.recentRecordsFilteredSince limit source project none

def recentRecordsForSource (limit : Nat) (source : Option SourceKind) :
    Except Failure (List Record) :=
  index.recentRecordsFiltered limit source none

def recentRecords (limit : Nat) : Except Failure (List Record) :=
  index.recentRecordsFiltered limit none none

end SearchIndex

end Memex.Index
