import Mathlib.Data.List.AList
import Memex.Analytics.Labels
import Memex.State.Types

/-! # The session catalogue

A refresh accumulates the records of each session, prepares one row for each, and merges
the rows into the stored table. -/

namespace Memex.Analytics

open Sources State

/-- Where a record stands in its session: turn, timestamp, document id. -/
structure RecordOrder where
  turnId : Nat
  ts : Nat
  docId : Nat
  deriving DecidableEq, Repr

/-- Tuples compare by their first difference. -/
def RecordOrder.before (left right : RecordOrder) : Bool :=
  left.turnId < right.turnId || (left.turnId = right.turnId &&
    (left.ts < right.ts || (left.ts = right.ts && left.docId < right.docId)))

def recordOrder (record : Record) : RecordOrder :=
  ⟨record.turnId, record.ts, record.docId⟩

def sessionKey (record : Record) : SessionKey :=
  ⟨record.source, record.sessionId, record.sourcePath⟩

/-- `SessionAccumulator`; its key is the one it is stored under. -/
structure SessionAccumulator where
  project : String
  startedAt : Nat
  lastAt : Nat
  messageCount : Nat := 0
  firstUserText : Option String := none
  firstUserOrder : Option RecordOrder := none
  conversationKind : Option String := none

/-- The accumulator of a session that was not seen yet. -/
def SessionAccumulator.fresh (record : Record) : SessionAccumulator where
  project := record.project
  startedAt := record.ts
  lastAt := record.ts

/-- The record can give its session a label. -/
def labelsSession (record : Record) : Bool :=
  record.role = "user" && !isBlankText record.text && sanitizeLabel record.text ≠ ""

/-- The body of `record`, for the entry of the record's session. -/
def SessionAccumulator.add (entry : SessionAccumulator) (record : Record) : SessionAccumulator :=
  let newest := decide (entry.lastAt ≤ record.ts)
  let opens := entry.firstUserOrder.all (recordOrder record).before && labelsSession record
  { project := if newest && record.project ≠ "" then record.project else entry.project
    startedAt := min entry.startedAt record.ts
    lastAt := if newest then record.ts else entry.lastAt
    messageCount := min (entry.messageCount + 1) (2 ^ 64 - 1)
    firstUserText := if opens then some record.text else entry.firstUserText
    firstUserOrder := if opens then some (recordOrder record) else entry.firstUserOrder
    conversationKind :=
      match record.links.conversationKind with
      | some kind =>
          if kind ≠ "" && (entry.conversationKind.isNone || kind = "main") then some kind
          else entry.conversationKind
      | none => entry.conversationKind }

/-- The sessions of one refresh. -/
abbrev Sessions := AList fun _ : SessionKey => SessionAccumulator

/-- `AnalyticsWriter::record`. -/
def Sessions.record (sessions : Sessions) (record : Record) : Sessions :=
  let entry := (sessions.lookup (sessionKey record)).getD (SessionAccumulator.fresh record)
  sessions.insert (sessionKey record) (entry.add record)

/-- Rust's `as i64` of a 64-bit number. -/
def asI64 (value : Nat) : Int :=
  if value % 2 ^ 64 < 2 ^ 63 then (value % 2 ^ 64 : Nat) else (value % 2 ^ 64 : Nat) - 2 ^ 64

/-- A row of the table `sessions`, without its key. -/
structure CatalogueRow where
  project : String
  metadata : SessionMetadata
  startedAt : Int
  lastAt : Int
  messageCount : Int
  label : Option String
  conversationKind : Option String
  deriving DecidableEq, Repr

/-- The table `sessions`. -/
abbrev Catalogue := Overlay.Table SessionKey CatalogueRow

/-- What `prepare` and the statement's parameters make of one session. -/
def preparedRow (lookups : SessionLookups) (key : SessionKey) (session : SessionAccumulator) :
    CatalogueRow where
  project := session.project
  metadata := lookups.metadata key
  startedAt := asI64 session.startedAt
  lastAt := asI64 session.lastAt
  messageCount := asI64 session.messageCount
  label := extractSessionLabel lookups key session.firstUserText
  conversationKind :=
    inferSessionKind lookups key session.conversationKind session.firstUserText

/-- `AnalyticsWriter::prepare`. -/
def prepare (lookups : SessionLookups) (sessions : Sessions) : List (SessionKey × CatalogueRow) :=
  sessions.entries.map fun entry => (entry.1, preparedRow lookups entry.1 entry.2)

/-- The conflict clause of the statement in `commit`. -/
def CatalogueRow.merge (stored excluded : CatalogueRow) : CatalogueRow where
  project := excluded.project
  metadata := excluded.metadata
  startedAt :=
    if stored.startedAt ≤ excluded.startedAt then stored.startedAt
    else excluded.startedAt
  lastAt := if stored.lastAt ≤ excluded.lastAt then excluded.lastAt else stored.lastAt
  messageCount := stored.messageCount + excluded.messageCount
  label := stored.label.or excluded.label
  conversationKind := stored.conversationKind.or excluded.conversationKind

def Catalogue.upsert (catalogue : Catalogue) (row : SessionKey × CatalogueRow) : Catalogue :=
  catalogue.insert row.1 (match catalogue.lookup row.1 with
    | some stored => stored.merge row.2
    | none => row.2)

def Catalogue.deleteWhere (catalogue : Catalogue) (condition : SessionKey → Bool) : Catalogue :=
  Overlay.eraseAll (catalogue.keys.filter fun key => condition key) catalogue

/-- `delete_scope`. -/
def Catalogue.deleteScope (catalogue : Catalogue) (scope : SessionScope) : Catalogue :=
  catalogue.deleteWhere fun key =>
    key.source = .opencode && key.sourcePath = scope.sourcePath && key.sessionId = scope.sessionId

/-- `delete_path`. -/
def Catalogue.deletePath (catalogue : Catalogue) (path : String) : Catalogue :=
  catalogue.deleteWhere fun key => key.sourcePath = path

/-- `PreparedAnalytics::commit`, when its transaction commits. -/
def Catalogue.commit (catalogue : Catalogue) (rows : List (SessionKey × CatalogueRow))
    (deletePaths : List String) (scopes : List SessionScope) : Catalogue :=
  rows.foldl Catalogue.upsert
    (deletePaths.foldl Catalogue.deletePath (scopes.foldl Catalogue.deleteScope catalogue))

/-- The rounds of one refresh without deletions: record, prepare, commit. -/
def Catalogue.refresh (lookups : SessionLookups) (catalogue : Catalogue)
    (records : List Record) : Catalogue :=
  catalogue.commit (prepare lookups (records.foldl Sessions.record ∅)) [] []

/-- `backfill_from_index_with_repositories`: the table is cleared first. -/
def backfillFromIndex (lookups : SessionLookups) (records : List Record) : Catalogue :=
  Catalogue.refresh lookups ∅ records

end Memex.Analytics
