import Mathlib.Data.List.Sort
import Memex.Ingest.Inventory
import Memex.Sources.Json

/-! # OpenCode databases

The tables of an OpenCode database that `sources/opencode.rs` reads: the v1
projection of `session`, `message`, `part` and the `event` log, and the v2
projection in `session_message`. A database may hold both generations. -/

namespace Memex.Sources.Opencode

open State

/-- A table as a query finds it; one that lacks a required column cannot be
read. -/
inductive SqlTable (α : Type) where
  | absent
  | mismatched
  | holding (rows : List α)
  deriving DecidableEq

namespace SqlTable

variable {α : Type}

/-- `table_exists`. -/
def isPresent : SqlTable α → Bool
  | absent => false
  | _ => true

def read : SqlTable α → Option (List α)
  | holding rows => some rows
  | _ => none

end SqlTable

structure SessionRow where
  id : String
  parentId : Option String := none
  directory : String := ""
  timeCreated : Int := 0
  timeUpdated : Int := 0
  deriving DecidableEq

/-- A row of `message`; the data is absent when it is no JSON. -/
structure MessageRow where
  id : String
  sessionId : String
  timeCreated : Int := 0
  data : Option Json

structure PartRow where
  id : String
  messageId : String
  data : Option Json

structure EventRow where
  rowid : Int
  id : String
  aggregateId : Option String
  deriving DecidableEq

structure SessionMessageRow where
  id : String
  kind : String
  sessionId : String
  seq : Int := 0
  timeCreated : Int := 0
  timeUpdated : Int := 0
  data : Option Json

structure EventSequenceRow where
  aggregateId : String
  seq : Int
  deriving DecidableEq

/-- The tables of one database, as one snapshot shows them. -/
structure Database where
  session : SqlTable SessionRow := .absent
  message : SqlTable MessageRow := .absent
  part : SqlTable PartRow := .absent
  event : SqlTable EventRow := .absent
  sessionV2 : SqlTable SessionRow := .absent
  sessionMessage : SqlTable SessionMessageRow := .absent
  eventSequence : SqlTable EventSequenceRow := .absent

namespace Database

variable (database : Database)

/-- `has_v2_schema`: the message storage decides the generation. -/
def hasV2Schema : Bool :=
  database.sessionMessage.isPresent

/-- `require_modern_schema`. -/
def requireModernSchema : Bool :=
  database.session.read.isSome && database.message.read.isSome && database.part.read.isSome

/-- `require_event_schema`. -/
def requireEventSchema : Bool :=
  database.event.read.isSome

/-- `v2_session_table`. -/
def v2SessionTable : SqlTable SessionRow :=
  if database.sessionV2.isPresent then database.sessionV2 else database.session

end Database

/-- `nonnegative_timestamp`. -/
def nonnegativeTimestamp (value : Int) : Option Nat :=
  if 0 ≤ value then some value.toNat else none

/-- Timestamps of a session row that the code converts. -/
def SessionRow.timestamps (row : SessionRow) : Option (Nat × Nat) :=
  (nonnegativeTimestamp row.timeCreated).bind fun created =>
    (nonnegativeTimestamp row.timeUpdated).map fun updated => (created, updated)

/-! ## Records of a session -/

/-- `SessionLinks`. -/
structure SessionLinks where
  parentSessionId : Option String := none
  threadSource : Option String := none
  conversationKind : Option String := none

def SessionLinks.recordLinks (links : SessionLinks) : RecordLinks where
  parentSessionId := links.parentSessionId
  threadSource := links.threadSource
  conversationKind := links.conversationKind

/-- `v2_session_links`, and the rule of v1 it mirrors. -/
def sessionLinks (parentId : Option String) : SessionLinks where
  parentSessionId := parentId
  threadSource := parentId.map fun _ => "fork"
  conversationKind := some (if parentId.isSome then "fork" else "main")

/-- A saturating turn counter of 32 bits. -/
def nextTurn (turnId : Nat) : Nat :=
  if turnId < 2 ^ 32 - 1 then turnId + 1 else turnId

section V1

structure ModernMessage where
  id : String
  timestamp : Nat
  role : String
  textParts : List String

/-- A row of `message` joined with one of its parts. -/
abbrev JoinedRow := MessageRow × PartRow

/-- `ORDER BY m.time_created, m.id, p.id`. -/
def JoinedRow.before (left right : JoinedRow) : Bool :=
  if left.1.timeCreated < right.1.timeCreated then true
  else if right.1.timeCreated < left.1.timeCreated then false
  else if left.1.id < right.1.id then true
  else if right.1.id < left.1.id then false
  else !(right.2.id < left.2.id)

/-- The rows of the message query. -/
def joinedRows (messages : List MessageRow) (parts : List PartRow) (sessionId : String) :
    List JoinedRow :=
  ((messages.filter fun message => message.sessionId = sessionId).flatMap fun message =>
    (parts.filter fun part => part.messageId = message.id).map fun part =>
      (message, part)).insertionSort fun left right => left.before right = true

/-- The text of a part, when it is one of text. -/
def partText (value : Json) : Option String :=
  if value.getStr "type" = some "text" then value.getNonEmpty "text" else none

/-- Add the text of a part to its message; a malformed part is skipped. -/
def ModernMessage.push (message : ModernMessage) (part : PartRow) : ModernMessage :=
  match part.data.bind partText with
  | some text => { message with textParts := message.textParts ++ [text] }
  | none => message

/-- The message a row opens. -/
def openMessage (row : MessageRow) (value : Json) (timestamp : Nat) : ModernMessage where
  id := row.id
  timestamp := timestamp
  role := (value.getNonEmpty "role").getD "user"
  textParts := []

/-- The loop of `collect_modern_messages`: group the rows by message. The ids of
malformed messages are remembered; an invalid timestamp ends the session. -/
def collectRows : List JoinedRow → Option ModernMessage → List String →
    Option (List ModernMessage)
  | [], current, _ => some current.toList
  | (message, part) :: rest, current, malformed =>
      let (done, current) := match current with
        | some last => if last.id ≠ message.id then ([last], none) else ([], some last)
        | none => ([], none)
      match current with
      | some last => (collectRows rest (some (last.push part)) malformed).map (done ++ ·)
      | none =>
          if message.id ∈ malformed then (collectRows rest none malformed).map (done ++ ·)
          else
            match nonnegativeTimestamp message.timeCreated with
            | none => none
            | some timestamp =>
                match message.data with
                | none =>
                    (collectRows rest none (message.id :: malformed)).map (done ++ ·)
                | some value =>
                    (collectRows rest (some ((openMessage message value timestamp).push part))
                      malformed).map (done ++ ·)

/-- `emit_modern_message`: a message without text is dropped. -/
def emitModernMessages (path sessionId : String) (links : SessionLinks) :
    List ModernMessage → Nat → List Record
  | [], _ => []
  | message :: rest, turnId =>
      if message.textParts = [] then emitModernMessages path sessionId links rest turnId
      else
        { source := .opencode
          ts := message.timestamp
          project := "opencode"
          sessionId
          turnId
          role := message.role
          text := "\n".intercalate message.textParts
          links := { links.recordLinks with eventId := some message.id }
          sourcePath := path } ::
        emitModernMessages path sessionId links rest (nextTurn turnId)

/-- `parse_session_records`: a session that is gone has no records. -/
def parseSessionRecords (database : Database) (path sessionId : String) : Option (List Record) :=
  match database.session.read with
  | none => none
  | some sessions =>
      match sessions.find? fun session => session.id = sessionId with
      | none => some []
      | some session =>
          match session.timestamps, database.message.read, database.part.read with
          | some _, some messages, some parts =>
              (collectRows (joinedRows messages parts sessionId) none []).map fun messages =>
                emitModernMessages path sessionId (sessionLinks session.parentId) messages 0
          | _, _, _ => none

end V1

section V2

variable (crates : Crates)

structure V2ToolContent where
  identity : String
  toolName : Option String
  toolInput : Option String
  toolOutput : Option String

structure V2AssistantContent where
  textParts : List String := []
  tools : List V2ToolContent := []

/-- `v2_tool_content_text`: the texts of the state's content. -/
def v2ToolContentText (state : Json) : Option String :=
  ((state.get "content").bind Json.asArray).bind fun items =>
    let parts := items.filterMap partText
    if parts = [] then none else some ("\n".intercalate parts)

/-- `v2_tool_fields`: name, input and output of a tool call. -/
def v2ToolFields (item : Json) : Option String × Option String × Option String :=
  let toolName := item.getNonEmpty "name"
  match item.get "state" with
  | none => (toolName, none, none)
  | some state =>
      let metadata (key : String) := (state.get "metadata").bind fun value => value.getNonEmpty key
      (toolName, (state.get "input").map crates.render,
        (((v2ToolContentText state).or (metadata "output")).or (metadata "outputPath")).or
          (metadata "filepath"))

/-- One item of an assistant message. -/
def V2AssistantContent.push (content : V2AssistantContent) (item : Json × Nat) :
    V2AssistantContent :=
  let (value, index) := item
  if !value.isObject then content
  else if value.getStr "type" = some "text" then
    match value.getNonEmpty "text" with
    | some text => { content with textParts := content.textParts ++ [text] }
    | none => content
  else if value.getStr "type" = some "tool" then
    let (toolName, toolInput, toolOutput) := v2ToolFields crates value
    if toolName.isSome || toolInput.isSome || toolOutput.isSome then
      let identity := match value.getNonEmpty "id" with
        | some id => "id:" ++ id
        | none => "index:" ++ toString index
      { content with
        tools := content.tools ++ [{ identity, toolName, toolInput, toolOutput }] }
    else content
  else content

/-- `v2_assistant_content`. -/
def v2AssistantContent (value : Json) : V2AssistantContent :=
  match (value.get "content").bind Json.asArray with
  | some items => items.zipIdx.foldl (V2AssistantContent.push crates) {}
  | none => {}

structure V2PendingRecord where
  eventId : String
  ts : Nat
  role : String
  text : String
  toolName : Option String := none
  toolInput : Option String := none
  toolOutput : Option String := none

/-- The pending records of one row. A row with an invalid timestamp, of another
kind or without JSON gives none. -/
def pendingRecords (row : SessionMessageRow) : List V2PendingRecord :=
  if row.kind = "user" ∨ row.kind = "system" then
    match nonnegativeTimestamp row.timeCreated, row.data with
    | some ts, some value =>
        match value.getNonEmpty "text" with
        | some text => [{ eventId := row.id, ts, role := row.kind, text }]
        | none => []
    | _, _ => []
  else if row.kind = "assistant" then
    match nonnegativeTimestamp row.timeCreated, row.data with
    | some ts, some value =>
        let content := v2AssistantContent crates value
        let text := "\n".intercalate content.textParts
        let prose : List V2PendingRecord :=
          if text = "" then [] else [{ eventId := row.id, ts, role := "assistant", text }]
        prose ++ content.tools.map fun tool =>
          { eventId := row.id ++ ":tool:" ++ tool.identity
            ts
            role := "assistant"
            text := ""
            toolName := tool.toolName
            toolInput := tool.toolInput
            toolOutput := tool.toolOutput }
    | _, _ => []
  else []

/-- `emit_v2_record` for one record after the other. -/
def emitV2Records (path sessionId : String) (links : SessionLinks) :
    List V2PendingRecord → Nat → List Record
  | [], _ => []
  | pending :: rest, turnId =>
      { source := .opencode
        ts := pending.ts
        project := "opencode"
        sessionId
        turnId
        role := pending.role
        text := pending.text
        toolName := pending.toolName
        toolInput := pending.toolInput
        toolOutput := pending.toolOutput
        links := { links.recordLinks with eventId := some pending.eventId }
        sourcePath := path } ::
      emitV2Records path sessionId links rest (nextTurn turnId)

/-- The rows of one session in the order of their sequence numbers. -/
def projectedRows (rows : List SessionMessageRow) (sessionId : String) :
    List SessionMessageRow :=
  (rows.filter fun row => row.sessionId = sessionId).insertionSort fun left right =>
    left.seq ≤ right.seq

/-- `parse_session_records_v2`: the projection alone makes the records of a
session, in the order of their timestamps. -/
def parseSessionRecordsV2 (database : Database) (path sessionId : String) :
    Option (List Record) :=
  match database.v2SessionTable.read with
  | none => none
  | some sessions =>
      match sessions.find? fun session => session.id = sessionId with
      | none => some []
      | some session =>
          database.sessionMessage.read.map fun rows =>
            let pending := ((projectedRows rows sessionId).flatMap
              (pendingRecords crates)).insertionSort fun left right => left.ts ≤ right.ts
            emitV2Records path sessionId (sessionLinks session.parentId) pending 0

end V2

/-! ## Planning -/

/-- `query_sessions`: the rows by id; one invalid timestamp fails the query. -/
def querySessions (table : SqlTable SessionRow) : Option (List Ingest.OpencodeSession) :=
  table.read.bind fun rows =>
    (rows.insertionSort fun left right => left.id ≤ right.id).mapM fun row =>
      row.timestamps.map fun _ => { id := row.id, directory := row.directory }

/-- The event of the highest rowid. -/
def newestEvent : List EventRow → Option EventRow
  | [] => none
  | row :: rest =>
      match newestEvent rest with
      | some other => some (if other.rowid < row.rowid then row else other)
      | none => some row

/-- The largest of some numbers, zero for none. -/
def largest : List Int → Int
  | [] => 0
  | [value] => value
  | value :: rest => if largest rest < value then value else largest rest

/-- The row of one session in the cursor query. -/
def groupedCursor (rows : List SessionMessageRow) (sessionId : String) :
    OpencodeSessionCursor :=
  let group := rows.filter fun row => row.sessionId = sessionId
  { maxSeq := largest (group.map SessionMessageRow.seq)
    maxTimeUpdated := largest (group.map SessionMessageRow.timeUpdated)
    rowCount := group.length }

/-- Enter the durable sequence of a session; a negative one is refused. -/
def enterSequence (cursors : Overlay.Table String OpencodeSessionCursor)
    (row : EventSequenceRow) : Option (Overlay.Table String OpencodeSessionCursor) :=
  if row.seq < 0 then none
  else
    some (cursors.insert row.aggregateId
      { (cursors.lookup row.aggregateId).getD {} with eventSequence := some row.seq })

/-- `current_session_cursors`: marks of every session with projected messages or
with a durable sequence. -/
def currentSessionCursors (database : Database) :
    Option (Overlay.Table String OpencodeSessionCursor) :=
  match database.sessionMessage.read with
  | none => none
  | some rows =>
      let ids := (rows.map SessionMessageRow.sessionId).dedup
      if ids.any fun id => (groupedCursor rows id).maxSeq < 0 ||
          (groupedCursor rows id).maxTimeUpdated < 0 then none
      else
        let cursors := Overlay.insertAll (groupedCursor rows) ids ∅
        if database.eventSequence.isPresent then
          database.eventSequence.read.bind fun sequences => sequences.foldlM enterSequence cursors
        else some cursors

/-- `DATABASE_STATE_VERSION`. -/
def databaseStateVersion : Nat := 4

/-- Whether the stored event cursor still belongs to this event log. -/
def cursorIsValid (events : List EventRow) (previous : OpencodeDatabaseState) : Bool :=
  let cursorRowid := ((newestEvent events).map EventRow.rowid).getD 0
  previous.parserVersion = databaseStateVersion && decide (0 ≤ previous.eventRowid) &&
    decide (previous.eventRowid ≤ cursorRowid) &&
    (if previous.eventRowid = 0 ∧ previous.eventId = none then true
    else if 0 < previous.eventRowid then
      match events.find? fun event => event.rowid = previous.eventRowid with
      | some event => some event.id = previous.eventId
      | none => false
    else false)

/-- Sessions of the events behind the stored cursor. -/
def eventDelta (events : List EventRow) (previous : OpencodeDatabaseState) : Finset String :=
  ((events.filter fun event => previous.eventRowid < event.rowid).filterMap
    EventRow.aggregateId).toFinset

/-- The changed sessions of a v1 database: everything when the cursor is not
valid, else new sessions and those of later events. -/
def dirtySessionsV1 (events : List EventRow) (current : Finset String)
    (previous : Option OpencodeDatabaseState) : Finset String :=
  match previous with
  | none => current
  | some previous =>
      if cursorIsValid events previous then
        (current \ previous.ownedSessionIds) ∪ (eventDelta events previous ∩ current)
      else current

/-- The changed sessions of a v2 database: new sessions and those whose marks
differ from the stored ones. -/
def dirtySessionsV2 (cursors : Overlay.Table String OpencodeSessionCursor)
    (current : Finset String) (previous : Option OpencodeDatabaseState) : Finset String :=
  match previous with
  | none => current
  | some previous =>
      if previous.parserVersion = databaseStateVersion then
        current.filter fun id => id ∉ previous.ownedSessionIds ∨
          previous.sessionCursors.lookup id ≠ cursors.lookup id
      else current

/-- `scan_database`: plan the hydration of a database from one snapshot of its
inventory and its marks. -/
def scanDatabase (database : Database) (previous : Option OpencodeDatabaseState) :
    Option Ingest.DatabaseScan :=
  if database.hasV2Schema then
    (querySessions database.v2SessionTable).bind fun sessions =>
      (currentSessionCursors database).map fun cursors =>
        { dirtySessionIds :=
            dirtySessionsV2 cursors (sessions.map Ingest.OpencodeSession.id).toFinset previous
          sessions
          sessionCursors := cursors
          v2 := true }
  else if database.requireModernSchema && database.requireEventSchema then
    (querySessions database.session).bind fun sessions =>
      database.event.read.map fun events =>
        { eventRowid := ((newestEvent events).map EventRow.rowid).getD 0
          eventId := (newestEvent events).map EventRow.id
          dirtySessionIds :=
            dirtySessionsV1 events (sessions.map Ingest.OpencodeSession.id).toFinset previous
          sessions }
  else none

/-- `removed_session_ids` of a plan: owned sessions that left the inventory. -/
def removedSessionIds (scan : Ingest.DatabaseScan) (previous : Option OpencodeDatabaseState) :
    Finset String :=
  (previous.map OpencodeDatabaseState.ownedSessionIds).getD ∅ \
    (scan.sessions.map Ingest.OpencodeSession.id).toFinset

/-- `v2_session_ids` of a plan: the whole inventory of a v2 database. -/
def v2SessionIds (scan : Ingest.DatabaseScan) : Finset String :=
  if scan.v2 then (scan.sessions.map Ingest.OpencodeSession.id).toFinset else ∅

section Dirty

variable {database : Database} {previous : Option OpencodeDatabaseState}
  {scan : Ingest.DatabaseScan} {id : String}

theorem mem_dirtySessionsV1_of_new {events : List EventRow} {current : Finset String}
    (hid : id ∈ current)
    (hnew : id ∉ (previous.map OpencodeDatabaseState.ownedSessionIds).getD ∅) :
    id ∈ dirtySessionsV1 events current previous := by
  cases previous with
  | none => exact hid
  | some previous =>
      rw [dirtySessionsV1]
      split
      · exact Finset.mem_union_left _ (Finset.mem_sdiff.mpr ⟨hid, hnew⟩)
      · exact hid

theorem mem_dirtySessionsV2_of_new {cursors : Overlay.Table String OpencodeSessionCursor}
    {current : Finset String} (hid : id ∈ current)
    (hnew : id ∉ (previous.map OpencodeDatabaseState.ownedSessionIds).getD ∅) :
    id ∈ dirtySessionsV2 cursors current previous := by
  cases previous with
  | none => exact hid
  | some previous =>
      rw [dirtySessionsV2]
      split
      · exact Finset.mem_filter.mpr ⟨hid, .inl hnew⟩
      · exact hid

/-- A listed session that the stored state does not own is read. -/
theorem mem_dirtySessionIds_of_new (h : scanDatabase database previous = some scan)
    (hid : id ∈ scan.sessions.map Ingest.OpencodeSession.id)
    (hnew : id ∉ (previous.map OpencodeDatabaseState.ownedSessionIds).getD ∅) :
    id ∈ scan.dirtySessionIds := by
  rw [scanDatabase] at h
  split at h
  · obtain ⟨sessions, -, h⟩ := Option.bind_eq_some_iff.mp h
    obtain ⟨cursors, -, rfl⟩ := Option.map_eq_some_iff.mp h
    exact mem_dirtySessionsV2_of_new (List.mem_toFinset.mpr hid) hnew
  · split at h
    · obtain ⟨sessions, -, h⟩ := Option.bind_eq_some_iff.mp h
      obtain ⟨events, -, rfl⟩ := Option.map_eq_some_iff.mp h
      exact mem_dirtySessionsV1_of_new (List.mem_toFinset.mpr hid) hnew
    · cases h

/-- The projection holds no message of the session and no durable sequence. -/
def Unmarked (database : Database) (id : String) : Prop :=
  (∀ row ∈ (database.sessionMessage.read).getD [], row.sessionId ≠ id) ∧
    ∀ row ∈ (database.eventSequence.read).getD [], row.aggregateId ≠ id

theorem lookup_foldlM_enterSequence {sequences : List EventSequenceRow}
    {cursors result : Overlay.Table String OpencodeSessionCursor}
    (h : sequences.foldlM enterSequence cursors = some result) :
    result.lookup id = none ↔
      cursors.lookup id = none ∧ ∀ row ∈ sequences, row.aggregateId ≠ id := by
  induction sequences generalizing cursors with
  | nil =>
      cases h
      simp
  | cons row rest ih =>
      rw [List.foldlM_cons, Option.bind_eq_bind, Option.bind_eq_some_iff] at h
      obtain ⟨entered, hentered, hrest⟩ := h
      rw [ih hrest]
      rw [enterSequence] at hentered
      split at hentered
      · cases hentered
      · cases hentered
        rw [Overlay.lookup_insert_ite, List.forall_mem_cons]
        by_cases hid : id = row.aggregateId
        · rw [if_pos hid]
          simp [hid]
        · rw [if_neg hid]
          simp [Ne.symm hid]

/-- A session has marks unless it has neither messages nor a sequence. -/
theorem lookup_currentSessionCursors {cursors : Overlay.Table String OpencodeSessionCursor}
    (h : currentSessionCursors database = some cursors) :
    cursors.lookup id = none ↔ Unmarked database id := by
  rw [currentSessionCursors] at h
  split at h
  · cases h
  · rename_i rows hrows
    dsimp only at h
    split at h
    · cases h
    · have hgrouped : (Overlay.insertAll (groupedCursor rows)
          (rows.map SessionMessageRow.sessionId).dedup ∅).lookup id = none ↔
            ∀ row ∈ rows, row.sessionId ≠ id := by
        rw [Overlay.lookup_insertAll]
        simp
      rw [Unmarked, hrows, Option.getD_some]
      split at h
      · obtain ⟨sequences, hsequences, h⟩ := Option.bind_eq_some_iff.mp h
        rw [lookup_foldlM_enterSequence h, hgrouped, hsequences, Option.getD_some]
      · rename_i habsent
        cases h
        have hnone : database.eventSequence.read = none := by
          cases hsequence : database.eventSequence with
          | absent => rfl
          | mismatched => rfl
          | holding sequences =>
              rw [hsequence] at habsent
              exact absurd rfl habsent
        rw [hgrouped, hnone]
        simp

/-- A session without projected messages has no records. -/
theorem parseSessionRecordsV2_of_unmarked {crates : Crates} {path : String}
    (h : scanDatabase database previous = some scan) (hv2 : database.hasV2Schema = true)
    (hid : Unmarked database id) : parseSessionRecordsV2 crates database path id = some [] := by
  rw [scanDatabase, if_pos hv2] at h
  obtain ⟨sessions, hsessions, h⟩ := Option.bind_eq_some_iff.mp h
  obtain ⟨cursors, hcursors, -⟩ := Option.map_eq_some_iff.mp h
  obtain ⟨table, htable, -⟩ := Option.bind_eq_some_iff.mp hsessions
  rw [parseSessionRecordsV2, htable]
  dsimp only
  split
  · rfl
  · cases hrows : database.sessionMessage.read with
    | none =>
        rw [currentSessionCursors, hrows] at hcursors
        cases hcursors
    | some rows =>
        have hnone : rows.filter (fun row => row.sessionId = id) = [] := by
          refine List.filter_eq_nil_iff.mpr fun row hrow hcase => ?_
          refine hid.1 row ?_ (of_decide_eq_true hcase)
          rw [hrows]
          exact hrow
        rw [Option.map_some, projectedRows, hnone]
        rfl

end Dirty

end Memex.Sources.Opencode
