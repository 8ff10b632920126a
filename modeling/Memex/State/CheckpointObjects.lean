import Memex.State.ObjectCodec

/-! # Objects of the checkpoint store

How the records of `state.rs` are written as JSON objects, field by field, with what serde leaves
out and what it takes for an absent field. -/

namespace Memex.State

open Sources Overlay

/-! ### What identifies a source file -/

theorem optional_string (text : Option String) :
    Codec.string.optional (text.map Codec.string.toValue) = some text :=
  ValueCodec.optional_map fun _ _ => trivial

theorem required_string (text : String) :
    Codec.string.required (some (Codec.string.toValue text)) = some text :=
  rfl

theorem required_bool (value : Bool) :
    Codec.bool.required (some (Codec.bool.toValue value)) = some value :=
  rfl

structure SqliteWalIdentity.Fits (identity : SqliteWalIdentity) : Prop where
  size : Codec.u64.Fits identity.size
  modifiedNs : ∀ time ∈ identity.modifiedNs, Codec.i64.Fits time

def sqliteWalSlot (identity : SqliteWalIdentity) : String → Option Json
  | "exists" => some (Codec.bool.toValue identity.exists)
  | "size" => some (Codec.u64.toValue identity.size)
  | "modified_ns" => some (Codec.i64.nullable identity.modifiedNs)
  | _ => none

def sqliteWalFields (found : String → Option Json) : Option SqliteWalIdentity := do
  let present ← Codec.bool.required (found "exists")
  let size ← Codec.u64.required (found "size")
  let modifiedNs ← Codec.i64.optional (found "modified_ns")
  some ⟨present, size, modifiedNs⟩

def sqliteWalObject : ObjectCodec SqliteWalIdentity where
  fields := ["exists", "size", "modified_ns"]
  leading := 3
  slot := sqliteWalSlot
  ofFields := sqliteWalFields
  Fits := SqliteWalIdentity.Fits
  ofFields_slot identity found hfits h := by
    simp only [List.forall_mem_cons] at h
    obtain ⟨hexists, hsize, hmodified, _⟩ := h
    simp [sqliteWalFields, hexists, hsize, hmodified, sqliteWalSlot,
      required_bool,
      ValueCodec.required_toValue hfits.size, ValueCodec.optional_nullable hfits.modifiedNs]

structure FileIdentity.Fits (identity : FileIdentity) : Prop where
  sqliteWal : ∀ wal ∈ identity.sqliteWal, sqliteWalObject.asValue.Fits wal
  device : ∀ number ∈ identity.device, Codec.u64.Fits number
  inode : ∀ number ∈ identity.inode, Codec.u64.Fits number
  prefixBytes : Codec.u64.Fits identity.prefixBytes
  modifiedNs : ∀ time ∈ identity.modifiedNs, Codec.i64.Fits time
  changedNs : ∀ time ∈ identity.changedNs, Codec.i64.Fits time

def fileIdentitySlot (identity : FileIdentity) : String → Option Json
  | "bob_database" => identity.bobDatabase.map Codec.string.toValue
  | "sqlite_wal" => identity.sqliteWal.map sqliteWalObject.asValue.toValue
  | "device" => identity.device.map Codec.u64.toValue
  | "inode" => identity.inode.map Codec.u64.toValue
  | "prefix_sha256" => identity.prefixSha256.map Codec.string.toValue
  | "prefix_bytes" => some (Codec.u64.toValue identity.prefixBytes)
  | "modified_ns" => identity.modifiedNs.map Codec.i64.toValue
  | "changed_ns" => identity.changedNs.map Codec.i64.toValue
  | _ => none

def fileIdentityFields (found : String → Option Json) : Option FileIdentity := do
  let bobDatabase ← Codec.string.optional (found "bob_database")
  let sqliteWal ← sqliteWalObject.asValue.optional (found "sqlite_wal")
  let device ← Codec.u64.optional (found "device")
  let inode ← Codec.u64.optional (found "inode")
  let prefixSha256 ← Codec.string.optional (found "prefix_sha256")
  let prefixBytes ← Codec.u64.defaulted 0 (found "prefix_bytes")
  let modifiedNs ← Codec.i64.optional (found "modified_ns")
  let changedNs ← Codec.i64.optional (found "changed_ns")
  some ⟨bobDatabase, sqliteWal, device, inode, prefixSha256, prefixBytes, modifiedNs, changedNs⟩

def fileIdentityObject : ObjectCodec FileIdentity where
  fields := ["bob_database", "sqlite_wal", "device", "inode", "prefix_sha256", "prefix_bytes",
    "modified_ns", "changed_ns"]
  leading := 0
  slot := fileIdentitySlot
  ofFields := fileIdentityFields
  Fits := FileIdentity.Fits
  ofFields_slot identity found hfits h := by
    simp only [List.forall_mem_cons] at h
    obtain ⟨hbob, hwal, hdevice, hinode, hsha, hbytes, hmodified, hchanged, _⟩ := h
    simp [fileIdentityFields, hbob, hwal, hdevice, hinode, hsha, hbytes, hmodified, hchanged,
      fileIdentitySlot, optional_string, ValueCodec.optional_map hfits.sqliteWal,
      ValueCodec.optional_map hfits.device, ValueCodec.optional_map hfits.inode,
      ValueCodec.defaulted_toValue hfits.prefixBytes, ValueCodec.optional_map hfits.modifiedNs,
      ValueCodec.optional_map hfits.changedNs]

/-! ### Rows of source files -/

structure PendingToolCall.Fits (call : PendingToolCall) : Prop where
  toolUseDocId : ∀ id ∈ call.toolUseDocId, Codec.u64.Fits id
  timestamp : Codec.u64.Fits call.timestamp
  argumentBytes : ∀ bytes ∈ call.argumentBytes, Codec.u64.Fits bytes

def pendingToolCallSlot (call : PendingToolCall) : String → Option Json
  | "tool_name" => call.toolName.map Codec.string.toValue
  | "tool_use_event_id" => call.toolUseEventId.map Codec.string.toValue
  | "tool_use_doc_id" => call.toolUseDocId.map Codec.u64.toValue
  | "timestamp" => some (Codec.u64.toValue call.timestamp)
  | "argument_sha256" => call.argumentSha256.map Codec.string.toValue
  | "argument_bytes" => call.argumentBytes.map Codec.u64.toValue
  | "parent_event_id" => call.parentEventId.map Codec.string.toValue
  | "session_id" => call.sessionId.map Codec.string.toValue
  | "source_tool_use_id" => call.sourceToolUseId.map Codec.string.toValue
  | "source_tool_assistant_uuid" => call.sourceToolAssistantUuid.map Codec.string.toValue
  | _ => none

def pendingToolCallFields (found : String → Option Json) : Option PendingToolCall := do
  let toolName ← Codec.string.optional (found "tool_name")
  let toolUseEventId ← Codec.string.optional (found "tool_use_event_id")
  let toolUseDocId ← Codec.u64.optional (found "tool_use_doc_id")
  let timestamp ← Codec.u64.defaulted 0 (found "timestamp")
  let argumentSha256 ← Codec.string.optional (found "argument_sha256")
  let argumentBytes ← Codec.u64.optional (found "argument_bytes")
  let parentEventId ← Codec.string.optional (found "parent_event_id")
  let sessionId ← Codec.string.optional (found "session_id")
  let sourceToolUseId ← Codec.string.optional (found "source_tool_use_id")
  let sourceToolAssistantUuid ← Codec.string.optional (found "source_tool_assistant_uuid")
  some ⟨toolName, toolUseEventId, toolUseDocId, timestamp, argumentSha256, argumentBytes,
    parentEventId, sessionId, sourceToolUseId, sourceToolAssistantUuid⟩

def pendingToolCallObject : ObjectCodec PendingToolCall where
  fields := ["tool_name", "tool_use_event_id", "tool_use_doc_id", "timestamp", "argument_sha256",
    "argument_bytes", "parent_event_id", "session_id", "source_tool_use_id",
    "source_tool_assistant_uuid"]
  leading := 0
  slot := pendingToolCallSlot
  ofFields := pendingToolCallFields
  Fits := PendingToolCall.Fits
  ofFields_slot call found hfits h := by
    simp only [List.forall_mem_cons] at h
    obtain ⟨hname, hevent, hdoc, htime, hsha, hbytes, hparent, hsession, huse, huuid, _⟩ := h
    simp [pendingToolCallFields, hname, hevent, hdoc, htime, hsha, hbytes, hparent, hsession, huse,
      huuid, pendingToolCallSlot, optional_string, ValueCodec.optional_map hfits.toolUseDocId,
      ValueCodec.defaulted_toValue hfits.timestamp, ValueCodec.optional_map hfits.argumentBytes]

structure FileState.Fits (file : FileState) : Prop where
  size : Codec.u64.Fits file.size
  mtime : Codec.i64.Fits file.mtime
  offset : Codec.u64.Fits file.offset
  turnId : Codec.u32.Fits file.turnId
  legacyTurnId : ∀ turn ∈ file.legacyTurnId, Codec.u32.Fits turn
  parserVersion : Codec.u32.Fits file.parserVersion
  pendingToolCalls : (Codec.table pendingToolCallObject.asValue).Fits file.pendingToolCalls
  identity : fileIdentityObject.asValue.Fits file.identity
  codexMetadataOffsets : ∀ offsets ∈ file.codexMetadataOffsets,
    (Codec.list Codec.u64).Fits offsets

def fileStateSlot (file : FileState) : String → Option Json
  | "size" => some (Codec.u64.toValue file.size)
  | "mtime" => some (Codec.i64.toValue file.mtime)
  | "offset" => some (Codec.u64.toValue file.offset)
  | "turn_id" => some (Codec.u32.toValue file.turnId)
  | "legacy_turn_id" => file.legacyTurnId.map Codec.u32.toValue
  | "parser_version" => some (Codec.u32.toValue file.parserVersion)
  | "pending_tool_calls" =>
      some ((Codec.table pendingToolCallObject.asValue).toValue file.pendingToolCalls)
  | "identity" => some (fileIdentityObject.asValue.toValue file.identity)
  | "claude_background" => file.claudeBackground.map Codec.bool.toValue
  | "codex_metadata_offsets" =>
      file.codexMetadataOffsets.map (Codec.list Codec.u64).toValue
  | _ => none

def fileStateFields (found : String → Option Json) : Option FileState := do
  let size ← Codec.u64.required (found "size")
  let mtime ← Codec.i64.required (found "mtime")
  let offset ← Codec.u64.required (found "offset")
  let turnId ← Codec.u32.required (found "turn_id")
  let legacyTurnId ← Codec.u32.optional (found "legacy_turn_id")
  let parserVersion ← Codec.u32.defaulted 0 (found "parser_version")
  let pendingToolCalls ← (Codec.table pendingToolCallObject.asValue).defaulted ∅
    (found "pending_tool_calls")
  let identity ← fileIdentityObject.asValue.defaulted {} (found "identity")
  let claudeBackground ← Codec.bool.optional (found "claude_background")
  let codexMetadataOffsets ← (Codec.list Codec.u64).optional (found "codex_metadata_offsets")
  some ⟨size, mtime, offset, turnId, legacyTurnId, parserVersion, pendingToolCalls, identity,
    claudeBackground, codexMetadataOffsets⟩

def fileStateNames : List String :=
  ["size", "mtime", "offset", "turn_id", "legacy_turn_id", "parser_version",
    "pending_tool_calls", "identity", "claude_background", "codex_metadata_offsets"]

/-- The two members that hold objects of their own may have more in them than the row writes. -/
theorem fileStateFields_eq {file : FileState} {found : String → Option Json}
    (hfits : file.Fits)
    (h : ∀ name ∈ fileStateNames, name ≠ "identity" → name ≠ "pending_tool_calls" →
      found name = fileStateSlot file name)
    (hidentity : fileIdentityObject.asValue.defaulted {} (found "identity") = some file.identity)
    (hcalls : (Codec.table pendingToolCallObject.asValue).defaulted ∅
      (found "pending_tool_calls") = some file.pendingToolCalls) :
    fileStateFields found = some file := by
  simp only [fileStateNames, List.forall_mem_cons] at h
  obtain ⟨hsize, hmtime, hoffset, hturn, hlegacy, hparser, _, _, hbackground, hcodex, _⟩ := h
  have hflag : Codec.bool.optional (file.claudeBackground.map Codec.bool.toValue) =
      some file.claudeBackground := ValueCodec.optional_map fun _ _ => trivial
  simp [fileStateFields, hsize, hmtime, hoffset, hturn, hlegacy, hparser, hbackground, hcodex,
    fileStateSlot, hidentity, hcalls, hflag, ValueCodec.required_toValue hfits.size,
    ValueCodec.required_toValue hfits.mtime, ValueCodec.required_toValue hfits.offset,
    ValueCodec.required_toValue hfits.turnId, ValueCodec.optional_map hfits.legacyTurnId,
    ValueCodec.defaulted_toValue hfits.parserVersion,
    ValueCodec.optional_map hfits.codexMetadataOffsets]

def fileStateObject : ObjectCodec FileState where
  fields := fileStateNames
  leading := 4
  slot := fileStateSlot
  ofFields := fileStateFields
  Fits := FileState.Fits
  ofFields_slot file found hfits h := by
    apply fileStateFields_eq hfits fun name hname _ _ => h name hname
    · rw [h "identity" (by decide)]
      exact ValueCodec.defaulted_toValue hfits.identity
    · rw [h "pending_tool_calls" (by decide)]
      exact ValueCodec.defaulted_toValue hfits.pendingToolCalls

/-! ### OpenCode databases -/

structure OpencodeSessionCursor.Fits (cursor : OpencodeSessionCursor) : Prop where
  maxSeq : Codec.i64.Fits cursor.maxSeq
  maxTimeUpdated : Codec.i64.Fits cursor.maxTimeUpdated
  rowCount : Codec.i64.Fits cursor.rowCount
  eventSequence : ∀ sequence ∈ cursor.eventSequence, Codec.i64.Fits sequence

def sessionCursorSlot (cursor : OpencodeSessionCursor) : String → Option Json
  | "max_seq" => some (Codec.i64.toValue cursor.maxSeq)
  | "max_time_updated" => some (Codec.i64.toValue cursor.maxTimeUpdated)
  | "row_count" => some (Codec.i64.toValue cursor.rowCount)
  | "event_sequence" => some (Codec.i64.nullable cursor.eventSequence)
  | _ => none

def sessionCursorFields (found : String → Option Json) : Option OpencodeSessionCursor := do
  let maxSeq ← Codec.i64.required (found "max_seq")
  let maxTimeUpdated ← Codec.i64.required (found "max_time_updated")
  let rowCount ← Codec.i64.defaulted 0 (found "row_count")
  let eventSequence ← Codec.i64.optional (found "event_sequence")
  some ⟨maxSeq, maxTimeUpdated, rowCount, eventSequence⟩

def sessionCursorObject : ObjectCodec OpencodeSessionCursor where
  fields := ["max_seq", "max_time_updated", "row_count", "event_sequence"]
  leading := 2
  slot := sessionCursorSlot
  ofFields := sessionCursorFields
  Fits := OpencodeSessionCursor.Fits
  ofFields_slot cursor found hfits h := by
    simp only [List.forall_mem_cons] at h
    obtain ⟨hseq, htime, hcount, hevent, _⟩ := h
    simp [sessionCursorFields, hseq, htime, hcount, hevent, sessionCursorSlot,
      ValueCodec.required_toValue hfits.maxSeq, ValueCodec.required_toValue hfits.maxTimeUpdated,
      ValueCodec.defaulted_toValue hfits.rowCount,
      ValueCodec.optional_nullable hfits.eventSequence]

structure OpencodeDatabaseState.Fits (database : OpencodeDatabaseState) : Prop where
  parserVersion : Codec.u32.Fits database.parserVersion
  eventRowid : Codec.i64.Fits database.eventRowid
  sessionCursors : (Codec.table sessionCursorObject.asValue).Fits database.sessionCursors

def databaseSlot (database : OpencodeDatabaseState) : String → Option Json
  | "parser_version" => some (Codec.u32.toValue database.parserVersion)
  | "event_rowid" => some (Codec.i64.toValue database.eventRowid)
  | "event_id" => some (Codec.string.nullable database.eventId)
  | "owned_session_ids" => some (Codec.stringSet.toValue database.ownedSessionIds)
  | "session_cursors" =>
      if database.sessionCursors = ∅ then none
      else some ((Codec.table sessionCursorObject.asValue).toValue database.sessionCursors)
  | _ => none

def databaseFields (found : String → Option Json) : Option OpencodeDatabaseState := do
  let parserVersion ← Codec.u32.required (found "parser_version")
  let eventRowid ← Codec.i64.required (found "event_rowid")
  let eventId ← Codec.string.optional (found "event_id")
  let ownedSessionIds ← Codec.stringSet.required (found "owned_session_ids")
  let sessionCursors ← (Codec.table sessionCursorObject.asValue).defaulted ∅
    (found "session_cursors")
  some ⟨parserVersion, eventRowid, eventId, ownedSessionIds, sessionCursors⟩

def databaseObject : ObjectCodec OpencodeDatabaseState where
  fields := ["parser_version", "event_rowid", "event_id", "owned_session_ids", "session_cursors"]
  leading := 4
  slot := databaseSlot
  ofFields := databaseFields
  Fits := OpencodeDatabaseState.Fits
  ofFields_slot database found hfits h := by
    simp only [List.forall_mem_cons] at h
    obtain ⟨hparser, hrowid, hid, howned, hcursors, _⟩ := h
    have hevent : Codec.string.optional (some (Codec.string.nullable database.eventId)) =
        some database.eventId := ValueCodec.optional_nullable fun _ _ => trivial
    have hsessions : Codec.stringSet.required
        (some (Codec.stringSet.toValue database.ownedSessionIds)) =
          some database.ownedSessionIds :=
      Codec.stringSet.fromValue_toValue database.ownedSessionIds trivial
    have htable : (Codec.table sessionCursorObject.asValue).defaulted ∅
        (found "session_cursors") = some database.sessionCursors := by
      rw [hcursors]
      simp only [databaseSlot]
      split
      · rename_i hempty
        exact congrArg some hempty.symm
      · exact ValueCodec.defaulted_toValue hfits.sessionCursors
    simp [databaseFields, hparser, hrowid, hid, howned, htable, databaseSlot, hevent, hsessions,
      ValueCodec.required_toValue hfits.parserVersion,
      ValueCodec.required_toValue hfits.eventRowid]

/-! ### The pending intent -/

def sessionScopeSlot (scope : SessionScope) : String → Option Json
  | "source_path" => some (Codec.string.toValue scope.sourcePath)
  | "session_id" => some (Codec.string.toValue scope.sessionId)
  | _ => none

def sessionScopeFields (found : String → Option Json) : Option SessionScope := do
  let sourcePath ← Codec.string.required (found "source_path")
  let sessionId ← Codec.string.required (found "session_id")
  some ⟨sourcePath, sessionId⟩

def sessionScopeObject : ObjectCodec SessionScope where
  fields := ["source_path", "session_id"]
  leading := 2
  slot := sessionScopeSlot
  ofFields := sessionScopeFields
  Fits _ := True
  ofFields_slot scope found _ h := by
    simp only [List.forall_mem_cons] at h
    obtain ⟨hpath, hsession, _⟩ := h
    simp [sessionScopeFields, hpath, hsession, sessionScopeSlot, required_string]

/-- `PendingIngest` with its lists in their order. -/
structure PendingIntent where
  nextDocId : Nat
  sourcePaths : List String
  vectorDeletePaths : List String := []
  sessionScopes : List SessionScope := []
  vectorPublication : Bool := false
  embeddingPublication : Option Bool := none
  deriving DecidableEq, Repr

structure PendingIntent.Fits (pending : PendingIntent) : Prop where
  nextDocId : Codec.u64.Fits pending.nextDocId

def pendingSlot (pending : PendingIntent) : String → Option Json
  | "next_doc_id" => some (Codec.u64.toValue pending.nextDocId)
  | "source_paths" => some ((Codec.list Codec.string).toValue pending.sourcePaths)
  | "vector_delete_paths" => some ((Codec.list Codec.string).toValue pending.vectorDeletePaths)
  | "session_scopes" =>
      some ((Codec.list sessionScopeObject.asValue).toValue pending.sessionScopes)
  | "vector_publication" => some (Codec.bool.toValue pending.vectorPublication)
  | "embedding_publication" => pending.embeddingPublication.map Codec.bool.toValue
  | _ => none

def pendingFields (found : String → Option Json) : Option PendingIntent := do
  let nextDocId ← Codec.u64.required (found "next_doc_id")
  let sourcePaths ← (Codec.list Codec.string).required (found "source_paths")
  let vectorDeletePaths ← (Codec.list Codec.string).defaulted [] (found "vector_delete_paths")
  let sessionScopes ← (Codec.list sessionScopeObject.asValue).defaulted []
    (found "session_scopes")
  let vectorPublication ← Codec.bool.defaulted false (found "vector_publication")
  let embeddingPublication ← Codec.bool.optional (found "embedding_publication")
  some ⟨nextDocId, sourcePaths, vectorDeletePaths, sessionScopes, vectorPublication,
    embeddingPublication⟩

def pendingNames : List String :=
  ["next_doc_id", "source_paths", "vector_delete_paths", "session_scopes", "vector_publication",
    "embedding_publication"]

/-- The scopes may have more in them than the intent writes. -/
theorem pendingFields_eq {pending : PendingIntent} {found : String → Option Json}
    (hfits : pending.Fits)
    (h : ∀ name ∈ pendingNames, name ≠ "session_scopes" → found name = pendingSlot pending name)
    (hscopes : (Codec.list sessionScopeObject.asValue).defaulted [] (found "session_scopes") =
      some pending.sessionScopes) :
    pendingFields found = some pending := by
  simp only [pendingNames, List.forall_mem_cons] at h
  obtain ⟨hnext, hsources, hvectors, _, hpublication, hembedding, _⟩ := h
  have hpaths : (Codec.list Codec.string).required
      (some ((Codec.list Codec.string).toValue pending.sourcePaths)) =
        some pending.sourcePaths := ValueCodec.required_toValue fun _ _ => trivial
  have hdeletes : (Codec.list Codec.string).defaulted []
      (some ((Codec.list Codec.string).toValue pending.vectorDeletePaths)) =
        some pending.vectorDeletePaths := ValueCodec.defaulted_toValue fun _ _ => trivial
  have hflag : Codec.bool.defaulted false (some (Codec.bool.toValue pending.vectorPublication)) =
      some pending.vectorPublication := rfl
  have hoption : Codec.bool.optional (pending.embeddingPublication.map Codec.bool.toValue) =
      some pending.embeddingPublication := ValueCodec.optional_map fun _ _ => trivial
  simp [pendingFields, hnext, hsources, hvectors, hpublication, hembedding, hscopes, pendingSlot,
    hpaths, hdeletes, hflag, hoption, ValueCodec.required_toValue hfits.nextDocId]

def pendingObject : ObjectCodec PendingIntent where
  fields := pendingNames
  leading := 2
  slot := pendingSlot
  ofFields := pendingFields
  Fits := PendingIntent.Fits
  ofFields_slot pending found hfits h := by
    apply pendingFields_eq hfits fun name hname _ => h name hname
    rw [h "session_scopes" (by decide)]
    exact ValueCodec.defaulted_toValue fun _ _ => trivial

/-! ### The scan cache -/

structure ScanCache.Fits (cache : ScanCache) : Prop where
  lastScanTs : Codec.u64.Fits cache.lastScanTs
  fileCount : Codec.u64.Fits cache.fileCount
  totalBytes : Codec.u64.Fits cache.totalBytes

def scanCacheSlot (cache : ScanCache) : String → Option Json
  | "last_scan_ts" => some (Codec.u64.toValue cache.lastScanTs)
  | "file_count" => some (Codec.u64.toValue cache.fileCount)
  | "total_bytes" => some (Codec.u64.toValue cache.totalBytes)
  | _ => none

def scanCacheFields (found : String → Option Json) : Option ScanCache := do
  let lastScanTs ← Codec.u64.required (found "last_scan_ts")
  let fileCount ← Codec.u64.required (found "file_count")
  let totalBytes ← Codec.u64.required (found "total_bytes")
  some ⟨lastScanTs, fileCount, totalBytes⟩

def scanCacheObject : ObjectCodec ScanCache where
  fields := ["last_scan_ts", "file_count", "total_bytes"]
  leading := 3
  slot := scanCacheSlot
  ofFields := scanCacheFields
  Fits := ScanCache.Fits
  ofFields_slot cache found hfits h := by
    simp only [List.forall_mem_cons] at h
    obtain ⟨hlast, hcount, htotal, _⟩ := h
    simp [scanCacheFields, hlast, hcount, htotal, scanCacheSlot,
      ValueCodec.required_toValue hfits.lastScanTs, ValueCodec.required_toValue hfits.fileCount,
      ValueCodec.required_toValue hfits.totalBytes]

end Memex.State
