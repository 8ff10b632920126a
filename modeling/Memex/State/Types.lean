import Memex.Lib.Overlay

/-! # Durable checkpoint records

The records of `state.rs`: one row per ingested source path, the pending
publication intent, the OpenCode database cursors and the scan cache. -/

namespace Memex.State

open Overlay

/-- Write-ahead-log identity of a SQLite source. -/
structure SqliteWalIdentity where
  «exists» : Bool
  size : Nat
  modifiedNs : Option Int
  deriving DecidableEq, Repr

/-- What identifies one incarnation of a source file. -/
structure FileIdentity where
  bobDatabase : Option String := none
  sqliteWal : Option SqliteWalIdentity := none
  device : Option Nat := none
  inode : Option Nat := none
  prefixSha256 : Option String := none
  prefixBytes : Nat := 0
  modifiedNs : Option Int := none
  changedNs : Option Int := none
  deriving DecidableEq, Repr, Inhabited

/-- A tool call whose result has not been read yet. -/
structure PendingToolCall where
  toolName : Option String := none
  toolUseEventId : Option String := none
  toolUseDocId : Option Nat := none
  timestamp : Nat := 0
  argumentSha256 : Option String := none
  argumentBytes : Option Nat := none
  parentEventId : Option String := none
  sessionId : Option String := none
  sourceToolUseId : Option String := none
  sourceToolAssistantUuid : Option String := none
  deriving DecidableEq, Repr, Inhabited

/-- The checkpoint row of one source path. -/
structure FileState where
  size : Nat
  mtime : Int
  offset : Nat
  turnId : Nat
  legacyTurnId : Option Nat := none
  parserVersion : Nat := 0
  pendingToolCalls : Table String PendingToolCall := ∅
  identity : FileIdentity := {}
  claudeBackground : Option Bool := none
  codexMetadataOffsets : Option (List Nat) := none
  deriving DecidableEq

/-- Totals of the last scan, trusted for a short time. -/
structure ScanCache where
  lastScanTs : Nat := 0
  fileCount : Nat := 0
  totalBytes : Nat := 0
  deriving DecidableEq, Repr, Inhabited

/-- Per-session high-water mark of an OpenCode message table. -/
structure OpencodeSessionCursor where
  maxSeq : Int := 0
  maxTimeUpdated : Int := 0
  rowCount : Int := 0
  eventSequence : Option Int := none
  deriving DecidableEq, Repr, Inhabited

/-- The checkpoint of one OpenCode database. -/
structure OpencodeDatabaseState where
  parserVersion : Nat := 0
  eventRowid : Int := 0
  eventId : Option String := none
  ownedSessionIds : Finset String := ∅
  sessionCursors : Table String OpencodeSessionCursor := ∅
  deriving DecidableEq

/-- A precise source and session target for replacement and deletion. -/
@[ext]
structure SessionScope where
  sourcePath : String
  sessionId : String
  deriving DecidableEq, Repr, Inhabited

/-- Durable intent of a batch that may have crossed a publication boundary. Its
lists are read as sets: they are only searched and iterated. -/
structure PendingIngest where
  nextDocId : Nat
  sourcePaths : Finset String := ∅
  vectorDeletePaths : Finset String := ∅
  sessionScopes : Finset SessionScope := ∅
  vectorPublication : Bool := false
  embeddingPublication : Option Bool := none
  deriving DecidableEq

end Memex.State
