import Memex.Types
import Memex.State.Types

/-! # Refresh planning

`ingest/plan.rs`: how a file compares with its checkpoint row, which kind of
refresh the discovered work asks for, and which state an OpenCode database is
in when no outcome was recorded for it. -/

namespace Memex.Ingest

open State

inductive FileChange where
  | new
  | unchanged
  | append
  | replaced
  | parserChanged
  deriving DecidableEq, Repr, Inhabited

/-- Whether the file's indexed records are deleted before it is read again. -/
def FileChange.replacesRecords : FileChange → Bool
  | .replaced => true
  | .parserChanged => true
  | _ => false

/-- One file to parse, with the state to resume from. -/
structure FileTask where
  path : String
  source : SourceKind
  offset : Nat
  turnId : Nat
  legacyTurnId : Option Nat
  size : Nat
  mtime : Int
  change : FileChange
  pendingToolCalls : Overlay.Table String PendingToolCall
  identity : FileIdentity
  parserVersion : Nat
  codexMetadataOffsets : Option (List Nat)
  claudeBackground : Option Bool
  deriving DecidableEq

def FileTask.deleteFirst (task : FileTask) : Bool :=
  task.change.replacesRecords

def deleteFirstPaths (tasks : List FileTask) : Finset String :=
  ((tasks.filter FileTask.deleteFirst).map FileTask.path).toFinset

theorem mem_deleteFirstPaths {tasks : List FileTask} {path : String} :
    path ∈ deleteFirstPaths tasks ↔ ∃ task ∈ tasks, task.deleteFirst = true ∧ task.path = path := by
  simp [deleteFirstPaths, and_assoc]

theorem deleteFirstPaths_append (tasks others : List FileTask) :
    deleteFirstPaths (tasks ++ others) = deleteFirstPaths tasks ∪ deleteFirstPaths others := by
  unfold deleteFirstPaths
  rw [List.filter_append, List.map_append, List.toFinset_append]

def FileTask.parserVersionInvalidated (task : FileTask) : Bool :=
  task.change = .parserChanged

/-- Two present values that differ. -/
def bothDiffer {α : Type} [DecidableEq α] : Option α → Option α → Bool
  | some old, some new => old ≠ new
  | _, _ => false

/-- Evidence in device, inode or prefix digest that a file was replaced. -/
def fileWasReplaced (previous current : FileIdentity) : Bool :=
  let prefixMatches : Bool := match previous.prefixSha256, current.prefixSha256 with
    | some old, some new =>
        0 < previous.prefixBytes && previous.prefixBytes = current.prefixBytes && old = new
    | _, _ => false
  let prefixChanged : Bool := match previous.prefixSha256, current.prefixSha256 with
    | some old, some new => previous.prefixBytes = current.prefixBytes && old ≠ new
    | _, _ => false
  let identityChanged : Bool :=
    match previous.device, previous.inode, current.device, current.inode with
    | some oldDevice, some oldInode, some newDevice, some newInode =>
        oldInode ≠ newInode || (oldDevice ≠ newDevice && !prefixMatches)
    | _, _, _, _ => false
  identityChanged || prefixChanged

/-- Compare a file with its checkpoint row. -/
def classifyFile (source : SourceKind) (size : Nat) (mtime : Int) (identity : FileIdentity)
    (parserVersion : Nat) : Option FileState → FileChange
  | none => .new
  | some previous =>
      let tracksLegacyOrdinal : Bool := source = .claude || source = .codex
      if previous.parserVersion ≠ parserVersion ||
          (tracksLegacyOrdinal && 0 < previous.offset && previous.legacyTurnId = none) then
        .parserChanged
      else if size < previous.size || size < previous.offset || mtime < previous.mtime ||
          fileWasReplaced previous.identity identity ||
          previous.identity.sqliteWal ≠ identity.sqliteWal ||
          (size = previous.size &&
            (bothDiffer previous.identity.modifiedNs identity.modifiedNs ||
              bothDiffer previous.identity.changedNs identity.changedNs ||
              mtime ≠ previous.mtime)) then
        .replaced
      else if size = previous.size && mtime = previous.mtime then
        .unchanged
      -- a byte offset cannot resume mid-file for a store rewritten wholesale
      else if source = .jcode || source = .antigravity || source = .bob then
        .replaced
      else
        .append

inductive RefreshDecision where
  | unchanged
  | checkpointsOnly
  | publish
  deriving DecidableEq, Repr

structure RefreshFacts where
  sourceChanges : Bool
  vectorWork : Bool
  checkpointChanges : Bool

def decideRefresh (facts : RefreshFacts) : RefreshDecision :=
  if facts.sourceChanges || facts.vectorWork then .publish
  else if facts.checkpointChanges then .checkpointsOnly
  else .unchanged

inductive OpencodeDatabaseOutcome where
  | planned
  | ready
  | confirmedAbsent
  | failed
  deriving DecidableEq, Repr

def classifyOpencodeDatabaseOutcome (outcome : Option OpencodeDatabaseOutcome)
    (discovered inventoryCompleted : Bool) : OpencodeDatabaseOutcome :=
  outcome.getD (if inventoryCompleted && !discovered then .confirmedAbsent else .failed)

end Memex.Ingest
