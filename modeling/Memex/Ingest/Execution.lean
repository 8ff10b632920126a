import Memex.Ingest.Prepare

/-! # Executing a refresh

`execute_refresh` of `ingest/execution.rs`. The refresh crosses four durable
steps: the pending intent, the lexical generation, the vector generation and
the final commit. It may stop before any of them, by a crash or by an error;
what is durable then is what the completed steps wrote. -/

namespace Memex.Ingest

open Overlay State

/-- What a parser run returns: the records it emitted and the state to resume
from. -/
structure ParsedSource where
  records : List Record
  offset : Nat
  turnId : Nat := 0
  legacyTurnId : Option Nat := none
  pendingToolCalls : Table String PendingToolCall := ∅
  codexMetadataOffsets : Option (List Nat) := none
  claudeBackground : Option Bool := none
  deriving DecidableEq

/-- How the run of a parser over one task ended. `notFound` is a file that
vanished after discovery; other failures may come after some records. -/
inductive TaskResult where
  | parsed (output : ParsedSource)
  | notFound
  | failed (emitted : List Record)
  deriving DecidableEq

/-- `finish_file_task`: a vanished file is skipped, any other error fails the
refresh. A vanished Bob task that is being replaced fails it as well. -/
def finishFileTask (task : FileTask) : TaskResult → Bool
  | .parsed _ => true
  | .notFound => !(task.source = .bob && task.deleteFirst)
  | .failed _ => false

def TaskResult.emitted : TaskResult → List Record
  | .parsed output => output.records
  | .notFound => []
  | .failed emitted => emitted

/-- `completed_file_state` with the fields a source adds to it: the row a
parsed task leaves. -/
def completedFileState (task : FileTask) (output : ParsedSource) : FileState where
  size := task.size
  mtime := task.mtime
  offset := output.offset
  turnId := output.turnId
  legacyTurnId := output.legacyTurnId
  parserVersion := task.parserVersion
  pendingToolCalls := output.pendingToolCalls
  identity := task.identity
  codexMetadataOffsets := if task.source = .codex then output.codexMetadataOffsets else none
  claudeBackground :=
    if task.source = .claude then output.claudeBackground else task.claudeBackground

/-- Parsers run concurrently and share one id counter, so their records are
emitted in some order. -/
structure Interleaving where
  order : List Record → List Record
  perm : ∀ records, (order records).Perm records

/-- Records in task order. -/
def Interleaving.sequential : Interleaving where
  order := id
  perm _ := List.Perm.refl _

/-- Answers of the outside world to the execution of one refresh. -/
structure ExecutionInputs where
  parse : FileTask → TaskResult
  interleaving : Interleaving := .sequential
  now : Nat := 0
  knownDimensions : Option Nat := none
  dimensions : Nat := 0
  parseModel : String → Option String := fun _ => none

/-- The durable step before which a refresh stops. -/
inductive StopPoint where
  | intent
  | lexical
  | vectors
  | final
  deriving DecidableEq, Repr

section Execute

variable (prepared : PreparedRefresh) (options : IngestOptions) (inputs : ExecutionInputs)

/-- `can_skip_noop_index`: whether the vectors already cover the index. -/
def canSkipNoopIndex (durable : Durable) : Bool :=
  !options.embeddings ||
    match inputs.knownDimensions, durable.vectors with
    | some dimensions, some store =>
        store.model = some options.model && store.dimensions = dimensions &&
          WriterContext.embeddableIds durable.lexical ⊆ store.docIds
    | _, _ => false

def sourceChanges : Bool :=
  prepared.tasks ≠ [] || prepared.deletePaths ≠ ∅ || prepared.opencodeScopeTargets ≠ ∅ ||
    prepared.opencodeReadyDatabases.any fun database => database.scan.dirtySessionIds ≠ ∅

def vectorWork (durable : Durable) : Bool :=
  prepared.recoverEmbeddings || prepared.reconcilePendingVectorIds ||
    (prepared.fullScan && !sourceChanges prepared && !canSkipNoopIndex options inputs durable)

/-- Stale parser versions rebuild the vectors under the model they have. -/
def vectorRebuild (durable : Durable) : Bool :=
  prepared.tasks.any FileTask.parserVersionInvalidated && durable.vectors.isSome

/-- The model of the published vectors, when it is a known one. -/
def publishedModel (durable : Durable) : Option String :=
  (durable.vectors.bind VectorStore.model).bind inputs.parseModel

def vectorModel (durable : Durable) : String :=
  let migrated :=
    if vectorRebuild prepared durable then (publishedModel inputs durable).getD options.model
    else options.model
  if prepared.recoverEmbeddings && !options.embeddings then
    (publishedModel inputs durable).getD migrated
  else migrated

def embeds (durable : Durable) : Bool :=
  options.embeddings || vectorRebuild prepared durable || prepared.recoverEmbeddings

def writerContext (durable : Durable) : WriterContext where
  embeddings := embeds prepared options durable
  doBackfillEmbeddings := options.backfillEmbeddings || vectorRebuild prepared durable ||
    prepared.recoverEmbeddings ||
    (embeds prepared options durable && vectorWork prepared options inputs durable)
  resetVectorStore := vectorRebuild prepared durable
  model := vectorModel prepared options inputs durable
  reconcileVectorIds := prepared.reconcilePendingVectorIds
  scopeTargets := prepared.opencodeScopeTargets
  deletePaths := prepared.deletePaths
  vectorDeletePaths := prepared.vectorDeletePaths

/-- Whether the refresh crosses the vector publication boundary. -/
def vectorPublication (durable : Durable) : Bool :=
  embeds prepared options durable || prepared.reconcilePendingVectorIds ||
    ((prepared.recoverVectorCleanup || prepared.opencodeScopeTargets ≠ ∅ ||
        prepared.opencodeDatabasePathsToDelete ≠ ∅ || prepared.vectorDeletePaths ≠ ∅) &&
      durable.vectors.isSome)

/-- Whether every task finished, possibly by being skipped. -/
def parserSucceeded : Bool :=
  prepared.tasks.all fun task => finishFileTask task (inputs.parse task)

/-- The records the parsers emit, with their ids. -/
def parsedRecords : List Record :=
  drawIds prepared.nextDocId
    (inputs.interleaving.order (prepared.tasks.flatMap fun task => (inputs.parse task).emitted))

/-- `replay_opencode_spool`: the spooled records of the sessions a database
owns. -/
def replayedRecords : List Record :=
  prepared.opencodeReadyDatabases.flatMap fun database =>
    database.spool.filter fun record =>
      record.sessionId ∈ (prepared.opencodeReadyOwnedSessions.lookup database.path).getD ∅

/-- Number of ids drawn once the parsers are done. -/
def drawnDocIds : Nat :=
  prepared.nextDocId + (prepared.tasks.flatMap fun task => (inputs.parse task).emitted).length

/-- The counter as it is loaded after parsing. -/
def finalDocId : Nat :=
  loadCounter (drawnDocIds prepared inputs)

def affectedPaths : Finset String :=
  prepared.deletePaths ∪ (prepared.tasks.map FileTask.path).toFinset

def pendingIngest (durable : Durable) : PendingIngest where
  nextDocId := finalDocId prepared inputs
  sourcePaths := affectedPaths prepared
  vectorDeletePaths := prepared.vectorDeletePaths
  sessionScopes := prepared.opencodeScopeTargets ∪ prepared.deferredPendingScopes
  vectorPublication := vectorPublication prepared options durable
  embeddingPublication := some (embeds prepared options durable)

/-- Whether an intent has to be durable before the writer publishes. -/
def needsPublication (durable : Durable) : Bool :=
  prepared.deletePaths ≠ ∅ || prepared.opencodeScopeTargets ≠ ∅ ||
    embeds prepared options durable || prepared.recoverEmbeddings ||
    prepared.reconcilePendingVectorIds || finalDocId prepared inputs ≠ prepared.state.nextDocId

/-- The rows of the tasks that were parsed. -/
def updatedFiles : List (String × FileState) :=
  prepared.tasks.filterMap fun task =>
    match inputs.parse task with
    | .parsed output => some (task.path, completedFileState task output)
    | _ => none

/-- All the records the writer is given. -/
def addedRecords : List Record :=
  parsedRecords prepared inputs ++ replayedRecords prepared

/-- Whether the writer has nothing to publish. -/
def skipsPublication (durable : Durable) : Bool :=
  (writerContext prepared options inputs durable).checkpointsOnly inputs.knownDimensions
    durable.vectors durable.lexical (addedRecords prepared inputs)

/-- The session once the intent is durable, if one is needed. -/
def intendedSession (durable : Durable) : CheckpointSession :=
  if needsPublication prepared options inputs durable then
    (prepared.state.commitIntent (pendingIngest prepared options inputs durable) none).1
  else prepared.state

/-- The lexical generation the writer publishes. -/
def publishedLexical (durable : Durable) : Multiset Record :=
  if skipsPublication prepared options inputs durable then durable.lexical
  else
    (writerContext prepared options inputs durable).publishLexical durable.lexical
      (addedRecords prepared inputs)

/-- The vector generation it publishes next. -/
def publishedVectors (durable : Durable) : Option VectorStore :=
  let staged :=
    if skipsPublication prepared options inputs durable then none
    else
      (writerContext prepared options inputs durable).stageVectors inputs.dimensions
        durable.vectors durable.lexical (publishedLexical prepared options inputs durable)
        (addedRecords prepared inputs)
  staged.or durable.vectors

/-- The session just before the final commit of a publishing refresh. -/
def finalSession (session : CheckpointSession) : CheckpointSession :=
  let upserted := (updatedFiles prepared inputs).foldl
    (fun session update => session.upsertFile update.1 update.2) session
  { upserted with
    opencodeDatabases := prepared.installedOpencodeStates
    nextDocId := finalDocId prepared inputs }

/-- What a refresh leaves behind, and whether it returned `Ok`. -/
structure RefreshResult where
  durable : Durable
  ok : Bool

/-- The last step: the session with the scan cache and the remaining intent. -/
def commitRefresh (durable : Durable) (session : CheckpointSession) (pending : PendingChange) :
    RefreshResult :=
  let cache := updatedScanCache inputs.now prepared.scanCache prepared.filesScanned
    prepared.totalBytes prepared.fullScan
  let (session, outcome) := session.commitFinal cache pending none
  { durable := { durable with checkpoint := session.store }, ok := outcome ≠ .failed }

/-- Nothing to publish: the checkpoint is committed on its own. -/
def commitCheckpointOnly (durable : Durable) (stop : Option StopPoint) : RefreshResult :=
  if stop.isSome then { durable, ok := false }
  else
    let session := { prepared.state with opencodeDatabases := prepared.installedOpencodeStates }
    commitRefresh prepared inputs durable session <|
      if prepared.recoveringPendingIngest then
        finalizedPendingIngest prepared.deferredPendingScopes session.nextDocId
      else .keep

/-- The durable state once the intent is committed. -/
def intendedDurable (durable : Durable) : Durable :=
  { durable with checkpoint := (intendedSession prepared options inputs durable).store }

/-- The durable state once the lexical generation is published. -/
def lexicalDurable (durable : Durable) : Durable :=
  { intendedDurable prepared options inputs durable with
    lexical := publishedLexical prepared options inputs durable }

/-- The durable state once the vector generation is published. -/
def vectorDurable (durable : Durable) : Durable :=
  { lexicalDurable prepared options inputs durable with
    vectors := publishedVectors prepared options inputs durable }

/-- Parse, make the intent durable, publish both generations and commit. -/
def publishRefresh (durable : Durable) (stop : Option StopPoint) : RefreshResult :=
  if stop = some .intent then { durable, ok := false }
  -- a failed parser cancels the writer after the intent was committed
  else if !parserSucceeded prepared inputs || stop = some .lexical then
    { durable := intendedDurable prepared options inputs durable, ok := false }
  else if stop = some .vectors then
    { durable := lexicalDurable prepared options inputs durable, ok := false }
  else if stop = some .final then
    { durable := vectorDurable prepared options inputs durable, ok := false }
  else
    let session := finalSession prepared inputs (intendedSession prepared options inputs durable)
    commitRefresh prepared inputs (vectorDurable prepared options inputs durable) session
      (finalizedPendingIngest prepared.deferredPendingScopes session.nextDocId)

/-- What `execute_refresh` decides to do. -/
def refreshDecision (durable : Durable) : RefreshDecision :=
  decideRefresh
    { sourceChanges := sourceChanges prepared
      vectorWork := vectorWork prepared options inputs durable
      checkpointChanges := prepared.recoveringPendingIngest || prepared.emptyIndexRebuild ||
        prepared.identitiesChanged || prepared.opencodeDatabaseStateChanged }

/-- `execute_refresh` up to the given stop. -/
def executeRefresh (durable : Durable) (stop : Option StopPoint) : RefreshResult :=
  if refreshDecision prepared options inputs durable = .publish then
    publishRefresh prepared options inputs durable stop
  else commitCheckpointOnly prepared inputs durable stop

end Execute

section Cut

variable {prepared : PreparedRefresh} {options : IngestOptions} {inputs : ExecutionInputs}
  {durable : Durable} {stop : Option StopPoint}

/-- The durable states a publishing refresh can leave behind, in the order it
reaches them. -/
theorem publishRefresh_cases (prepared : PreparedRefresh) (options : IngestOptions)
    (inputs : ExecutionInputs) (durable : Durable) (stop : Option StopPoint) :
    publishRefresh prepared options inputs durable stop = { durable, ok := false } ∨
      publishRefresh prepared options inputs durable stop =
          { durable := intendedDurable prepared options inputs durable, ok := false } ∨
      publishRefresh prepared options inputs durable stop =
          { durable := lexicalDurable prepared options inputs durable, ok := false } ∧
        parserSucceeded prepared inputs = true ∨
      publishRefresh prepared options inputs durable stop =
          { durable := vectorDurable prepared options inputs durable, ok := false } ∧
        parserSucceeded prepared inputs = true ∨
      publishRefresh prepared options inputs durable stop =
          commitRefresh prepared inputs (vectorDurable prepared options inputs durable)
            (finalSession prepared inputs (intendedSession prepared options inputs durable))
            (finalizedPendingIngest prepared.deferredPendingScopes (finalDocId prepared inputs)) ∧
        parserSucceeded prepared inputs = true := by
  by_cases hintent : stop = some .intent
  · exact .inl (if_pos hintent)
  · by_cases hlexical : !parserSucceeded prepared inputs || stop = some .lexical
    · refine .inr (.inl ?_)
      rw [publishRefresh, if_neg hintent, if_pos hlexical]
    · have hparsed : parserSucceeded prepared inputs = true := by
        simp only [Bool.or_eq_true, Bool.not_eq_true', not_or] at hlexical
        simpa using hlexical.1
      by_cases hvectors : stop = some .vectors
      · refine .inr (.inr (.inl ⟨?_, hparsed⟩))
        rw [publishRefresh, if_neg hintent, if_neg hlexical, if_pos hvectors]
      · by_cases hfinal : stop = some .final
        · refine .inr (.inr (.inr (.inl ⟨?_, hparsed⟩)))
          rw [publishRefresh, if_neg hintent, if_neg hlexical, if_neg hvectors, if_pos hfinal]
        · refine .inr (.inr (.inr (.inr ⟨?_, hparsed⟩)))
          rw [publishRefresh, if_neg hintent, if_neg hlexical, if_neg hvectors, if_neg hfinal]
          rfl

/-- A refresh that returns `Ok` has made its final commit. -/
theorem executeRefresh_of_ok (h : (executeRefresh prepared options inputs durable stop).ok = true) :
    (refreshDecision prepared options inputs durable ≠ .publish ∧
      executeRefresh prepared options inputs durable stop =
        commitRefresh prepared inputs durable
          { prepared.state with opencodeDatabases := prepared.installedOpencodeStates }
          (if prepared.recoveringPendingIngest then
            finalizedPendingIngest prepared.deferredPendingScopes prepared.state.nextDocId
          else .keep)) ∨
      (parserSucceeded prepared inputs = true ∧
        executeRefresh prepared options inputs durable stop =
          commitRefresh prepared inputs (vectorDurable prepared options inputs durable)
            (finalSession prepared inputs (intendedSession prepared options inputs durable))
            (finalizedPendingIngest prepared.deferredPendingScopes
              (finalDocId prepared inputs))) := by
  unfold executeRefresh at h ⊢
  by_cases hdecision : refreshDecision prepared options inputs durable = .publish
  · rw [if_pos hdecision] at h ⊢
    rcases publishRefresh_cases prepared options inputs durable stop with heq | heq | ⟨heq, -⟩ |
      ⟨heq, -⟩ | ⟨heq, hparsed⟩
    · rw [heq] at h
      cases h
    · rw [heq] at h
      cases h
    · rw [heq] at h
      cases h
    · rw [heq] at h
      cases h
    · exact .inr ⟨hparsed, heq⟩
  · rw [if_neg hdecision] at h ⊢
    refine .inl ⟨hdecision, ?_⟩
    unfold commitCheckpointOnly at h ⊢
    split at h
    · cases h
    · rename_i hstop
      rw [if_neg hstop]

/-- What the writer publishes, also when it has nothing to do. -/
theorem publishedLexical_eq (prepared : PreparedRefresh) (options : IngestOptions)
    (inputs : ExecutionInputs) (durable : Durable) :
    publishedLexical prepared options inputs durable =
      (writerContext prepared options inputs durable).publishLexical durable.lexical
        (addedRecords prepared inputs) := by
  unfold publishedLexical
  split
  · rename_i hskip
    have hidle : addedRecords prepared inputs = [] ∧
        (writerContext prepared options inputs durable).deletePaths = ∅ ∧
        (writerContext prepared options inputs durable).scopeTargets = ∅ := by
      simp only [skipsPublication, WriterContext.checkpointsOnly, Bool.and_eq_true,
        decide_eq_true_eq] at hskip
      exact ⟨hskip.1.1.1.1.1.1, hskip.1.1.1.1.1.2, hskip.1.1.1.1.2⟩
    obtain ⟨hadded, hpaths, hscopes⟩ := hidle
    have hkeep (record : Record) :
        ¬ (writerContext prepared options inputs durable).Deletes record := by
      rintro (hpath | hscope)
      · rw [hpaths] at hpath
        exact Finset.notMem_empty _ hpath
      · rw [hscopes] at hscope
        exact Finset.notMem_empty _ hscope
    rw [WriterContext.publishLexical, hadded,
      Multiset.filter_eq_self.mpr fun record _ => hkeep record]
    simp
  · rfl

/-- Without work to publish there is nothing to delete and nothing to parse. -/
theorem sourceChanges_eq_false_of_decision
    (h : refreshDecision prepared options inputs durable ≠ .publish) :
    prepared.tasks = [] ∧ prepared.deletePaths = ∅ ∧ prepared.opencodeScopeTargets = ∅ ∧
      ∀ database ∈ prepared.opencodeReadyDatabases, database.scan.dirtySessionIds = ∅ := by
  have hsource : sourceChanges prepared = false := by
    unfold refreshDecision decideRefresh at h
    by_contra hsource
    simp [hsource] at h
  simpa [sourceChanges, Bool.or_eq_false_iff, and_assoc] using hsource

end Cut

/-- Everything outside the durable state that one refresh depends on. -/
structure RefreshInputs where
  inv : Inventory
  options : IngestOptions
  narrowing : Narrowing
  execution : ExecutionInputs
  stop : Option StopPoint

/-- `ingest_selected`: recover, prepare and execute. An aborted preparation
leaves what recovery left. -/
def ingestSelected (inputs : RefreshInputs) (durable : Durable) : RefreshResult :=
  let (durable, recovered) := recoverCheckpoint durable
  match prepareRefresh inputs.inv inputs.options durable recovered inputs.narrowing with
  | none => { durable, ok := false }
  | some prepared => executeRefresh prepared inputs.options inputs.execution durable inputs.stop

section Start

variable {prepared : PreparedRefresh} {options : IngestOptions} {inputs : ExecutionInputs}
  {durable : Durable}

/-- What the execution of a refresh relies on: the session still has the stored
counter and intent, and counts on from the reserved id. -/
structure StartsReserved (prepared : PreparedRefresh) (durable : Durable) : Prop where
  store : prepared.state.store = durable.checkpoint
  original : prepared.state.originalNextDocId = durable.checkpoint.nextDocId
  next : prepared.state.nextDocId = reservedDocId durable.checkpoint
  recovering : prepared.recoveringPendingIngest = durable.checkpoint.pending.isSome
  le : reservedDocId durable.checkpoint ≤ prepared.nextDocId
  spools : prepared.nextDocId ≤ docIdLimit → IdsWithin (reservedDocId durable.checkpoint)
    prepared.nextDocId (prepared.opencodeReadyDatabases.flatMap PreparedOpencodeDatabase.spool)

theorem prepareRefresh_startsReserved {inv : Inventory} {narrowing : Narrowing}
    (h : prepareRefresh inv options (recoverCheckpoint durable).1 (recoverCheckpoint durable).2
      narrowing = some prepared) : StartsReserved prepared (recoverCheckpoint durable).1 := by
  obtain ⟨hcheckpoint, -, -, hstore, horiginal, hnext, hpending⟩ := recoverCheckpoint_frame durable
  obtain ⟨hbase, hrecovering, hle, hspools⟩ := prepareRefresh_frame h
  rw [hnext] at hle hspools
  exact
    { store := by rw [hbase.store, hstore, hcheckpoint]
      original := by rw [hbase.originalNextDocId, horiginal, hcheckpoint]
      next := by rw [hbase.nextDocId, hnext, hcheckpoint]
      recovering := by rw [hrecovering, hpending, hcheckpoint]
      le := by rw [hcheckpoint]; exact hle
      spools := by rw [hcheckpoint]; exact hspools }

/-- The store of the intent is the old one with at most the intent replaced. -/
theorem intendedSession_store (options : IngestOptions) (inputs : ExecutionInputs)
    (h : StartsReserved prepared durable) :
    (intendedSession prepared options inputs durable).store =
        (if needsPublication prepared options inputs durable then
          { durable.checkpoint with
            pending := some (pendingIngest prepared options inputs durable) }
        else durable.checkpoint) ∧
      (intendedSession prepared options inputs durable).originalNextDocId =
        durable.checkpoint.nextDocId := by
  unfold intendedSession
  split
  · simp [CheckpointSession.commitIntent, CheckpointStore.commitIntent, PendingChange.apply,
      h.store, h.original]
  · exact ⟨h.store, h.original⟩

theorem finalSession_sameStore (prepared : PreparedRefresh) (inputs : ExecutionInputs)
    (session : CheckpointSession) :
    (finalSession prepared inputs session).store = session.store ∧
      (finalSession prepared inputs session).originalNextDocId = session.originalNextDocId := by
  have hbase (updates : List (String × FileState)) (session : CheckpointSession) :
      SameBase session (updates.foldl (fun session update =>
        session.upsertFile update.1 update.2) session) := by
    induction updates generalizing session with
    | nil => exact SameBase.refl session
    | cons update rest ih => exact (SameBase.upsertFile session _ _).trans (ih _)
  exact ⟨(hbase _ session).store, (hbase _ session).originalNextDocId⟩

/-- The final commit of a refresh stores its session. -/
theorem commitRefresh_stored (prepared : PreparedRefresh) (inputs : ExecutionInputs)
    (durable : Durable) (session : CheckpointSession) (pending : PendingChange)
    (horiginal : session.originalNextDocId = session.store.nextDocId) :
    StoredBy session pending
      (commitRefresh prepared inputs durable session pending).durable.checkpoint :=
  (session.commitFinal_of_no_fault (updatedScanCache inputs.now prepared.scanCache
    prepared.filesScanned prepared.totalBytes prepared.fullScan) pending horiginal).1

end Start

end Memex.Ingest
