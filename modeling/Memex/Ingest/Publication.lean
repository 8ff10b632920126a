import Mathlib.Data.Finset.Image
import Memex.Ingest.SessionRows
import Memex.Ingest.Inventory

/-! # Publication

`ingest/publication.rs`: recovery of an interrupted refresh, the pending intent
a finished refresh leaves behind, and the lexical and vector generations the
index writer publishes. -/

namespace Memex.Ingest

open Overlay State

/-- The published vector generation. -/
structure VectorStore where
  model : Option String
  dimensions : Nat
  docIds : Finset Nat
  deriving DecidableEq

/-- Everything that outlives a refresh: the checkpoint store and the published
lexical and vector generations. -/
structure Durable where
  checkpoint : CheckpointStore := {}
  lexical : Multiset Record := 0
  vectors : Option VectorStore := none

/-- Source paths with records in the index. -/
def Durable.indexedPaths (durable : Durable) : Finset String :=
  (durable.lexical.map Record.sourcePath).toFinset

/-- `opencode::is_database_path`: the file name of an OpenCode database. -/
def isDatabasePath (path : String) : Bool :=
  let name := (path.toList.reverse.takeWhile fun c => c ≠ '/' && c ≠ '\\').reverse
  "opencode".toList.isPrefixOf name && ".db".toList.isSuffixOf name

/-- Every path an interrupted refresh may have half published is dropped from
the checkpoint, and the id counter moves past the ids it drew. -/
def preparePendingIngestRecovery (session : CheckpointSession) :
    CheckpointSession × Option PendingIngest :=
  match session.pending with
  | none => (session, none)
  | some pending =>
      let dropped := session.deleteFiles pending.sourcePaths
      ({ dropped with
          opencodeDatabases := eraseAll
            (pending.sourcePaths.filter fun path => isDatabasePath path = true)
            dropped.opencodeDatabases
          nextDocId := max dropped.nextDocId pending.nextDocId },
        some pending)

structure RecoveredCheckpoint where
  state : CheckpointSession
  pendingRecovery : Option PendingIngest
  emptyIndexRebuild : Bool

/-- `recover_checkpoint` on an initialized store. A checkpoint without any
indexed record is rebuilt from nothing, and so are its vectors. -/
def recoverCheckpoint (durable : Durable) : Durable × RecoveredCheckpoint :=
  let (state, pendingRecovery) :=
    preparePendingIngestRecovery (CheckpointSession.open durable.checkpoint)
  if durable.lexical = 0 ∧ (state.hasFiles ∨ state.opencodeDatabases ≠ ∅) then
    ({ durable with vectors := none },
      { state := { state.clearFiles with opencodeDatabases := ∅ }
        pendingRecovery
        emptyIndexRebuild := true })
  else (durable, { state, pendingRecovery, emptyIndexRebuild := false })

/-- The id the next refresh starts from: the stored counter, or that of the
pending intent when it is larger. -/
def reservedDocId (store : CheckpointStore) : Nat :=
  max store.nextDocId ((store.pending.map PendingIngest.nextDocId).getD 0)

/-- Recovery keeps the stored checkpoint and the lexical generation, and
continues from the reserved id. -/
theorem recoverCheckpoint_frame (durable : Durable) :
    let recovery := recoverCheckpoint durable
    recovery.1.checkpoint = durable.checkpoint ∧ recovery.1.lexical = durable.lexical ∧
      (recovery.1.vectors = durable.vectors ∨ recovery.1.vectors = none) ∧
      recovery.2.state.store = durable.checkpoint ∧
      recovery.2.state.originalNextDocId = durable.checkpoint.nextDocId ∧
      recovery.2.state.nextDocId = reservedDocId durable.checkpoint ∧
      recovery.2.pendingRecovery = durable.checkpoint.pending := by
  have hpending : (preparePendingIngestRecovery (CheckpointSession.open durable.checkpoint)).1.store
        = durable.checkpoint ∧
      (preparePendingIngestRecovery
        (CheckpointSession.open durable.checkpoint)).1.originalNextDocId =
          durable.checkpoint.nextDocId ∧
      (preparePendingIngestRecovery (CheckpointSession.open durable.checkpoint)).1.nextDocId =
        reservedDocId durable.checkpoint ∧
      (preparePendingIngestRecovery (CheckpointSession.open durable.checkpoint)).2 =
        durable.checkpoint.pending := by
    unfold preparePendingIngestRecovery reservedDocId
    cases hcase : (CheckpointSession.open durable.checkpoint).pending with
    | none =>
        have hnone : durable.checkpoint.pending = none := hcase
        simp [hnone, CheckpointSession.open, CheckpointStore.header]
    | some pending =>
        have hsome : durable.checkpoint.pending = some pending := hcase
        have hbase := SameBase.deleteFiles (CheckpointSession.open durable.checkpoint)
          pending.sourcePaths
        simp only [hsome, hbase.store, hbase.originalNextDocId, hbase.nextDocId]
        simp [CheckpointSession.open, CheckpointStore.header]
  obtain ⟨hstore, horiginal, hnext, hrecovery⟩ := hpending
  unfold recoverCheckpoint
  dsimp only
  split
  · exact ⟨rfl, rfl, .inr rfl, hstore, horiginal, hnext, hrecovery⟩
  · exact ⟨rfl, rfl, .inl rfl, hstore, horiginal, hnext, hrecovery⟩

/-- Recovery only drops rows. -/
theorem recoverCheckpoint_rows (durable : Durable) :
    (recoverCheckpoint durable).2.state.Coherent ∧
      (recoverCheckpoint durable).2.state.rows.keys ⊆ durable.checkpoint.files.keys := by
  have hopen := CheckpointSession.Coherent.of_open durable.checkpoint
  have hrows : (CheckpointSession.open durable.checkpoint).rows = durable.checkpoint.files :=
    Patch.apply_empty _
  have hpending :
      (preparePendingIngestRecovery (CheckpointSession.open durable.checkpoint)).1.Coherent ∧
      (preparePendingIngestRecovery (CheckpointSession.open durable.checkpoint)).1.rows.keys ⊆
        durable.checkpoint.files.keys := by
    unfold preparePendingIngestRecovery
    split
    · exact ⟨hopen, by rw [hrows]⟩
    · rename_i pending _
      have hdrops := Drops.deleteFiles hopen pending.sourcePaths
      have hcoherent := hdrops.coherent
      refine ⟨hcoherent.congr rfl rfl rfl, ?_⟩
      change ((CheckpointSession.open durable.checkpoint).deleteFiles
        pending.sourcePaths).rows.keys ⊆ _
      rw [hdrops.keys, hrows]
      exact Finset.sdiff_subset
  unfold recoverCheckpoint
  dsimp only
  split
  · have hcleared : Represents
        (preparePendingIngestRecovery (CheckpointSession.open durable.checkpoint)).1.clearFiles
          ∅ ∅ := Represents.clearFiles
    have hcoherent := hcleared.coherent
    refine ⟨hcoherent.congr rfl rfl rfl, ?_⟩
    change (CheckpointSession.clearFiles _).rows.keys ⊆ _
    rw [hcleared.rows_eq]
    exact Finset.empty_subset _
  · exact hpending

/-- The pending intent after a finished refresh: only deferred scopes remain. -/
def finalizedPendingIngest (deferred : Finset SessionScope) (nextDocId : Nat) : PendingChange :=
  if deferred = ∅ then .clear
  else
    .replace
      { nextDocId
        sessionScopes := deferred
        vectorPublication := false
        embeddingPublication := some false }

/-- A partial scan only renews the freshness of the last full scan's totals. -/
def updatedScanCache (now : Nat) (cache : Option ScanCache) (filesScanned totalBytes : Nat)
    (fullScan : Bool) : Option ScanCache :=
  cache.map fun cache =>
    if fullScan then { lastScanTs := now, fileCount := filesScanned, totalBytes }
    else { cache with lastScanTs := now }

/-- What the index writer is told to do. -/
structure WriterContext where
  embeddings : Bool
  doBackfillEmbeddings : Bool
  resetVectorStore : Bool
  model : String
  reconcileVectorIds : Bool
  scopeTargets : Finset SessionScope
  deletePaths : Finset String
  vectorDeletePaths : Finset String

def Record.scope (record : Record) : SessionScope where
  sourcePath := record.sourcePath
  sessionId := record.sessionId

namespace WriterContext

variable (ctx : WriterContext)

/-- Whether the writer deletes an indexed record. -/
def Deletes (record : Record) : Prop :=
  record.sourcePath ∈ ctx.deletePaths ∨ Record.scope record ∈ ctx.scopeTargets

instance : DecidablePred ctx.Deletes :=
  fun record => inferInstanceAs
    (Decidable (record.sourcePath ∈ ctx.deletePaths ∨ Record.scope record ∈ ctx.scopeTargets))

/-- Deletions run before the first record is added, so they spare the added
ones. -/
def publishLexical (lexical : Multiset Record) (added : List Record) : Multiset Record :=
  lexical.filter (fun record => ¬ ctx.Deletes record) + (added : Multiset Record)

/-- Ids whose vectors are removed: all of a scope, and of a deleted path when
its vectors are to go as well. -/
def scopedDocIds (lexical : Multiset Record) : Finset Nat :=
  ((lexical.filter fun record =>
    Record.scope record ∈ ctx.scopeTargets ∨
      (record.sourcePath ∈ ctx.deletePaths ∧ record.sourcePath ∈ ctx.vectorDeletePaths)).map
    Record.docId).toFinset

def embeddableIds (records : Multiset Record) : Finset Nat :=
  ((records.filter fun record => record.needsEmbedding).map Record.docId).toFinset

/-- The vector store the writer works on, and whether it has to be filled from
the whole index. `dimensions` are those of the model. -/
def openVectors (dimensions : Nat) (vectors : Option VectorStore) (removed : Finset Nat) :
    Option (VectorStore × Bool) :=
  let empty : VectorStore × Bool := ({ model := some ctx.model, dimensions, docIds := ∅ }, true)
  if ctx.embeddings then
    match vectors with
    | some store =>
        if !ctx.resetVectorStore && store.dimensions = dimensions &&
            store.model = some ctx.model then
          some (store, false)
        else some empty
    | none => some empty
  else if ctx.reconcileVectorIds || removed ≠ ∅ then vectors.map fun store => (store, false)
  else none

/-- The vector generation staged beside the lexical one: scoped ids go, new
records are embedded, ids that are no longer live are dropped, and missing
embeddings are filled in. -/
def stageVectors (dimensions : Nat) (vectors : Option VectorStore)
    (lexical published : Multiset Record) (added : List Record) : Option VectorStore :=
  let removed := ctx.scopedDocIds lexical
  (ctx.openVectors dimensions vectors removed).map fun (store, needsBackfill) =>
    let kept := store.docIds \ removed
    let buffered :=
      if ctx.embeddings && !ctx.resetVectorStore then embeddableIds (added : Multiset Record)
      else ∅
    let live := embeddableIds published
    let retained := if ctx.reconcileVectorIds then kept ∩ live else kept
    let embedded := retained ∪ buffered
    let filled :=
      if ctx.embeddings &&
          (ctx.doBackfillEmbeddings || needsBackfill || ¬ live ⊆ embedded) then
        embedded ∪ live
      else embedded
    { store with docIds := filled }

/-- Whether an empty stream still needs the writer because of the vectors. -/
def fastPathNeedsVectors (knownDimensions : Option Nat) (vectors : Option VectorStore)
    (lexical : Multiset Record) : Bool :=
  ctx.embeddings &&
    match knownDimensions with
    | none => true
    | some dimensions =>
        match vectors with
        | none => embeddableIds lexical ≠ ∅
        | some store =>
            store.model ≠ some ctx.model || store.dimensions ≠ dimensions ||
              ¬ embeddableIds lexical ⊆ store.docIds

/-- Nothing to add, delete or embed: only the checkpoint is committed. -/
def checkpointsOnly (knownDimensions : Option Nat) (vectors : Option VectorStore)
    (lexical : Multiset Record) (added : List Record) : Bool :=
  added = [] && ctx.deletePaths = ∅ && ctx.scopeTargets = ∅ && !ctx.doBackfillEmbeddings &&
    !ctx.resetVectorStore && !ctx.reconcileVectorIds &&
    !ctx.fastPathNeedsVectors knownDimensions vectors lexical

end WriterContext

end Memex.Ingest
