import Memex.Ingest.Discovery.Opencode
import Memex.Ingest.Publication

/-! # Preparing a refresh

`prepare_refresh` of `ingest/discovery.rs`: discovery runs over one session,
and its findings become the lists of paths, scopes and tasks that the refresh
publishes. A narrowed discovery that cannot settle OpenCode ownership starts
over as a full one, on the session it has already edited. -/

namespace Memex.Ingest

open Overlay State

/-- Files and databases a narrowed refresh looks at. -/
structure Selection where
  files : List SourceFile
  databases : List SourceFile

/-- How a refresh limits discovery. The selection of event or journal hints is
absent when they ask for a full scan. -/
inductive Narrowing where
  | dirty (selection : Option Selection)
  | journal (cursor : Option JournalCursorUpdate) (selection : Option Selection)
  | none

/-- What is known before OpenCode is looked at. -/
structure LocalDiscovery where
  state : CheckpointSession
  scanCache : Option ScanCache
  excludedStatePaths : Finset String
  transcripts : TranscriptDiscovery
  supersededPaths : Finset String
  bob : BobDiscovery

structure PreparedRefresh where
  fullScan : Bool
  scanCache : Option ScanCache
  state : CheckpointSession
  recoveringPendingIngest : Bool
  emptyIndexRebuild : Bool
  nextDocId : Nat
  tasks : List FileTask
  filesScanned : Nat
  filesSkipped : Nat
  totalBytes : Nat
  sessionIds : Finset String
  deferredPendingScopes : Finset SessionScope
  opencodeReadyDatabases : List PreparedOpencodeDatabase
  opencodeReadyOwnedSessions : Table String (Finset String)
  opencodeScopeTargets : Finset SessionScope
  opencodeDatabasePathsToDelete : Finset String
  recoverEmbeddings : Bool
  reconcilePendingVectorIds : Bool
  recoverVectorCleanup : Bool
  deletePaths : Finset String
  vectorDeletePaths : Finset String
  installedOpencodeStates : Table String OpencodeDatabaseState
  opencodeDatabaseStateChanged : Bool
  identitiesChanged : Bool

section Prepare

variable (inv : Inventory) (options : IngestOptions) (durable : Durable)

/-- Tracked paths that match an exclusion are dropped by a full scan. -/
def excludedStatePaths (session : CheckpointSession) (fullScan : Bool) : Finset String :=
  if fullScan && options.excluder.set.isSome then
    session.fileKeys.filter fun key => options.excluder.isExcluded key = true
  else ∅

/-- Superseded projections the index, the catalogue or the checkpoint knows. -/
def supersededPaths (session : CheckpointSession) (projections : Finset String) : Finset String :=
  projections.filter fun path =>
    path ∈ durable.indexedPaths ∨ path ∈ inv.analyticsPaths ∨ session.containsFile path = true

/-- A task that vanished during an interrupted replay looks new but may still
be indexed; it is marked as a replacement. -/
def markRecoveredBobTask (pending : Option PendingIngest) (task : FileTask) : FileTask :=
  match pending with
  | some pending =>
      if task.path ∈ pending.sourcePaths then { task with change := .replaced } else task
  | none => task

/-- The interrupted replay of a task in an unreadable database aborts the
refresh before anything is deleted. -/
def bobRecoveryBlocked (pending : Option PendingIngest) (unreadable : List String) : Bool :=
  match pending with
  | some pending => decide (∃ path ∈ pending.sourcePaths, ∃ owner ∈ inv.bobOwner path,
      owner ∈ unreadable)
  | none => false

/-- A full or journal scan covers the interval and may renew the scan cache;
a dirty one never does. -/
def carriedScanCache (session : CheckpointSession) (covers : Bool) (scanCache : Option ScanCache) :
    CheckpointSession × Option ScanCache :=
  if covers then
    match scanCache with
    | some cache => (session, some cache)
    | none => ({ session with scanCache := {} }, some session.scanCache)
  else (session, none)

/-- The session after the walk: a full scan also carries the new stamps. -/
def stampedSession (fullScan : Bool) (session : CheckpointSession) :
    CheckpointSession :=
  if fullScan then { session with directoryStamps := some inv.directoryStamps } else session

/-- Discovery up to Bob: exclusions, transcripts, superseded projections and
Bob tasks, in this order. -/
def discoverLocal (pending : Option PendingIngest) (session : CheckpointSession)
    (selected : Option Selection) (journalNarrowed : Bool) (scanCache : Option ScanCache) :
    Option LocalDiscovery := do
  let fullScan := selected.isNone
  let excluded := excludedStatePaths options session fullScan
  let (state, scanCache) :=
    carriedScanCache (session.deleteFiles excluded) (fullScan || journalNarrowed) scanCache
  let (state, transcripts) ← discoverTranscripts inv options state (selected.map Selection.files)
  let state := stampedSession inv fullScan state
  let superseded := supersededPaths inv durable state transcripts.supersededProjections
  let bobSelected := selected.map fun selection =>
    selection.databases.filter fun file => file.source = .bob
  let (state, bob) := discoverBob inv options (state.deleteFiles superseded) bobSelected
  if bobRecoveryBlocked inv pending bob.unreadableDatabases then none
  else
    some
      { state, scanCache, transcripts
        excludedStatePaths := excluded
        supersededPaths := superseded
        bob := { bob with tasks := bob.tasks.map (markRecoveredBobTask pending) } }

/-- A vanished file counts as deleted while its directory is readable. -/
def confirmedMissing (path : String) : Bool :=
  inv.sweepStat path = .notFound && inv.sweepParentIsDir path

/-- Refresh the stored identity of files found unchanged. -/
def updateIdentity (state : CheckpointSession × Bool) (observed : String × FileIdentity) :
    CheckpointSession × Bool :=
  match state.1.row observed.1 with
  | some previous =>
      if previous.identity ≠ observed.2 then
        (state.1.upsertFile observed.1 { previous with identity := observed.2 }, true)
      else state
  | none => state

/-- Whether an interrupted publication has to be embedded again. -/
def recoverEmbeddings (pending : Option PendingIngest) (tasks : List FileTask) : Bool :=
  match pending with
  | none => false
  | some pending =>
      pending.embeddingPublication.getD pending.vectorPublication ||
        (pending.vectorPublication && durable.vectors.isSome &&
          tasks.any fun task =>
            task.path ∈ pending.sourcePaths && task.path ∉ pending.vectorDeletePaths)

/-- Assemble the refresh from the findings of discovery. -/
def finishPrepare (pending : Option PendingIngest) (emptyIndexRebuild fullScan : Bool)
    (found : LocalDiscovery) (session : CheckpointSession) (opencode : OpencodeDiscovery)
    (nextDocId : Nat) : PreparedRefresh :=
  let tasks := found.transcripts.tasks ++ found.bob.tasks ++ opencode.tasks
  let unchanged := found.transcripts.unchangedIdentities ++ found.bob.unchangedIdentities ++
    opencode.unchangedIdentities
  let swept :=
    if fullScan then session.fileKeys.filter fun path => confirmedMissing inv path = true else ∅
  let missing := swept ∪ found.bob.missingPaths
  let excludedIndexPaths :=
    if fullScan && options.excluder.set.isSome then
      durable.indexedPaths.filter fun path => options.excluder.isExcluded path = true
    else ∅
  let pendingPaths := (pending.map PendingIngest.sourcePaths).getD ∅
  let pendingVectorPaths := (pending.map PendingIngest.vectorDeletePaths).getD ∅
  let removed := opencode.databasePathsToDelete ∪ opencode.legacyPathsToDelete ∪ missing ∪
    found.supersededPaths ∪ found.excludedStatePaths ∪ excludedIndexPaths ∪
    deleteFirstPaths tasks
  let readyScopeRecovery := (pending.map PendingIngest.sessionScopes).any fun scopes =>
    decide (∃ scope ∈ scopes, opencode.databaseOutcomes.lookup scope.sourcePath = some .ready)
  let installed := opencode.databaseStates ∪
    eraseAll opencode.databasePathsToDelete session.opencodeDatabases
  let (state, identitiesChanged) :=
    unchanged.foldl updateIdentity (session.deleteFiles swept, false)
  { fullScan
    scanCache := found.scanCache
    state
    recoveringPendingIngest := pending.isSome
    emptyIndexRebuild
    nextDocId
    tasks
    filesScanned := found.transcripts.filesScanned + found.bob.filesScanned + opencode.filesScanned
    filesSkipped := found.transcripts.filesSkipped + found.bob.filesSkipped +
      opencode.filesSkipped + found.excludedStatePaths.card
    totalBytes := found.transcripts.totalBytes + found.bob.totalBytes + opencode.totalBytes
    sessionIds := found.transcripts.sessionIds
    deferredPendingScopes := opencode.deferredPendingScopes
    opencodeReadyDatabases := opencode.readyDatabases
    opencodeReadyOwnedSessions := opencode.readyOwnedSessions
    opencodeScopeTargets := opencode.scopeTargets
    opencodeDatabasePathsToDelete := opencode.databasePathsToDelete
    recoverEmbeddings := recoverEmbeddings durable pending tasks
    reconcilePendingVectorIds := (pending.map PendingIngest.vectorPublication).getD false
    recoverVectorCleanup := readyScopeRecovery ||
      decide (∃ path ∈ pendingPaths, isDatabasePath path = true)
    deletePaths := pendingPaths ∪ removed
    vectorDeletePaths := pendingVectorPaths ∪
      (pendingPaths.filter fun path => isDatabasePath path = true) ∪ removed
    installedOpencodeStates := installed
    opencodeDatabaseStateChanged := installed ≠ session.opencodeDatabases
    identitiesChanged }

/-- One discovery over a session. An escalation hands back the session as the
abandoned discovery leaves it, with the scan cache it carries. -/
inductive PassOutcome where
  | aborted
  | escalated (state : CheckpointSession) (scanCache : Option ScanCache)
  | prepared (refresh : PreparedRefresh)

def preparePass (pending : Option PendingIngest) (emptyIndexRebuild : Bool)
    (session : CheckpointSession) (selected : Option Selection) (journalNarrowed : Bool)
    (scanCache : Option ScanCache) : PassOutcome :=
  match discoverLocal inv options durable pending session selected journalNarrowed scanCache with
  | none => .aborted
  | some found =>
      let opencodeSelected := selected.map fun selection =>
        selection.databases.filter fun file => file.source ≠ .bob
      match discoverOpencode inv options found.state opencodeSelected pending durable.indexedPaths
          found.state.nextDocId with
      | .aborted => .aborted
      | .escalated => .escalated found.state found.scanCache
      | .done (session, opencode, nextDocId) =>
          .prepared (finishPrepare inv options durable pending emptyIndexRebuild selected.isNone
            found session opencode nextDocId)

/-- The selection a refresh may use: none while it recovers or rebuilds. -/
def usableSelection (recovered : RecoveredCheckpoint) : Narrowing → Option Selection
  | .dirty selection =>
      if recovered.pendingRecovery.isNone && !recovered.emptyIndexRebuild then selection else none
  | .journal _ selection =>
      if recovered.pendingRecovery.isNone && !recovered.emptyIndexRebuild &&
          !recovered.state.clearsFiles then selection
      else none
  | .none => none

/-- The journal position that the refresh stores when it commits. -/
def carriedJournalCursor (session : CheckpointSession) : Narrowing → CheckpointSession
  | .journal cursor _ => { session with journalCursor := cursor }
  | _ => session

def isJournal : Narrowing → Bool
  | .journal _ _ => true
  | _ => false

/-- `prepare_refresh`; `none` when the refresh aborts before publishing. -/
def prepareRefresh (recovered : RecoveredCheckpoint) (narrowing : Narrowing) :
    Option PreparedRefresh :=
  let selected := usableSelection recovered narrowing
  let session := carriedJournalCursor recovered.state narrowing
  match preparePass inv options durable recovered.pendingRecovery recovered.emptyIndexRebuild
      session selected (isJournal narrowing && selected.isSome) none with
  | .aborted => none
  | .prepared refresh => some refresh
  | .escalated state scanCache =>
      match preparePass inv options durable recovered.pendingRecovery recovered.emptyIndexRebuild
          state none false scanCache with
      | .prepared refresh => some refresh
      | _ => none

end Prepare

section Results

variable {inv : Inventory} {options : IngestOptions} {durable : Durable}

theorem carriedScanCache_sameBase (session : CheckpointSession) (covers : Bool)
    (scanCache : Option ScanCache) :
    SameBase session (carriedScanCache session covers scanCache).1 := by
  unfold carriedScanCache
  split
  · split <;> exact ⟨rfl, rfl, rfl, rfl, rfl, rfl⟩
  · exact SameBase.refl session

theorem carriedJournalCursor_sameBase (session : CheckpointSession) (narrowing : Narrowing) :
    SameBase session (carriedJournalCursor session narrowing) := by
  cases narrowing <;> exact ⟨rfl, rfl, rfl, rfl, rfl, rfl⟩

theorem stampedSession_sameBase (fullScan : Bool) (session : CheckpointSession) :
    SameBase session (stampedSession inv fullScan session) := by
  unfold stampedSession
  split <;> exact ⟨rfl, rfl, rfl, rfl, rfl, rfl⟩

/-- The stages of a local discovery that did not abort. -/
theorem discoverLocal_eq_some {pending : Option PendingIngest} {session : CheckpointSession}
    {selected : Option Selection} {journalNarrowed : Bool} {scanCache : Option ScanCache}
    {found : LocalDiscovery}
    (h : discoverLocal inv options durable pending session selected journalNarrowed scanCache =
      some found) :
    ∃ walked bob,
      discoverTranscripts inv options
          (carriedScanCache (session.deleteFiles found.excludedStatePaths)
            (selected.isNone || journalNarrowed) scanCache).1
          (selected.map Selection.files) = some (walked, found.transcripts) ∧
        found.excludedStatePaths = excludedStatePaths options session selected.isNone ∧
        found.supersededPaths = supersededPaths inv durable
          (stampedSession inv selected.isNone walked) found.transcripts.supersededProjections ∧
        discoverBob inv options
            ((stampedSession inv selected.isNone walked).deleteFiles found.supersededPaths)
            (selected.map fun selection =>
              selection.databases.filter fun file => file.source = .bob) = (found.state, bob) ∧
        found.bob = { bob with tasks := bob.tasks.map (markRecoveredBobTask pending) } ∧
        bobRecoveryBlocked inv pending bob.unreadableDatabases = false := by
  simp only [discoverLocal, Option.bind_eq_bind, Option.bind_eq_some_iff] at h
  obtain ⟨⟨walked, transcripts⟩, hwalk, h⟩ := h
  dsimp only at h
  split at h
  · cases h
  · rename_i hblocked
    obtain rfl := Option.some.inj h
    exact ⟨walked, (discoverBob inv options _ _).2, hwalk, rfl, rfl, rfl, rfl,
      Bool.eq_false_iff.mpr hblocked⟩

theorem discoverLocal_sameBase {pending : Option PendingIngest} {session : CheckpointSession}
    {selected : Option Selection} {journalNarrowed : Bool} {scanCache : Option ScanCache}
    {found : LocalDiscovery}
    (h : discoverLocal inv options durable pending session selected journalNarrowed scanCache =
      some found) : SameBase session found.state := by
  obtain ⟨walked, bob, hwalk, -, -, hbob, -, -⟩ := discoverLocal_eq_some h
  have hbase := discoverBob_sameBase inv options
    ((stampedSession inv selected.isNone walked).deleteFiles found.supersededPaths)
    (selected.map fun selection => selection.databases.filter fun file => file.source = .bob)
  rw [hbob] at hbase
  exact (SameBase.deleteFiles session _).trans <| (carriedScanCache_sameBase _ _ _).trans <|
    (discoverTranscripts_sameBase hwalk).trans <| (stampedSession_sameBase _ walked).trans <|
    (SameBase.deleteFiles _ _).trans hbase

/-- The sessions between the stages of a local discovery, by what they have
dropped so far. -/
theorem discoverLocal_stages {pending : Option PendingIngest} {session : CheckpointSession}
    {selected : Option Selection} {journalNarrowed : Bool} {scanCache : Option ScanCache}
    {found : LocalDiscovery} (hsession : session.Coherent)
    (h : discoverLocal inv options durable pending session selected journalNarrowed scanCache =
      some found) :
    ∃ entered walked read bob,
      Drops session entered found.excludedStatePaths ∧
        discoverTranscripts inv options entered (selected.map Selection.files) =
          some (walked, found.transcripts) ∧
        Drops session (stampedSession inv selected.isNone walked) found.excludedStatePaths ∧
        found.supersededPaths = supersededPaths inv durable
          (stampedSession inv selected.isNone walked) found.transcripts.supersededProjections ∧
        Drops session read (found.excludedStatePaths ∪ found.supersededPaths) ∧
        discoverBob inv options read (selected.map fun selection =>
          selection.databases.filter fun file => file.source = .bob) = (found.state, bob) ∧
        found.bob = { bob with tasks := bob.tasks.map (markRecoveredBobTask pending) } := by
  obtain ⟨walked, bob, hwalk, -, hsupersededPaths, hbob, hfound, -⟩ := discoverLocal_eq_some h
  have hexcluded := Drops.deleteFiles hsession found.excludedStatePaths
  have hcarried : Drops (session.deleteFiles found.excludedStatePaths)
      (carriedScanCache (session.deleteFiles found.excludedStatePaths)
        (selected.isNone || journalNarrowed) scanCache).1 ∅ := by
    unfold carriedScanCache
    split
    · split
      · exact Drops.refl hexcluded.coherent
      · exact Drops.congr hexcluded.coherent rfl rfl rfl
    · exact Drops.refl hexcluded.coherent
  have hentered := hexcluded.trans hcarried
  rw [Finset.union_empty] at hentered
  have hwalked := discoverTranscripts_drops hentered.coherent hwalk
  have hstamp : Drops walked (stampedSession inv selected.isNone walked) ∅ := by
    unfold stampedSession
    split
    · exact Drops.congr hwalked.coherent rfl rfl rfl
    · exact Drops.refl hwalked.coherent
  have hstamped := hentered.trans (hwalked.trans hstamp)
  rw [Finset.union_empty, Finset.union_empty] at hstamped
  have hread := hstamped.trans (Drops.deleteFiles hstamped.coherent found.supersededPaths)
  exact ⟨_, walked, _, bob, hentered, hwalk, hstamped, hsupersededPaths, hread, hbob, hfound⟩

/-- What a local discovery drops it also reports; what it reports of rows and
of Bob tasks had a row. -/
theorem discoverLocal_drops {pending : Option PendingIngest} {session : CheckpointSession}
    {selected : Option Selection} {journalNarrowed : Bool} {scanCache : Option ScanCache}
    {found : LocalDiscovery} (hsession : session.Coherent)
    (h : discoverLocal inv options durable pending session selected journalNarrowed scanCache =
      some found) :
    Drops session found.state
        (found.excludedStatePaths ∪ found.supersededPaths ∪ found.bob.missingPaths) ∧
      found.excludedStatePaths ⊆ session.rows.keys ∧
      found.bob.missingPaths ⊆ session.rows.keys := by
  obtain ⟨-, -, -, hexcluded, -⟩ := discoverLocal_eq_some h
  obtain ⟨entered, walked, read, bob, -, -, -, -, hread, hbob, hfound⟩ :=
    discoverLocal_stages hsession h
  have hmissing := discoverBob_drops inv options hread.coherent
    (selected.map fun selection => selection.databases.filter fun file => file.source = .bob)
  rw [hbob] at hmissing
  obtain ⟨hdrops, hsubset⟩ := hmissing
  refine ⟨?_, ?_, ?_⟩
  · rw [hfound]
    exact hread.trans hdrops
  · rw [hexcluded, excludedStatePaths, ← hsession.fileKeys_eq]
    split
    · exact Finset.filter_subset _ _
    · exact Finset.empty_subset _
  · rw [hfound]
    rw [hread.keys] at hsubset
    exact hsubset.trans Finset.sdiff_subset

theorem updateIdentity_sameBase (state : CheckpointSession × Bool)
    (observed : String × FileIdentity) : SameBase state.1 (updateIdentity state observed).1 := by
  unfold updateIdentity
  split
  · split
    · exact SameBase.upsertFile _ _ _
    · exact SameBase.refl _
  · exact SameBase.refl _

theorem foldl_updateIdentity_sameBase (unchanged : List (String × FileIdentity))
    (state : CheckpointSession × Bool) :
    SameBase state.1 (unchanged.foldl updateIdentity state).1 := by
  induction unchanged generalizing state with
  | nil => exact SameBase.refl _
  | cons observed rest ih => exact (updateIdentity_sameBase state observed).trans (ih _)

theorem keys_foldl_updateIdentity (unchanged : List (String × FileIdentity))
    {state : CheckpointSession × Bool} (hstate : state.1.Coherent) :
    (unchanged.foldl updateIdentity state).1.Coherent ∧
      (unchanged.foldl updateIdentity state).1.rows.keys = state.1.rows.keys := by
  induction unchanged generalizing state with
  | nil => exact ⟨hstate, rfl⟩
  | cons observed rest ih =>
      have hstep : (updateIdentity state observed).1.Coherent ∧
          (updateIdentity state observed).1.rows.keys = state.1.rows.keys := by
        unfold updateIdentity
        split
        · rename_i previous hrow
          split
          · have hupsert := Represents.upsertFile hstate observed.1
              { previous with identity := observed.2 }
            refine ⟨hupsert.coherent, ?_⟩
            rw [hupsert.rows_eq]
            have htracked := hstate.mem_rows_of_row (by rw [hrow]; rfl)
            ext key
            rw [Finmap.mem_keys, Finmap.mem_insert, Finmap.mem_keys]
            refine ⟨fun hkey => ?_, .inr⟩
            rcases hkey with rfl | hkey
            · exact Finmap.mem_keys.mp htracked
            · exact hkey
          · exact ⟨hstate, rfl⟩
        · exact ⟨hstate, rfl⟩
      obtain ⟨hcoherent, hkeys⟩ := ih hstep.1
      exact ⟨hcoherent, hkeys.trans hstep.2⟩

theorem finishPrepare_sameBase (pending : Option PendingIngest) (emptyIndexRebuild fullScan : Bool)
    (found : LocalDiscovery) (session : CheckpointSession) (opencode : OpencodeDiscovery)
    (nextDocId : Nat) :
    SameBase session (finishPrepare inv options durable pending emptyIndexRebuild fullScan found
      session opencode nextDocId).state := by
  simp only [finishPrepare]
  exact (SameBase.deleteFiles session _).trans (foldl_updateIdentity_sameBase _ (_, false))

/-- Why a refresh deletes the records of a path; only a full one sweeps missing
files and excluded paths. -/
theorem mem_deletePaths_iff_of_scan {pending : Option PendingIngest}
    {emptyIndexRebuild fullScan : Bool} {found : LocalDiscovery} {session : CheckpointSession}
    {opencode : OpencodeDiscovery} {nextDocId : Nat} {path : String} :
    path ∈ (finishPrepare inv options durable pending emptyIndexRebuild fullScan found session
        opencode nextDocId).deletePaths ↔
      path ∈ (pending.map PendingIngest.sourcePaths).getD ∅ ∨
        path ∈ opencode.databasePathsToDelete ∨ path ∈ opencode.legacyPathsToDelete ∨
        (fullScan = true ∧ path ∈ session.fileKeys ∧ confirmedMissing inv path = true) ∨
        path ∈ found.bob.missingPaths ∨ path ∈ found.supersededPaths ∨
        path ∈ found.excludedStatePaths ∨
        (fullScan = true ∧ path ∈ durable.indexedPaths ∧
          options.excluder.isExcluded path = true) ∨
        path ∈ deleteFirstPaths
          (found.transcripts.tasks ++ found.bob.tasks ++ opencode.tasks) := by
  have hexcluded : path ∈ (if fullScan && options.excluder.set.isSome then
      durable.indexedPaths.filter fun path => options.excluder.isExcluded path = true else ∅) ↔
      fullScan = true ∧ path ∈ durable.indexedPaths ∧
        options.excluder.isExcluded path = true := by
    cases hset : options.excluder.set.isSome with
    | true => cases fullScan <;> simp
    | false =>
        have hnone : options.excluder.isExcluded path ≠ true := by
          intro h
          rw [isSome_set_of_isExcluded h] at hset
          cases hset
        simp [hnone]
  have hswept : path ∈ (if fullScan = true then
      session.fileKeys.filter fun path => confirmedMissing inv path = true else ∅) ↔
      fullScan = true ∧ path ∈ session.fileKeys ∧ confirmedMissing inv path = true := by
    cases fullScan <;> simp
  simp only [finishPrepare, Finset.mem_union, hexcluded, hswept, or_assoc]

/-- Why a full refresh deletes the records of a path. -/
theorem mem_deletePaths {pending : Option PendingIngest} {emptyIndexRebuild : Bool}
    {found : LocalDiscovery} {session : CheckpointSession} {opencode : OpencodeDiscovery}
    {nextDocId : Nat} {path : String} :
    path ∈ (finishPrepare inv options durable pending emptyIndexRebuild true found session opencode
        nextDocId).deletePaths ↔
      path ∈ (pending.map PendingIngest.sourcePaths).getD ∅ ∨
        path ∈ opencode.databasePathsToDelete ∨ path ∈ opencode.legacyPathsToDelete ∨
        (path ∈ session.fileKeys ∧ confirmedMissing inv path = true) ∨
        path ∈ found.bob.missingPaths ∨ path ∈ found.supersededPaths ∨
        path ∈ found.excludedStatePaths ∨
        (path ∈ durable.indexedPaths ∧ options.excluder.isExcluded path = true) ∨
        path ∈ deleteFirstPaths
          (found.transcripts.tasks ++ found.bob.tasks ++ opencode.tasks) := by
  rw [mem_deletePaths_iff_of_scan]
  simp only [true_and]

/-- A pass that prepared a refresh settled OpenCode as well. -/
theorem preparePass_eq_prepared {pending : Option PendingIngest} {emptyIndexRebuild : Bool}
    {session : CheckpointSession} {selected : Option Selection} {journalNarrowed : Bool}
    {scanCache : Option ScanCache} {refresh : PreparedRefresh}
    (h : preparePass inv options durable pending emptyIndexRebuild session selected
      journalNarrowed scanCache = .prepared refresh) :
    ∃ found state opencode nextDocId,
      discoverLocal inv options durable pending session selected journalNarrowed scanCache =
          some found ∧
        discoverOpencode inv options found.state (selected.map fun selection =>
            selection.databases.filter fun file => file.source ≠ .bob) pending
          durable.indexedPaths found.state.nextDocId = .done (state, opencode, nextDocId) ∧
        refresh = finishPrepare inv options durable pending emptyIndexRebuild selected.isNone
          found state opencode nextDocId := by
  unfold preparePass at h
  cases hlocal : discoverLocal inv options durable pending session selected journalNarrowed
      scanCache with
  | none =>
      rw [hlocal] at h
      cases h
  | some found =>
      rw [hlocal] at h
      dsimp only at h
      split at h
      · cases h
      · cases h
      · rename_i state opencode nextDocId hopencode
        cases h
        exact ⟨found, state, opencode, nextDocId, rfl, hopencode, rfl⟩

/-- A pass escalates only while settling OpenCode, and hands its session over
as the local discovery left it. -/
theorem preparePass_eq_escalated {pending : Option PendingIngest} {emptyIndexRebuild : Bool}
    {session state : CheckpointSession} {selected : Option Selection} {journalNarrowed : Bool}
    {scanCache carried : Option ScanCache}
    (h : preparePass inv options durable pending emptyIndexRebuild session selected
      journalNarrowed scanCache = .escalated state carried) :
    ∃ found,
      discoverLocal inv options durable pending session selected journalNarrowed scanCache =
          some found ∧
        discoverOpencode inv options found.state (selected.map fun selection =>
            selection.databases.filter fun file => file.source ≠ .bob) pending
          durable.indexedPaths found.state.nextDocId = .escalated ∧
        state = found.state ∧ carried = found.scanCache := by
  unfold preparePass at h
  cases hlocal : discoverLocal inv options durable pending session selected journalNarrowed
      scanCache with
  | none =>
      rw [hlocal] at h
      cases h
  | some found =>
      rw [hlocal] at h
      dsimp only at h
      split at h
      · cases h
      · rename_i hopencode
        cases h
        exact ⟨found, rfl, hopencode, rfl, rfl⟩
      · cases h

/-- A recovering refresh cannot be narrowed. -/
theorem usableSelection_of_recovering {recovered : RecoveredCheckpoint}
    (h : recovered.pendingRecovery.isSome) (narrowing : Narrowing) :
    usableSelection recovered narrowing = none := by
  have hsome : recovered.pendingRecovery.isNone = false := by
    rw [← Option.not_isSome, h]
    rfl
  cases narrowing <;> simp [usableSelection, hsome]

/-- The pass that prepared the refresh: the first one, or the full one after
an escalation. -/
theorem prepareRefresh_eq_some {recovered : RecoveredCheckpoint} {narrowing : Narrowing}
    {prepared : PreparedRefresh}
    (h : prepareRefresh inv options durable recovered narrowing = some prepared) :
    (preparePass inv options durable recovered.pendingRecovery recovered.emptyIndexRebuild
        (carriedJournalCursor recovered.state narrowing) (usableSelection recovered narrowing)
        (isJournal narrowing && (usableSelection recovered narrowing).isSome) none =
          .prepared prepared) ∨
      ∃ state scanCache,
        preparePass inv options durable recovered.pendingRecovery recovered.emptyIndexRebuild
            (carriedJournalCursor recovered.state narrowing) (usableSelection recovered narrowing)
            (isJournal narrowing && (usableSelection recovered narrowing).isSome) none =
          .escalated state scanCache ∧
        preparePass inv options durable recovered.pendingRecovery recovered.emptyIndexRebuild
            state none false scanCache = .prepared prepared := by
  unfold prepareRefresh at h
  dsimp only at h
  split at h
  · cases h
  · rename_i hpass
    cases h
    exact .inl hpass
  · rename_i state scanCache hpass
    split at h
    · rename_i hfull
      cases h
      exact .inr ⟨state, scanCache, hpass, hfull⟩
    · cases h

section Frame

variable {recovered : RecoveredCheckpoint} {narrowing : Narrowing} {prepared : PreparedRefresh}

/-- The pass that prepared the refresh started from the recovered counter,
databases and intent and from some of the recovered rows, on all sources if it
recovers. -/
theorem prepareRefresh_pass
    (h : prepareRefresh inv options durable recovered narrowing = some prepared) :
    ∃ session selected journalNarrowed scanCache,
      SameBase recovered.state session ∧
        (recovered.pendingRecovery.isSome → selected = none) ∧
        (∀ selection ∈ selected, usableSelection recovered narrowing = some selection) ∧
        (recovered.state.Coherent → session.Coherent ∧
          session.rows.keys ⊆ recovered.state.rows.keys) ∧
        preparePass inv options durable recovered.pendingRecovery recovered.emptyIndexRebuild
          session selected journalNarrowed scanCache = .prepared prepared := by
  have hcarried := carriedJournalCursor_sameBase recovered.state narrowing
  have hdrops (hcoherent : recovered.state.Coherent) :
      Drops recovered.state (carriedJournalCursor recovered.state narrowing) ∅ := by
    cases narrowing <;> exact Drops.congr hcoherent rfl rfl rfl
  rcases prepareRefresh_eq_some h with hpass | ⟨state, scanCache, hescalated, hpass⟩
  · refine ⟨_, _, _, _, hcarried, fun hsome => usableSelection_of_recovering hsome narrowing,
      fun _ hselection => hselection, fun hcoherent => ⟨(hdrops hcoherent).coherent, ?_⟩, hpass⟩
    rw [(hdrops hcoherent).keys]
    exact Finset.sdiff_subset
  · obtain ⟨found, hlocal, -, rfl, -⟩ := preparePass_eq_escalated hescalated
    refine ⟨_, _, _, _, hcarried.trans (discoverLocal_sameBase hlocal), fun _ => rfl,
      fun _ hselection => absurd hselection (Option.not_mem_none _), fun hcoherent => ?_, hpass⟩
    have hall := (hdrops hcoherent).trans
      (discoverLocal_drops (hdrops hcoherent).coherent hlocal).1
    refine ⟨hall.coherent, ?_⟩
    rw [hall.keys]
    exact Finset.sdiff_subset

/-- Preparing draws ids only for the spools and leaves the counter, the
databases and the intent of the session alone. -/
theorem prepareRefresh_frame
    (h : prepareRefresh inv options durable recovered narrowing = some prepared) :
    SameBase recovered.state prepared.state ∧
      prepared.recoveringPendingIngest = recovered.pendingRecovery.isSome ∧
      recovered.state.nextDocId ≤ prepared.nextDocId ∧
      (prepared.nextDocId ≤ docIdLimit → IdsWithin recovered.state.nextDocId prepared.nextDocId
        (prepared.opencodeReadyDatabases.flatMap PreparedOpencodeDatabase.spool)) := by
  obtain ⟨session, selected, journalNarrowed, scanCache, hsession, -, -, -, hpass⟩ :=
    prepareRefresh_pass h
  obtain ⟨found, state, opencode, nextDocId, hlocal, hopencode, rfl⟩ :=
    preparePass_eq_prepared hpass
  have hfound := hsession.trans (discoverLocal_sameBase hlocal)
  have hstate := hfound.trans (discoverOpencode_sameBase hopencode)
  have hids := discoverOpencode_idsWithin hopencode
  rw [hfound.nextDocId] at hids
  exact ⟨hstate.trans (finishPrepare_sameBase _ _ _ _ _ _ _), rfl, hids⟩

end Frame

end Results

end Memex.Ingest
