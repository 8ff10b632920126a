import Memex.Ingest.Prepare

/-! # Escalation to a full discovery

A narrowed refresh that cannot settle OpenCode starts over as a full one, on
the session it has already edited. What a full discovery deletes is a function
of the rows it starts from, so the rows dropped by the abandoned discovery are
still deleted only when something other than the row speaks for it. -/

namespace Memex.Ingest

open Overlay State

section Full

variable (inv : Inventory) (options : IngestOptions) (durable : Durable)

/-- What a full discovery settles before it looks at any row: the resolved
transcripts and the scanned databases. -/
structure FullAnswers where
  resolved : List (SourceFile × List String)
  scan : OpencodeScan

variable (states : Table String OpencodeDatabaseState) (answers : FullAnswers)

/-- Whether a database owns a legacy session. -/
def FullAnswers.ownsLegacy : String → Bool :=
  databaseOwnsLegacy inv answers.scan.ready (answers.scan.owner states)

/-- A projection superseded by the winner of its conversation. -/
def Superseded (resolved : List (SourceFile × List String)) (path : String) : Prop :=
  ∃ entry ∈ resolved, path ∈ entry.2

/-- A tracked path whose row a full discovery drops. -/
def FullDrops (path : String) : Prop :=
  options.excluder.isExcluded path = true ∨ Superseded answers.resolved path ∨
    (options.includeBob = true ∧ BobGone inv options inv.bobDatabases path) ∨
    LegacyOwned options (answers.ownsLegacy inv states) inv.opencodeSessions path ∨
    confirmedMissing inv path = true

/-- A path whose records a full discovery deletes whether it is tracked or
not. -/
def FullDeletesUntracked (path : String) : Prop :=
  path ∈ answers.scan.pathsToDelete states ∨
    (LegacyOwned options (answers.ownsLegacy inv states) inv.opencodeSessions path ∧
      (path ∈ durable.indexedPaths ∨ path ∈ inv.analyticsPaths)) ∨
    (Superseded answers.resolved path ∧
      (path ∈ durable.indexedPaths ∨ path ∈ inv.analyticsPaths)) ∨
    (path ∈ durable.indexedPaths ∧ options.excluder.isExcluded path = true)

/-- A path that is read again from scratch, for the row it has. -/
def FullReplaces (path : String) (row : Option FileState) : Prop :=
  TranscriptReplaced inv options (sortFiles (answers.resolved.map Prod.fst)) path row ∨
    (options.includeBob = true ∧
      BobReplaced inv options (inv.bobDatabases.flatMap (readableTasks inv options)) path row) ∨
    LegacyReplaced inv options (answers.ownsLegacy inv states) inv.opencodeSessions path row

/-- A path whose records a full discovery deletes, for the row it has. -/
def FullDeletes (path : String) (row : Option FileState) : Prop :=
  (row.isSome = true ∧ FullDrops inv options states answers path) ∨
    FullDeletesUntracked inv options durable states answers path ∨
    FullReplaces inv options states answers path row

/-- Without a row nothing is replaced. -/
theorem not_fullReplaces_none (path : String) :
    ¬ FullReplaces inv options states answers path none := by
  rintro (⟨file, -, -, -, metadata, -, hfirst⟩ | ⟨-, entry, -, -, -, hfirst⟩ |
    ⟨-, -, -, metadata, -, hfirst⟩)
  · rw [prepareFileTask_new] at hfirst
    cases hfirst
  · rw [bobFileTask_new] at hfirst
    cases hfirst
  · rw [prepareFileTask_new] at hfirst
    cases hfirst

variable {inv options durable states answers}

theorem mem_superseded {resolved : List (SourceFile × List String)} {path : String} :
    path ∈ (resolved.flatMap Prod.snd).toFinset ↔ Superseded resolved path := by
  simp [Superseded]

/-- The databases of Bob that a discovery reads. -/
def bobDatabasesOf (inv : Inventory) (selected : Option Selection) : List String :=
  bobDatabasesToRead inv (selected.map fun selection =>
    selection.databases.filter fun file => file.source = .bob)

/-- The transcripts that a discovery looks at. -/
def transcriptsOf (inv : Inventory) (selected : Option Selection) : List SourceFile :=
  (selected.map Selection.files).getD inv.transcripts

theorem map_markRecoveredBobTask_none (tasks : List FileTask) :
    tasks.map (markRecoveredBobTask none) = tasks := by
  have hid : markRecoveredBobTask none = id := rfl
  rw [hid, List.map_id]

/-- A local discovery without recovery, by the rows it starts from. -/
theorem discoverLocal_closed {session : CheckpointSession} {selected : Option Selection}
    {journalNarrowed : Bool} {scanCache : Option ScanCache} {found : LocalDiscovery}
    (hsession : session.Coherent)
    (h : discoverLocal inv options durable none session selected journalNarrowed scanCache =
      some found) :
    ∃ resolved,
      (transcriptsOf inv selected).mapM (resolveProjection inv options.excluder) = some resolved ∧
      (∀ path, path ∈ found.supersededPaths ↔ Superseded resolved path ∧
        (path ∈ durable.indexedPaths ∨ path ∈ inv.analyticsPaths ∨
          (path ∈ session.rows.keys ∧ path ∉ found.excludedStatePaths))) ∧
      (∀ path, path ∈ found.bob.missingPaths ↔
        (path ∈ session.rows.keys ∧ path ∉ found.excludedStatePaths ∪ found.supersededPaths) ∧
          options.includeBob = true ∧ BobGone inv options (bobDatabasesOf inv selected) path) ∧
      (∀ path ∉ found.excludedStatePaths ∪ found.supersededPaths ∪ found.bob.missingPaths,
        path ∈ deleteFirstPaths (found.transcripts.tasks ++ found.bob.tasks) ↔
          TranscriptReplaced inv options (sortFiles (resolved.map Prod.fst)) path
            (session.rows.lookup path) ∨
          (options.includeBob = true ∧ BobReplaced inv options
            ((bobDatabasesOf inv selected).flatMap (readableTasks inv options)) path
              (session.rows.lookup path))) := by
  obtain ⟨entered, walked, read, bob,
      hentered, hwalk, hstamped, hsuperseded, hread, hbob, hfound⟩ :=
    discoverLocal_stages hsession h
  obtain ⟨resolved, hresolved, hprojections, htranscripts⟩ :=
    discoverTranscripts_deleteFirst hentered.coherent hwalk
  have hlookup {other : CheckpointSession} {removed : Finset String}
      (hdrops : Drops session other removed) {path : String} (hpath : path ∉ removed) :
      other.rows.lookup path = session.rows.lookup path := by
    rw [hdrops.rows, lookup_eraseAll, if_neg hpath]
  refine ⟨resolved, hresolved, fun path => ?_, ?_⟩
  · rw [hsuperseded, supersededPaths, Finset.mem_filter, hprojections, mem_superseded,
      hstamped.coherent.containsFile_iff, hstamped.keys, Finset.mem_sdiff]
  · have hbobTasks : found.bob.tasks = bob.tasks := by
      rw [hfound]
      exact map_markRecoveredBobTask_none bob.tasks
    have hbobMissing : found.bob.missingPaths = bob.missingPaths := by rw [hfound]
    rw [hbobTasks, hbobMissing, deleteFirstPaths_append]
    cases hinclude : options.includeBob with
    | false =>
        have hnone : bob = {} := by
          have heq : discoverBob inv options read (selected.map fun selection =>
              selection.databases.filter fun file => file.source = .bob) = (read, {}) := by
            unfold discoverBob
            rw [if_neg (by simp [hinclude])]
          rw [heq] at hbob
          exact (Prod.ext_iff.mp hbob).2.symm
        refine ⟨fun path => by simp [hnone], fun path hpath => ?_⟩
        have hexcluded : path ∉ found.excludedStatePaths := fun hmem =>
          hpath (Finset.mem_union_left _ (Finset.mem_union_left _ hmem))
        rw [Finset.mem_union, htranscripts, hlookup hentered hexcluded, hnone]
        simp [deleteFirstPaths]
    | true =>
        obtain ⟨hmissing, hfirst, hcovered⟩ := discoverBob_closed hread.coherent
          (selected.map fun selection =>
            selection.databases.filter fun file => file.source = .bob) hinclude
        rw [hbob] at hmissing hfirst hcovered
        refine ⟨fun path => ?_, fun path hpath => ?_⟩
        · have hpath := hmissing path
          rw [hread.keys, Finset.mem_sdiff] at hpath
          rw [hpath]
          exact and_congr_right fun _ => (and_iff_right rfl).symm
        · rw [Finset.mem_union, not_or] at hpath
          obtain ⟨hearlier, hnotMissing⟩ := hpath
          have hexcluded : path ∉ found.excludedStatePaths := fun hmem =>
            hearlier (Finset.mem_union_left _ hmem)
          rw [Finset.mem_union, htranscripts, hlookup hentered hexcluded]
          refine or_congr_right ?_
          have hbobFirst := hfirst path
          have hbobCovered := hcovered path
          rw [hlookup hread hearlier] at hbobFirst hbobCovered
          refine ⟨fun hmem => ⟨rfl, hbobFirst hmem⟩, fun hmem => ?_⟩
          rcases hbobCovered hmem.2 with hmem | hmem
          · exact absurd hmem hnotMissing
          · exact hmem

theorem mem_excludedStatePaths {session : CheckpointSession} (hsession : session.Coherent)
    {path : String} : path ∈ excludedStatePaths options session true ↔
      path ∈ session.rows.keys ∧ options.excluder.isExcluded path = true := by
  unfold excludedStatePaths
  rw [hsession.fileKeys_eq]
  cases hset : options.excluder.set.isSome with
  | true => simp
  | false =>
      have hnone : options.excluder.isExcluded path ≠ true := by
        intro h
        rw [isSome_set_of_isExcluded h] at hset
        cases hset
      simp [hnone]

variable (inv options durable) in
/-- The lists of a full discovery without recovery, by the rows it starts
from. -/
structure FullPass (session : CheckpointSession) (found : LocalDiscovery)
    (state : CheckpointSession) (opencode : OpencodeDiscovery) (answers : FullAnswers) : Prop where
  coherent : state.Coherent
  excluded : ∀ path, path ∈ found.excludedStatePaths ↔
    path ∈ session.rows.keys ∧ options.excluder.isExcluded path = true
  superseded : ∀ path, path ∈ found.supersededPaths ↔ Superseded answers.resolved path ∧
    (path ∈ durable.indexedPaths ∨ path ∈ inv.analyticsPaths ∨
      (path ∈ session.rows.keys ∧ path ∉ found.excludedStatePaths))
  missing : ∀ path, path ∈ found.bob.missingPaths ↔
    (path ∈ session.rows.keys ∧ path ∉ found.excludedStatePaths ∪ found.supersededPaths) ∧
      options.includeBob = true ∧ BobGone inv options inv.bobDatabases path
  legacy : ∀ path, path ∈ opencode.legacyPathsToDelete ↔
    LegacyOwned options (answers.ownsLegacy inv session.opencodeDatabases)
        inv.opencodeSessions path ∧
      ((path ∈ session.rows.keys ∧ path ∉ found.excludedStatePaths ∪ found.supersededPaths ∪
        found.bob.missingPaths) ∨ path ∈ durable.indexedPaths ∨ path ∈ inv.analyticsPaths)
  tracked : ∀ path, path ∈ state.fileKeys ↔
    path ∈ session.rows.keys ∧ path ∉ found.excludedStatePaths ∪ found.supersededPaths ∪
      found.bob.missingPaths ∪ opencode.legacyPathsToDelete
  databases : opencode.databasePathsToDelete = answers.scan.pathsToDelete session.opencodeDatabases
  replaced : ∀ path ∉ found.excludedStatePaths ∪ found.supersededPaths ∪ found.bob.missingPaths,
    path ∈ deleteFirstPaths (found.transcripts.tasks ++ found.bob.tasks ++ opencode.tasks) ↔
      FullReplaces inv options session.opencodeDatabases answers path (session.rows.lookup path)

theorem preparePass_fullPass {session : CheckpointSession}
    {emptyIndexRebuild journalNarrowed : Bool} {scanCache : Option ScanCache}
    {refresh : PreparedRefresh} (hsession : session.Coherent)
    (hinclude : options.includeOpencode = true)
    (h : preparePass inv options durable none emptyIndexRebuild session none journalNarrowed
      scanCache = .prepared refresh) :
    ∃ found state opencode nextDocId answers after,
      refresh = finishPrepare inv options durable none emptyIndexRebuild true found state opencode
          nextDocId ∧
        inv.transcripts.mapM (resolveProjection inv options.excluder) = some answers.resolved ∧
        scanOpencodeDatabases inv options true session.opencodeDatabases none session.nextDocId
          inv.opencodeDatabases = .done (answers.scan, after) ∧
        FullPass inv options durable session found state opencode answers := by
  obtain ⟨found, state, opencode, nextDocId, hlocal, hopencode, rfl⟩ :=
    preparePass_eq_prepared h
  obtain ⟨-, -, -, hexcludedPaths, -⟩ := discoverLocal_eq_some hlocal
  obtain ⟨resolved, hresolved, hsuperseded, hmissing, hfirst⟩ :=
    discoverLocal_closed hsession hlocal
  obtain ⟨hlocalDrops, -, -⟩ := discoverLocal_drops hsession hlocal
  have hbase := discoverLocal_sameBase hlocal
  rcases discoverOpencode_eq_done hopencode with ⟨-, -, -, hoff⟩ | ⟨-, scan, hscan, hsettle⟩
  · rcases hoff with hoff | hoff
    · rw [hinclude] at hoff
      cases hoff
    · cases hoff
  rw [hbase.opencodeDatabases, hbase.nextDocId] at hscan
  obtain ⟨hlegacy, hlegacyFirst⟩ := settleLegacy_closed hlocalDrops.coherent
    (scanOpencodeDatabases_fullScan hscan) hsettle
  have hstateDrops := hlocalDrops.trans (settleLegacy_drops hlocalDrops.coherent hsettle)
  have hsame := (settleLegacy_frame hsettle).2
  rw [hbase.opencodeDatabases] at hlegacy hlegacyFirst hsame
  refine ⟨found, state, opencode, nextDocId, ⟨resolved, scan⟩, nextDocId, rfl, hresolved, hscan, ?_⟩
  exact
    { coherent := hstateDrops.coherent
      excluded := fun path => by
        rw [hexcludedPaths]
        exact mem_excludedStatePaths hsession
      superseded := hsuperseded
      missing := hmissing
      legacy := fun path => by
        rw [hlegacy, hlocalDrops.keys, Finset.mem_sdiff]
        rfl
      tracked := fun path => by
        rw [hstateDrops.coherent.fileKeys_eq, hstateDrops.keys, Finset.mem_sdiff]
      databases := hsame.databasePathsToDelete
      replaced := fun path hpath => by
        have hrow : found.state.rows.lookup path = session.rows.lookup path := by
          rw [hlocalDrops.rows, lookup_eraseAll, if_neg hpath]
        rw [deleteFirstPaths_append, Finset.mem_union, hfirst path hpath, hlegacyFirst, hrow,
          or_assoc]
        rfl }

namespace FullPass

variable {session : CheckpointSession} {found : LocalDiscovery} {state : CheckpointSession}
  {opencode : OpencodeDiscovery} {path : String}

/-- The paths dropped before OpenCode is looked at. -/
theorem dropped_iff (h : FullPass inv options durable session found state opencode answers)
    (hrow : path ∈ session.rows.keys) :
    path ∈ found.excludedStatePaths ∪ found.supersededPaths ∪ found.bob.missingPaths ↔
      options.excluder.isExcluded path = true ∨ Superseded answers.resolved path ∨
        (options.includeBob = true ∧ BobGone inv options inv.bobDatabases path) := by
  rw [Finset.mem_union, h.missing, Finset.mem_union, h.superseded, h.excluded]
  simp only [hrow, true_and]
  generalize (options.excluder.isExcluded path = true) = excluded
  generalize Superseded answers.resolved path = superseded
  generalize (options.includeBob = true ∧ BobGone inv options inv.bobDatabases path) = gone
  tauto

/-- A path without a row is dropped only as a known superseded projection. -/
theorem dropped_of_untracked
    (h : FullPass inv options durable session found state opencode answers)
    (hrow : path ∉ session.rows.keys)
    (hdropped : path ∈ found.excludedStatePaths ∪ found.supersededPaths ∪ found.bob.missingPaths) :
    Superseded answers.resolved path ∧
      (path ∈ durable.indexedPaths ∨ path ∈ inv.analyticsPaths) := by
  rcases Finset.mem_union.mp hdropped with hearly | hearly
  · rcases Finset.mem_union.mp hearly with hearly | hearly
    · exact absurd ((h.excluded path).mp hearly).1 hrow
    · obtain ⟨hsuperseded, hindexed | hcatalogued | ⟨htracked, -⟩⟩ := (h.superseded path).mp hearly
      · exact ⟨hsuperseded, .inl hindexed⟩
      · exact ⟨hsuperseded, .inr hcatalogued⟩
      · exact absurd htracked hrow
  · exact absurd ((h.missing path).mp hearly).1.1 hrow

/-- A path that is not dropped is no known superseded projection. -/
theorem not_superseded (h : FullPass inv options durable session found state opencode answers)
    (hdropped : path ∉ found.excludedStatePaths ∪ found.supersededPaths ∪ found.bob.missingPaths) :
    ¬ (Superseded answers.resolved path ∧
      (path ∈ durable.indexedPaths ∨ path ∈ inv.analyticsPaths)) := by
  rintro ⟨hsuperseded, hknown⟩
  refine hdropped (Finset.mem_union_left _ (Finset.mem_union_right _ ?_))
  rw [h.superseded]
  rcases hknown with hindexed | hcatalogued
  · exact ⟨hsuperseded, .inl hindexed⟩
  · exact ⟨hsuperseded, .inr (.inl hcatalogued)⟩

private theorem deletes_of_kept (absent owned missing known replaces : Prop) :
    (absent ∨ owned ∨ (¬ owned ∧ missing) ∨ replaces) ↔
      (owned ∨ missing) ∨ (absent ∨ (owned ∧ known)) ∨ replaces := by
  tauto

/-- What a full discovery deletes, by the rows it starts from. -/
theorem mem_deletePaths_iff
    (h : FullPass inv options durable session found state opencode answers)
    {emptyIndexRebuild : Bool} {nextDocId : Nat} :
    path ∈ (finishPrepare inv options durable none emptyIndexRebuild true found state opencode
        nextDocId).deletePaths ↔
      FullDeletes inv options durable session.opencodeDatabases answers path
        (session.rows.lookup path) := by
  have htracked : (session.rows.lookup path).isSome = true ↔ path ∈ session.rows.keys := by
    rw [Finmap.lookup_isSome, Finmap.mem_keys]
  rw [mem_deletePaths, h.tracked, Finset.mem_union, h.databases]
  unfold FullDeletes
  rw [htracked]
  by_cases hdropped :
      path ∈ found.excludedStatePaths ∪ found.supersededPaths ∪ found.bob.missingPaths
  · refine iff_of_true ?_ ?_
    · rcases Finset.mem_union.mp hdropped with hearly | hearly
      · rcases Finset.mem_union.mp hearly with hearly | hearly
        · simp [hearly]
        · simp [hearly]
      · simp [hearly]
    · by_cases hrow : path ∈ session.rows.keys
      · refine .inl ⟨hrow, ?_⟩
        rcases (h.dropped_iff hrow).mp hdropped with hwhy | hwhy | hwhy
        · exact .inl hwhy
        · exact .inr (.inl hwhy)
        · exact .inr (.inr (.inl hwhy))
      · exact .inr (.inl (.inr (.inr (.inl (h.dropped_of_untracked hrow hdropped)))))
  · have hnot : path ∉ found.excludedStatePaths ∧ path ∉ found.supersededPaths ∧
        path ∉ found.bob.missingPaths := by
      rw [Finset.mem_union, Finset.mem_union, not_or, not_or] at hdropped
      exact ⟨hdropped.1.1, hdropped.1.2, hdropped.2⟩
    have hsuperseded := h.not_superseded hdropped
    have hlegacy := h.legacy path
    rw [h.replaced path hdropped]
    simp only [hdropped, not_false_eq_true, and_true] at hlegacy
    unfold FullDeletesUntracked FullDrops
    simp only [hdropped, hnot, hlegacy, hsuperseded, false_or, Option.map_none, Option.getD_none,
      Finset.notMem_empty]
    generalize FullReplaces inv options session.opencodeDatabases answers path
      (session.rows.lookup path) = replaces
    by_cases hrow : path ∈ session.rows.keys
    · have hkept := (h.dropped_iff hrow).not.mp hdropped
      simp only [not_or] at hkept
      obtain ⟨hincluded, hwinner, hlisted⟩ := hkept
      simp only [hrow, hincluded, hwinner, hlisted, true_and, true_or, and_true, false_or]
      simp only [Bool.false_eq_true, and_false, or_false, false_or]
      exact deletes_of_kept _ _ _ _ _
    · simp only [hrow, false_and, false_or, or_assoc]

/-- The rows a full discovery keeps, by the rows it starts from. -/
theorem mem_rows_iff (h : FullPass inv options durable session found state opencode answers)
    {emptyIndexRebuild : Bool} {nextDocId : Nat} :
    path ∈ (finishPrepare inv options durable none emptyIndexRebuild true found state opencode
        nextDocId).state.rows.keys ↔
      path ∈ session.rows.keys ∧
        ¬ FullDrops inv options session.opencodeDatabases answers path := by
  have hswept := Drops.deleteFiles h.coherent (state.fileKeys.filter fun path =>
    confirmedMissing inv path = true)
  have hstate : (finishPrepare inv options durable none emptyIndexRebuild true found state
      opencode nextDocId).state.rows.keys =
        (state.deleteFiles (state.fileKeys.filter fun path =>
          confirmedMissing inv path = true)).rows.keys := by
    simp only [finishPrepare, if_true]
    exact (keys_foldl_updateIdentity _ hswept.coherent).2
  rw [hstate, hswept.keys, ← h.coherent.fileKeys_eq, Finset.mem_sdiff, Finset.mem_filter,
    h.tracked, Finset.mem_union, h.legacy]
  by_cases hrow : path ∈ session.rows.keys
  · rw [h.dropped_iff hrow]
    unfold FullDrops
    simp only [hrow, true_and]
    generalize (options.excluder.isExcluded path = true) = excluded
    generalize Superseded answers.resolved path = superseded
    generalize (options.includeBob = true ∧ BobGone inv options inv.bobDatabases path) = gone
    generalize LegacyOwned options _ _ path = owned
    grind
  · simp only [hrow, false_and]

end FullPass

end Full

section Escalated

variable (inv : Inventory) (options : IngestOptions) (start : Durable)

/-- A projection superseded by the winner of a listed transcript. -/
def SupersededIn (files : List SourceFile) (path : String) : Prop :=
  ∃ file ∈ files, ∃ entry, resolveProjection inv options.excluder file = some entry ∧
    path ∈ entry.2

/-- A path whose row a discovery narrowed to the selection drops. -/
def NarrowedDrops (selection : Selection) (path : String) : Prop :=
  SupersededIn inv options selection.files path ∨
    (options.includeBob = true ∧
      BobGone inv options (bobDatabasesOf inv (some selection)) path)

/-- A path whose row a full discovery drops, OpenCode apart. -/
def StaleRow (path : String) : Prop :=
  options.excluder.isExcluded path = true ∨ SupersededIn inv options inv.transcripts path ∨
    (options.includeBob = true ∧ BobGone inv options inv.bobDatabases path) ∨
    confirmedMissing inv path = true

/-- A path that OpenCode speaks for without a row of its own: a known legacy
session that a database owns, or a stored database that is gone and whose row
a full discovery drops too. -/
def OpencodeDeletes (path : String) : Prop :=
  ∃ scan nextDocId, scanOpencodeDatabases inv options true start.checkpoint.opencodeDatabases none
      start.checkpoint.nextDocId inv.opencodeDatabases = .done (scan, nextDocId) ∧
    let owned := LegacyOwned options (databaseOwnsLegacy inv scan.ready
      (scan.owner start.checkpoint.opencodeDatabases)) inv.opencodeSessions path
    (owned ∧ (path ∈ start.indexedPaths ∨ path ∈ inv.analyticsPaths)) ∨
      (path ∈ scan.pathsToDelete start.checkpoint.opencodeDatabases ∧
        (StaleRow inv options path ∨ owned))

/-- A path that a full discovery deletes without its row: it is indexed and
excluded, a known projection that is superseded again, or OpenCode's. -/
def DeletedWithoutRow (path : String) : Prop :=
  (path ∈ start.indexedPaths ∧ options.excluder.isExcluded path = true) ∨
    (SupersededIn inv options inv.transcripts path ∧
      (path ∈ start.indexedPaths ∨ path ∈ inv.analyticsPaths)) ∨
    OpencodeDeletes inv options start path

/-- The narrowed discovery escalates and leaves the abandoned session. -/
def Escalates (narrowing : Narrowing) (selection : Selection) (abandoned : CheckpointSession) :
    Prop :=
  usableSelection (recoverCheckpoint start).2 narrowing = some selection ∧
    ∃ scanCache, preparePass inv options (recoverCheckpoint start).1
      (recoverCheckpoint start).2.pendingRecovery (recoverCheckpoint start).2.emptyIndexRebuild
      (carriedJournalCursor (recoverCheckpoint start).2.state narrowing) (some selection)
      (isJournal narrowing && (some selection).isSome) none = .escalated abandoned scanCache

/-- The executed refresh deletes and drops what a refresh that was full from
the start does, and every path whose row the abandoned discovery dropped. -/
structure CoversFullRefresh (abandoned : CheckpointSession) (executed direct : PreparedRefresh) :
    Prop where
  deletePaths : executed.deletePaths = direct.deletePaths
  vectorDeletePaths : executed.vectorDeletePaths = direct.vectorDeletePaths
  rows : executed.state.rows.keys = direct.state.rows.keys
  abandoned : ∀ path ∈ start.checkpoint.files, path ∉ abandoned.rows.keys →
    path ∈ executed.deletePaths

variable {inv options start}

theorem superseded_iff {files : List SourceFile} {resolved : List (SourceFile × List String)}
    (h : files.mapM (resolveProjection inv options.excluder) = some resolved) {path : String} :
    Superseded resolved path ↔ SupersededIn inv options files path := by
  constructor
  · rintro ⟨entry, hentry, hpath⟩
    obtain ⟨file, hfile, heq⟩ := exists_of_mem_mapM h hentry
    exact ⟨file, hfile, entry, heq, hpath⟩
  · rintro ⟨file, hfile, entry, heq, hpath⟩
    obtain ⟨found, hfound, hanswer⟩ := exists_result_of_mem h hfile
    rw [heq] at hanswer
    cases hanswer
    exact ⟨entry, hfound, hpath⟩

/-- A refresh may be narrowed only when there is nothing to recover. -/
theorem recoverCheckpoint_of_usable {narrowing : Narrowing} {selection : Selection}
    (h : usableSelection (recoverCheckpoint start).2 narrowing = some selection) :
    recoverCheckpoint start =
      (start, ⟨CheckpointSession.open start.checkpoint, none, false⟩) := by
  have hnothing : (recoverCheckpoint start).2.pendingRecovery = none ∧
      (recoverCheckpoint start).2.emptyIndexRebuild = false := by
    have hguard (condition : Bool) (chosen : Option Selection)
        (h : (if (recoverCheckpoint start).2.pendingRecovery.isNone &&
          !(recoverCheckpoint start).2.emptyIndexRebuild && condition then chosen else none) =
            some selection) : (recoverCheckpoint start).2.pendingRecovery = none ∧
              (recoverCheckpoint start).2.emptyIndexRebuild = false := by
      split at h
      · rename_i hcase
        simp only [Bool.and_eq_true, Option.isNone_iff_eq_none, Bool.not_eq_true'] at hcase
        exact hcase.1
      · cases h
    cases narrowing with
    | dirty chosen => exact hguard true chosen (by simpa [usableSelection] using h)
    | journal cursor chosen =>
        exact hguard (!(recoverCheckpoint start).2.state.clearsFiles) chosen h
    | none => cases h
  obtain ⟨hpending, hrebuild⟩ := hnothing
  have hopen : (CheckpointSession.open start.checkpoint).pending = none := by
    obtain ⟨-, -, -, -, -, -, hrecovery⟩ := recoverCheckpoint_frame start
    rw [hpending] at hrecovery
    exact hrecovery.symm
  unfold recoverCheckpoint at hrebuild ⊢
  have hprepare : preparePendingIngestRecovery (CheckpointSession.open start.checkpoint) =
      (CheckpointSession.open start.checkpoint, none) := by
    unfold preparePendingIngestRecovery
    rw [hopen]
  rw [hprepare] at hrebuild ⊢
  dsimp only at hrebuild ⊢
  split at hrebuild
  · cases hrebuild
  · rename_i hcase
    rw [if_neg hcase]

private theorem or_iff_of_not (superseded gone : Prop) :
    superseded ∨ (¬ superseded ∧ gone) ↔ superseded ∨ gone := by
  tauto

/-- What the abandoned discovery has dropped, and what the full discoveries
after it and from the untouched checkpoint have in common. -/
theorem Escalates.full {narrowing : Narrowing} {selection : Selection}
    {abandoned : CheckpointSession} {executed direct : PreparedRefresh}
    (h : Escalates inv options start narrowing selection abandoned)
    (hexecuted : prepareRefresh inv options (recoverCheckpoint start).1
      (recoverCheckpoint start).2 narrowing = some executed)
    (hdirect : prepareRefresh inv options (recoverCheckpoint start).1
      (recoverCheckpoint start).2 .none = some direct) :
    ∃ answers dropped,
      (∀ path, Superseded answers.resolved path ↔
        SupersededIn inv options inv.transcripts path) ∧
      (∃ nextDocId, scanOpencodeDatabases inv options true start.checkpoint.opencodeDatabases none
        start.checkpoint.nextDocId inv.opencodeDatabases = .done (answers.scan, nextDocId)) ∧
      (∀ path ∈ start.checkpoint.files, path ∈ dropped ↔
        NarrowedDrops inv options selection path) ∧
      abandoned.rows = eraseAll dropped start.checkpoint.files ∧
      (∀ path, path ∈ executed.deletePaths ↔ FullDeletes inv options start
        start.checkpoint.opencodeDatabases answers path (abandoned.rows.lookup path)) ∧
      (∀ path, path ∈ direct.deletePaths ↔ FullDeletes inv options start
        start.checkpoint.opencodeDatabases answers path (start.checkpoint.files.lookup path)) ∧
      executed.vectorDeletePaths = executed.deletePaths ∧
      direct.vectorDeletePaths = direct.deletePaths ∧
      (∀ path, path ∈ executed.state.rows.keys ↔ path ∈ abandoned.rows.keys ∧
        ¬ FullDrops inv options start.checkpoint.opencodeDatabases answers path) ∧
      ∀ path, path ∈ direct.state.rows.keys ↔ path ∈ start.checkpoint.files.keys ∧
        ¬ FullDrops inv options start.checkpoint.opencodeDatabases answers path := by
  obtain ⟨husable, carried, hpass⟩ := h
  have hrecovered := recoverCheckpoint_of_usable husable
  have hcoherent : (CheckpointSession.open start.checkpoint).Coherent :=
    CheckpointSession.Coherent.of_open start.checkpoint
  have hrows : (CheckpointSession.open start.checkpoint).rows = start.checkpoint.files :=
    Patch.apply_empty _
  have hexecutedPass : preparePass inv options (recoverCheckpoint start).1
      (recoverCheckpoint start).2.pendingRecovery (recoverCheckpoint start).2.emptyIndexRebuild
      abandoned none false carried = .prepared executed := by
    unfold prepareRefresh at hexecuted
    dsimp only at hexecuted
    rw [husable, hpass] at hexecuted
    dsimp only at hexecuted
    split at hexecuted
    · rename_i hfull
      cases hexecuted
      exact hfull
    · cases hexecuted
  have hdirectPass : preparePass inv options (recoverCheckpoint start).1
      (recoverCheckpoint start).2.pendingRecovery (recoverCheckpoint start).2.emptyIndexRebuild
      (recoverCheckpoint start).2.state none false none = .prepared direct := by
    rcases prepareRefresh_eq_some hdirect with hfull | ⟨state, scanCache, hescalated, -⟩
    · exact hfull
    · obtain ⟨found, -, hopencode, -, -⟩ := preparePass_eq_escalated hescalated
      exact absurd (discoverOpencode_eq_escalated inv options hopencode).2
        (by simp [usableSelection])
  rw [hrecovered] at hpass hexecutedPass hdirectPass
  dsimp only at hpass hexecutedPass hdirectPass
  obtain ⟨found, hlocal, hopencode, rfl, -⟩ := preparePass_eq_escalated hpass
  have hinclude := (discoverOpencode_eq_escalated inv options hopencode).1
  -- the narrowed discovery
  have hcarried : Drops (CheckpointSession.open start.checkpoint)
      (carriedJournalCursor (CheckpointSession.open start.checkpoint) narrowing) ∅ := by
    cases narrowing <;> exact Drops.congr hcoherent rfl rfl rfl
  have hcarriedRows : (carriedJournalCursor (CheckpointSession.open start.checkpoint)
      narrowing).rows = start.checkpoint.files := by
    rw [hcarried.rows, eraseAll_empty, hrows]
  obtain ⟨hdrops, -, -⟩ := discoverLocal_drops hcarried.coherent hlocal
  have hbase := (carriedJournalCursor_sameBase (CheckpointSession.open start.checkpoint)
    narrowing).trans (discoverLocal_sameBase hlocal)
  obtain ⟨-, -, -, hexcluded, -⟩ := discoverLocal_eq_some hlocal
  obtain ⟨narrowed, hnarrowed, hsuperseded, hmissing, -⟩ :=
    discoverLocal_closed hcarried.coherent hlocal
  rw [hcarriedRows] at hsuperseded hmissing
  have hnoneExcluded : found.excludedStatePaths = ∅ := hexcluded
  -- the full discoveries have the same answers
  obtain ⟨found₁, state₁, opencode₁, next₁, executedAnswers, after₁, rfl, hresolved₁, hscan₁,
    hfull₁⟩ := preparePass_fullPass hdrops.coherent hinclude hexecutedPass
  obtain ⟨found₂, state₂, opencode₂, next₂, answers, after₂, rfl, hresolved₂, hscan₂, hfull₂⟩ :=
    preparePass_fullPass hcoherent hinclude hdirectPass
  have hstates : found.state.opencodeDatabases = start.checkpoint.opencodeDatabases :=
    hbase.opencodeDatabases
  have hsame : executedAnswers = answers := by
    have hnext : found.state.nextDocId = (CheckpointSession.open start.checkpoint).nextDocId :=
      hbase.nextDocId
    rw [hbase.opencodeDatabases, hnext, hscan₂] at hscan₁
    rw [hresolved₂] at hresolved₁
    injection hscan₁ with hscan
    obtain ⟨resolved, scan⟩ := answers
    obtain ⟨resolved', scan'⟩ := executedAnswers
    cases hscan
    cases hresolved₁
    rfl
  subst hsame
  have hdropsRows : found.state.rows = eraseAll
      (found.excludedStatePaths ∪ found.supersededPaths ∪ found.bob.missingPaths)
        start.checkpoint.files := by rw [hdrops.rows, hcarriedRows]
  have hnarrowed' : selection.files.mapM (resolveProjection inv options.excluder) =
      some narrowed := hnarrowed
  refine ⟨executedAnswers, _, fun path => superseded_iff hresolved₂, ⟨after₂, hscan₂⟩,
    fun path hpath => ?_, hdropsRows, fun path => ?_, fun path => ?_,
    by simp [finishPrepare], by simp [finishPrepare],
    fun path => ?_, fun path => ?_⟩
  · have htracked : path ∈ start.checkpoint.files.keys := Finmap.mem_keys.mpr hpath
    unfold NarrowedDrops
    rw [← superseded_iff hnarrowed', Finset.mem_union, hmissing, Finset.mem_union, hsuperseded,
      hnoneExcluded]
    simp only [htracked, Finset.notMem_empty, not_false_eq_true, and_true, or_true, false_or,
      true_and]
    exact or_iff_of_not (Superseded narrowed path) _
  · rw [hfull₁.mem_deletePaths_iff, hstates]
  · rw [hfull₂.mem_deletePaths_iff, hrows]
    rfl
  · rw [hfull₁.mem_rows_iff, hstates]
  · rw [hfull₂.mem_rows_iff, hrows]
    rfl

/-- What a full discovery deletes and drops without the row is what the
inventory says. -/
theorem deletedWithoutRow_iff {answers : FullAnswers} {path : String}
    (hsuperseded : ∀ path, Superseded answers.resolved path ↔
      SupersededIn inv options inv.transcripts path)
    (hscan : ∃ nextDocId, scanOpencodeDatabases inv options true
      start.checkpoint.opencodeDatabases none start.checkpoint.nextDocId inv.opencodeDatabases =
        .done (answers.scan, nextDocId)) :
    DeletedWithoutRow inv options start path ↔
      FullDeletesUntracked inv options start start.checkpoint.opencodeDatabases answers path ∧
        FullDrops inv options start.checkpoint.opencodeDatabases answers path := by
  obtain ⟨nextDocId, hscan⟩ := hscan
  have hopencode : OpencodeDeletes inv options start path ↔
      (LegacyOwned options (answers.ownsLegacy inv start.checkpoint.opencodeDatabases)
          inv.opencodeSessions path ∧
        (path ∈ start.indexedPaths ∨ path ∈ inv.analyticsPaths)) ∨
      (path ∈ answers.scan.pathsToDelete start.checkpoint.opencodeDatabases ∧
        (StaleRow inv options path ∨
          LegacyOwned options (answers.ownsLegacy inv start.checkpoint.opencodeDatabases)
            inv.opencodeSessions path)) := by
    constructor
    · rintro ⟨scan, next, heq, hdeletes⟩
      rw [hscan] at heq
      cases heq
      exact hdeletes
    · intro hdeletes
      exact ⟨answers.scan, nextDocId, hscan, hdeletes⟩
  unfold DeletedWithoutRow FullDeletesUntracked FullDrops
  rw [hopencode, hsuperseded]
  unfold StaleRow
  generalize LegacyOwned options _ inv.opencodeSessions path = owned
  generalize (options.includeBob = true ∧ BobGone inv options inv.bobDatabases path) = gone
  generalize SupersededIn inv options inv.transcripts path = superseded
  generalize (options.excluder.isExcluded path = true) = excluded
  generalize (confirmedMissing inv path = true) = missing
  generalize (path ∈ inv.analyticsPaths) = catalogued
  generalize (path ∈ start.indexedPaths) = indexed
  generalize (path ∈ answers.scan.pathsToDelete start.checkpoint.opencodeDatabases) = forgotten
  constructor
  · rintro (⟨hindexed, hexcluded⟩ | ⟨hsuperseded, hknown⟩ | ⟨howned, hknown⟩ | ⟨hforgotten, hdrops⟩)
    · exact ⟨.inr (.inr (.inr ⟨hindexed, hexcluded⟩)), .inl hexcluded⟩
    · exact ⟨.inr (.inr (.inl ⟨hsuperseded, hknown⟩)), .inr (.inl hsuperseded)⟩
    · exact ⟨.inr (.inl ⟨howned, hknown⟩), .inr (.inr (.inr (.inl howned)))⟩
    · refine ⟨.inl hforgotten, ?_⟩
      rcases hdrops with (hexcluded | hsuperseded | hgone | hmissing) | howned
      · exact .inl hexcluded
      · exact .inr (.inl hsuperseded)
      · exact .inr (.inr (.inl hgone))
      · exact .inr (.inr (.inr (.inr hmissing)))
      · exact .inr (.inr (.inr (.inl howned)))
  · rintro ⟨hforgotten | howned | hsuperseded | hexcluded, hdrops⟩
    · refine .inr (.inr (.inr ⟨hforgotten, ?_⟩))
      rcases hdrops with hexcluded | hsuperseded | hgone | howned | hmissing
      · exact .inl (.inl hexcluded)
      · exact .inl (.inr (.inl hsuperseded))
      · exact .inl (.inr (.inr (.inl hgone)))
      · exact .inr howned
      · exact .inl (.inr (.inr (.inr hmissing)))
    · exact .inr (.inr (.inl howned))
    · exact .inr (.inl hsuperseded)
    · exact .inl hexcluded

/-- After an escalation the executed refresh covers a refresh that was full from
the start exactly when every row the abandoned discovery dropped belongs to a
path that full discovery deletes without its row. -/
theorem escalation_covers_full_refresh (inv : Inventory) (options : IngestOptions)
    (start : Durable) (narrowing : Narrowing) (selection : Selection)
    (abandoned : CheckpointSession) (executed direct : PreparedRefresh)
    (hescalates : Escalates inv options start narrowing selection abandoned)
    (hexecuted : prepareRefresh inv options (recoverCheckpoint start).1
      (recoverCheckpoint start).2 narrowing = some executed)
    (hdirect : prepareRefresh inv options (recoverCheckpoint start).1
      (recoverCheckpoint start).2 .none = some direct) :
    CoversFullRefresh start abandoned executed direct ↔
      ∀ path ∈ start.checkpoint.files, NarrowedDrops inv options selection path →
        DeletedWithoutRow inv options start path := by
  obtain ⟨answers, dropped, hsuperseded, hscan, hdropped, hrows, hexecutedPaths, hdirectPaths,
    hexecutedVectors, hdirectVectors, hexecutedRows, hdirectRows⟩ :=
    hescalates.full hexecuted hdirect
  have hwithout (path : String) : DeletedWithoutRow inv options start path ↔
      FullDeletesUntracked inv options start start.checkpoint.opencodeDatabases answers path ∧
        FullDrops inv options start.checkpoint.opencodeDatabases answers path :=
    deletedWithoutRow_iff hsuperseded hscan
  have hlost {path : String} (hmem : path ∈ dropped) : abandoned.rows.lookup path = none := by
    rw [hrows, lookup_eraseAll, if_pos hmem]
  have hkept {path : String} (hmem : path ∉ dropped) :
      abandoned.rows.lookup path = start.checkpoint.files.lookup path := by
    rw [hrows, lookup_eraseAll, if_neg hmem]
  have hkeys (path : String) : path ∈ abandoned.rows.keys ↔
      path ∈ start.checkpoint.files.keys ∧ path ∉ dropped := by
    rw [hrows, keys_eraseAll, Finset.mem_sdiff]
  constructor
  · intro hcovers path htracked hnarrowed
    have hmem : path ∈ dropped := (hdropped path htracked).mpr hnarrowed
    have hgone : path ∉ abandoned.rows.keys := fun hin => ((hkeys path).mp hin).2 hmem
    have hdeleted := (hexecutedPaths path).mp (hcovers.abandoned path htracked hgone)
    rw [hlost hmem] at hdeleted
    have hdrops : FullDrops inv options start.checkpoint.opencodeDatabases answers path := by
      by_contra hstays
      have hdirect : path ∈ direct.state.rows.keys :=
        (hdirectRows path).mpr ⟨Finmap.mem_keys.mpr htracked, hstays⟩
      rw [← hcovers.rows, hexecutedRows] at hdirect
      exact hgone hdirect.1
    rw [hwithout]
    refine ⟨?_, hdrops⟩
    rcases hdeleted with ⟨hrow, -⟩ | hdeleted | hreplaced
    · cases hrow
    · exact hdeleted
    · exact absurd hreplaced (not_fullReplaces_none inv options _ answers path)
  · intro hcondition
    have hdeleted {path : String} (htracked : path ∈ start.checkpoint.files)
        (hmem : path ∈ dropped) :=
      (hwithout path).mp (hcondition path htracked ((hdropped path htracked).mp hmem))
    have hpaths : executed.deletePaths = direct.deletePaths := by
      ext path
      rw [hexecutedPaths, hdirectPaths]
      by_cases hmem : path ∈ dropped
      · by_cases htracked : path ∈ start.checkpoint.files
        · have huntracked := (hdeleted htracked hmem).1
          exact iff_of_true (.inr (.inl huntracked)) (.inr (.inl huntracked))
        · rw [hlost hmem, Finmap.lookup_eq_none.mpr htracked]
      · rw [hkept hmem]
    refine ⟨hpaths, ?_, ?_, fun path htracked hgone => ?_⟩
    · rw [hexecutedVectors, hdirectVectors, hpaths]
    · ext path
      rw [hexecutedRows, hdirectRows, hkeys, and_assoc, and_congr_right_iff]
      intro htracked
      refine ⟨And.right, fun hstays => ⟨fun hmem => ?_, hstays⟩⟩
      exact hstays (hdeleted (Finmap.mem_keys.mp htracked) hmem).2
    · have hmem : path ∈ dropped := by
        by_contra hstays
        exact hgone ((hkeys path).mpr ⟨Finmap.mem_keys.mpr htracked, hstays⟩)
      exact (hexecutedPaths path).mpr (.inr (.inl (hdeleted htracked hmem).1))

/-- A checkpoint with one indexed Bob task. -/
def indexedBobTask : Durable where
  checkpoint :=
    { nextDocId := 2
      files := Finmap.singleton "bob.db/t1"
        { size := 1, mtime := 0, offset := 0, turnId := 0
          identity := { bobDatabase := some "bob.db" } } }
  lexical := {{ docId := 1, sourcePath := "bob.db/t1", text := "hello" }}

/-- The Bob database lost its task and an OpenCode database has no row yet. -/
def vanishedBobTask : Inventory where
  bobDatabases := ["bob.db"]
  bobStore := fun _ => ⟨.found { len := 1 }, true, some []⟩
  bobOwner := fun key => if key = "bob.db/t1" then some "bob.db" else none
  opencodeDatabases := ["opencode.db"]
  opencodeStore := fun _ =>
    { stat := .found { len := 1 }
      scan := fun _ => some {}
      hydrate := fun _ _ => ⟨[], true⟩ }

/-- Bob and OpenCode, with the exclusion of the given paths. -/
def bobAndOpencode (excluded : Option (String → Bool)) : IngestOptions where
  includeBob := true
  includeOpencode := true
  excluder := { set := excluded, canonicalize := fun _ => none }

/-- Both databases changed in one batch of events. -/
def bothDatabases : Selection where
  files := []
  databases := [⟨.bob, "bob.db"⟩, ⟨.opencode, "opencode.db"⟩]

/-- A dropped task is covered when its path is excluded. -/
theorem escalation_covers_excluded_task :
    ∃ abandoned executed direct,
      CoversFullRefresh indexedBobTask abandoned executed direct ∧
        prepareRefresh vanishedBobTask (bobAndOpencode (some (· = "bob.db/t1")))
          (recoverCheckpoint indexedBobTask).1 (recoverCheckpoint indexedBobTask).2
          (.dirty (some bothDatabases)) = some executed :=
  ⟨_, _, _,
    (escalation_covers_full_refresh vanishedBobTask (bobAndOpencode (some (· = "bob.db/t1")))
      indexedBobTask (.dirty (some bothDatabases)) bothDatabases _ _ _ ⟨rfl, _, rfl⟩ rfl rfl).mpr
        (by
          intro path htracked _
          have hpath : path = "bob.db/t1" := Finmap.mem_singleton path _ _ |>.mp htracked
          subst hpath
          exact .inl ⟨by decide, by decide⟩),
    rfl⟩

/-- The task vanished from its database: the escalation forgets its row and
leaves its records. -/
theorem vanished_task_escapes_escalation :
    ∃ abandoned executed direct,
      Escalates vanishedBobTask (bobAndOpencode none) indexedBobTask (.dirty (some bothDatabases))
        bothDatabases abandoned ∧
      prepareRefresh vanishedBobTask (bobAndOpencode none) (recoverCheckpoint indexedBobTask).1
        (recoverCheckpoint indexedBobTask).2 (.dirty (some bothDatabases)) = some executed ∧
      prepareRefresh vanishedBobTask (bobAndOpencode none) (recoverCheckpoint indexedBobTask).1
        (recoverCheckpoint indexedBobTask).2 .none = some direct ∧
      "bob.db/t1" ∈ direct.deletePaths ∧ "bob.db/t1" ∉ executed.deletePaths ∧
      ¬ CoversFullRefresh indexedBobTask abandoned executed direct := by
  refine ⟨_, _, _, ⟨rfl, _, rfl⟩, rfl, rfl, by decide, by decide, fun hcovers => ?_⟩
  have hdeleted := hcovers.abandoned "bob.db/t1" (by decide) (by decide)
  revert hdeleted
  decide

end Escalated

end Memex.Ingest
