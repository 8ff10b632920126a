import Memex.Ingest.Execution

/-! # Recovery of session scopes

The scopes of an interrupted OpenCode publication are settled by the next
refresh: a scope is kept for later, replaced by the records its database
replays, or left without records. One kind of scope is lost while its records
stay in the index. -/

namespace Memex.Ingest

open Overlay State

/-- Paths handed over by a source other than the OpenCode databases. -/
inductive FileBacked (inv : Inventory) : String → Prop where
  | transcript (file : SourceFile) (h : file ∈ inv.transcripts) : FileBacked inv file.path
  | projection (session path : String) (h : path ∈ inv.projectionPaths session) :
      FileBacked inv path
  | bobTask (database id : String) : FileBacked inv (inv.bobVirtualPath database id)
  | legacy (path : String) (h : path ∈ inv.opencodeSessions) : FileBacked inv path

section Tasks

variable {inv : Inventory} {options : IngestOptions} {session state : CheckpointSession}

theorem winningProjection_mem {projections : List String} {winner : String}
    (h : winningProjection inv projections = some (some winner)) : winner ∈ projections := by
  induction projections with
  | nil => cases h
  | cons candidate rest ih =>
      unfold winningProjection at h
      split at h
      · split at h
        · cases h
          exact List.mem_cons_self
        · exact List.mem_cons_of_mem _ (ih h)
      · exact List.mem_cons_of_mem _ (ih h)
      · cases h

/-- A file stands for itself or for the winning projection, which replaces other
projections. -/
theorem resolveProjection_backed {excluder : PathExcluder} {file : SourceFile}
    {resolved : SourceFile × List String}
    (h : resolveProjection inv excluder file = some resolved) :
    (resolved.1.path = file.path ∨ FileBacked inv resolved.1.path) ∧
      ∀ path ∈ resolved.2, FileBacked inv path := by
  unfold resolveProjection at h
  split at h
  · cases h
    exact ⟨.inl rfl, by simp⟩
  · split at h
    · cases h
      exact ⟨.inl rfl, by simp⟩
    · rename_i projection _
      obtain ⟨winner, hwinner, rfl⟩ := Option.map_eq_some_iff.mp h
      cases winner with
      | none => exact ⟨.inl rfl, by simp⟩
      | some winner =>
          refine ⟨.inr (.projection projection winner (winningProjection_mem hwinner)), ?_⟩
          intro path hpath
          dsimp only at hpath
          split at hpath
          · cases hpath
          · exact .projection projection path (List.mem_filter.mp hpath).1

/-- The paths that a selection hands over as files. -/
def SelectedFile (selected : Option (List SourceFile)) (path : String) : Prop :=
  ∃ files ∈ selected, ∃ file ∈ files, file.path = path

/-- A transcript discovery makes tasks of the files it was given and of winning
projections, and supersedes other projections. -/
theorem discoverTranscripts_backed {selected : Option (List SourceFile)}
    {found : TranscriptDiscovery}
    (h : discoverTranscripts inv options session selected = some (state, found)) :
    (∀ task ∈ found.tasks, FileBacked inv task.path ∨ SelectedFile selected task.path) ∧
      ∀ path ∈ found.supersededProjections, FileBacked inv path := by
  obtain ⟨resolved, observations, hresolved, -, hobservations, htasks, -, hsuperseded⟩ :=
    discoverTranscripts_eq_some h
  have hresolve (entry : SourceFile × List String) (hentry : entry ∈ resolved) :
      (FileBacked inv entry.1.path ∨ SelectedFile selected entry.1.path) ∧
        ∀ path ∈ entry.2, FileBacked inv path := by
    obtain ⟨file, hfile, heq⟩ := exists_of_mem_mapM hresolved hentry
    obtain ⟨hpath, hprojections⟩ := resolveProjection_backed heq
    refine ⟨?_, hprojections⟩
    rcases hpath with hpath | hpath
    · rw [hpath]
      cases selected with
      | none => exact .inl (.transcript file hfile)
      | some files => exact .inr ⟨files, rfl, file, hfile, rfl⟩
    · exact .inl hpath
  constructor
  · intro task htask
    rw [htasks] at htask
    obtain ⟨observed, hobserved, htask⟩ := List.mem_filterMap.mp htask
    obtain ⟨file, hfile, heq⟩ := exists_of_mem_mapM hobservations hobserved
    obtain ⟨entry, hentry, rfl⟩ := List.mem_map.mp (mem_sortFiles_of_mem hfile)
    obtain ⟨-, metadata, -, hprepared⟩ := observe_task heq htask
    have hpath : task.path = entry.1.path := by
      rw [← prepareFileTask_path inv entry.1.path entry.1.source options.includeReasoning metadata
        (state.row entry.1.path), hprepared]
    rw [hpath]
    exact (hresolve entry hentry).1
  · intro path hpath
    rw [hsuperseded] at hpath
    obtain ⟨entry, hentry, hpath⟩ := List.mem_flatMap.mp (List.mem_toFinset.mp hpath)
    exact (hresolve entry hentry).2 path hpath

theorem discoverBob_fileBacked (inv : Inventory) (options : IngestOptions)
    (session : CheckpointSession) (selected : Option (List SourceFile)) :
    ∀ task ∈ (discoverBob inv options session selected).2.tasks, FileBacked inv task.path := by
  have htask (database : String) (task : BobTask) (state : CheckpointSession × BobDiscovery)
      (h : ∀ task ∈ state.2.tasks, FileBacked inv task.path) :
      ∀ other ∈ (discoverBobTask inv options database task state).2.tasks,
        FileBacked inv other.path := by
    obtain ⟨session, result⟩ := state
    unfold discoverBobTask
    dsimp only
    split
    · split <;> exact h
    · split
      · exact h
      · intro other hother
        rcases List.mem_append.mp hother with hother | hother
        · exact h other hother
        · rw [List.mem_singleton.mp hother]
          exact .bobTask database task.id
  have hdatabase (state : CheckpointSession × BobDiscovery) (database : String)
      (h : ∀ task ∈ state.2.tasks, FileBacked inv task.path) :
      ∀ task ∈ (discoverBobDatabase inv options state database).2.tasks,
        FileBacked inv task.path := by
    obtain ⟨session, result⟩ := state
    unfold discoverBobDatabase
    dsimp only
    cases inspectBobDatabase inv options database with
    | absent skipped => exact h
    | unreadable reported => exact h
    | notAFile => exact h
    | readable tasks =>
        exact List.foldlRecOn tasks _ h fun state hstate task _ => htask database task state hstate
  have hread (databases : List String) :
      ∀ task ∈ (databases.foldl (discoverBobDatabase inv options) (session, {})).2.tasks,
        FileBacked inv task.path :=
    List.foldlRecOn databases _ (by simp) fun state hstate database _ =>
      hdatabase state database hstate
  unfold discoverBob
  split
  · dsimp only [dropVanishedBobTasks]
    split
    · exact hread _
    · exact hread _
  · simp

/-- The tasks and superseded paths of a local discovery. -/
theorem discoverLocal_backed {durable : Durable} {pending : Option PendingIngest}
    {selected : Option Selection} {journalNarrowed : Bool} {scanCache : Option ScanCache}
    {found : LocalDiscovery}
    (h : discoverLocal inv options durable pending session selected journalNarrowed scanCache =
      some found) :
    (∀ task ∈ found.transcripts.tasks ++ found.bob.tasks, FileBacked inv task.path ∨
        SelectedFile (selected.map Selection.files) task.path) ∧
      ∀ path ∈ found.supersededPaths, FileBacked inv path := by
  obtain ⟨walked, bob, hwalk, -, hsuperseded, hbob, hfound, -⟩ := discoverLocal_eq_some h
  obtain ⟨htasks, hprojections⟩ := discoverTranscripts_backed hwalk
  have hbobTasks := discoverBob_fileBacked inv options
    ((stampedSession inv selected.isNone walked).deleteFiles found.supersededPaths)
    (selected.map fun selection => selection.databases.filter fun file => file.source = .bob)
  rw [hbob] at hbobTasks
  constructor
  · intro task htask
    rcases List.mem_append.mp htask with htask | htask
    · exact htasks task htask
    · rw [hfound] at htask
      obtain ⟨original, horiginal, rfl⟩ := List.mem_map.mp htask
      have hpath : (markRecoveredBobTask pending original).path = original.path := by
        unfold markRecoveredBobTask
        split
        · split <;> rfl
        · rfl
      rw [hpath]
      exact .inl (hbobTasks original horiginal)
  · intro path hpath
    rw [hsuperseded] at hpath
    exact hprojections path (Finset.mem_filter.mp hpath).1

/-- The tasks and superseded paths of a full local discovery. -/
theorem discoverLocal_fileBacked {durable : Durable} {pending : Option PendingIngest}
    {journalNarrowed : Bool} {scanCache : Option ScanCache} {found : LocalDiscovery}
    (h : discoverLocal inv options durable pending session none journalNarrowed scanCache =
      some found) :
    (∀ task ∈ found.transcripts.tasks ++ found.bob.tasks, FileBacked inv task.path) ∧
      ∀ path ∈ found.supersededPaths, FileBacked inv path := by
  obtain ⟨htasks, hsuperseded⟩ := discoverLocal_backed h
  refine ⟨fun task htask => ?_, hsuperseded⟩
  rcases htasks task htask with hbacked | ⟨files, hselected, -⟩
  · exact hbacked
  · cases hselected

theorem settleLegacy_fileBacked {scan : OpencodeScan} {pending : Option PendingIngest}
    {indexed : Finset String} {found : OpencodeDiscovery}
    (h : settleLegacy inv options session scan pending indexed = some (state, found)) :
    (∀ task ∈ found.tasks, FileBacked inv task.path) ∧
      ∀ path ∈ found.legacyPathsToDelete, FileBacked inv path := by
  have hfold (ownsLegacy : String → Bool) (cleanup : Finset String) (paths : List String)
      (hpaths : ∀ path ∈ paths, path ∈ inv.opencodeSessions)
      (start : CheckpointSession × OpencodeDiscovery)
      (hstart : (∀ task ∈ start.2.tasks, FileBacked inv task.path) ∧
        ∀ path ∈ start.2.legacyPathsToDelete, FileBacked inv path)
      (result) (hfold : paths.foldlM (discoverLegacySession inv options ownsLegacy cleanup) start =
        some result) :
      (∀ task ∈ result.2.tasks, FileBacked inv task.path) ∧
        ∀ path ∈ result.2.legacyPathsToDelete, FileBacked inv path := by
    induction paths generalizing start with
    | nil =>
        cases hfold
        exact hstart
    | cons path rest ih =>
        rw [List.foldlM_cons, Option.bind_eq_bind, Option.bind_eq_some_iff] at hfold
        obtain ⟨middle, hmiddle, hrest⟩ := hfold
        have hpath : FileBacked inv path := .legacy path (hpaths path List.mem_cons_self)
        refine ih (fun path hpath => hpaths path (List.mem_cons_of_mem _ hpath)) middle ?_ hrest
        obtain ⟨session, result⟩ := start
        unfold discoverLegacySession at hmiddle
        dsimp only at hmiddle
        split at hmiddle
        · cases hmiddle
          exact hstart
        · split at hmiddle
          · split at hmiddle
            · cases hmiddle
              refine ⟨hstart.1, fun other hother => ?_⟩
              rcases Finset.mem_insert.mp hother with rfl | hother
              · exact hpath
              · exact hstart.2 other hother
            · cases hmiddle
              exact hstart
          · split at hmiddle
            · cases hmiddle
            · cases hmiddle
              exact hstart
            · split at hmiddle
              · cases hmiddle
                exact hstart
              · cases hmiddle
                refine ⟨fun task htask => ?_, hstart.2⟩
                rcases List.mem_append.mp htask with htask | htask
                · exact hstart.1 task htask
                · rw [List.mem_singleton.mp htask]
                  exact hpath
  refine hfold _ _ _ ?_ _ ⟨by simp [databaseFindings], by simp [databaseFindings]⟩ _ h
  intro path hpath
  split at hpath
  · exact hpath
  · cases hpath

end Tasks

/-- The indexed records of a scope. -/
def scopeRecords (records : Multiset Record) (scope : SessionScope) : Multiset Record :=
  records.filter fun record => Record.scope record = scope

/-- Parsers and databases emit records under their own path only. -/
structure EmitsOwnPath (inputs : RefreshInputs) : Prop where
  parsed : ∀ task, ∀ record ∈ (inputs.execution.parse task).emitted, record.sourcePath = task.path
  hydrated : ∀ path scan sessions, ∀ record ∈
    ((inputs.inv.opencodeStore path).hydrate scan sessions).records, record.sourcePath = path

section Records

variable {prepared : PreparedRefresh} {options : IngestOptions} {inputs : ExecutionInputs}
  {durable : Durable} {scope : SessionScope}

/-- The writer empties a scope that is a target, or whose path is deleted, and
adds to it only what the refresh emitted for it. -/
theorem scopeRecords_publishLexical (ctx : WriterContext) (lexical : Multiset Record)
    (added : List Record) (scope : SessionScope) :
    scopeRecords (ctx.publishLexical lexical added) scope =
      (if scope.sourcePath ∈ ctx.deletePaths ∨ scope ∈ ctx.scopeTargets then 0
        else scopeRecords lexical scope) + scopeRecords (added : Multiset Record) scope := by
  unfold scopeRecords WriterContext.publishLexical
  rw [Multiset.filter_add, Multiset.filter_filter]
  congr 1
  split
  · rename_i hdeleted
    rw [Multiset.filter_eq_nil]
    rintro record - ⟨rfl, hkept⟩
    exact hkept hdeleted
  · rename_i hkept
    refine Multiset.filter_congr fun record _ => ?_
    constructor
    · exact And.left
    · rintro rfl
      exact ⟨rfl, hkept⟩

/-- Bodies of the records of one session. -/
theorem map_body_filter_session (records others : List Record) (sessionId : String)
    (h : records.map Record.body = others.map Record.body) :
    (records.filter fun record => record.sessionId = sessionId).map Record.body =
      (others.filter fun record => record.sessionId = sessionId).map Record.body := by
  have hbody (list : List Record) :
      (list.filter fun record => record.sessionId = sessionId).map Record.body =
        (list.map Record.body).filter fun record => record.sessionId = sessionId := by
    rw [List.filter_map]
    rfl
  rw [hbody, hbody, h]

theorem drawIds_sourcePath {counter : Nat} {records : List Record} {record : Record}
    (h : record ∈ drawIds counter records) :
    ∃ other ∈ records, other.sourcePath = record.sourcePath := by
  have hbody : record.body ∈ (drawIds counter records).map Record.body := List.mem_map_of_mem h
  rw [drawIds_map_body] at hbody
  obtain ⟨other, hother, heq⟩ := List.mem_map.mp hbody
  refine ⟨other, hother, ?_⟩
  rw [← Record.body_sourcePath other, heq, Record.body_sourcePath]

/-- The parsers emit nothing for a path that no task has. -/
theorem scopeRecords_parsed
    (hparse : ∀ task, ∀ record ∈ (inputs.parse task).emitted, record.sourcePath = task.path)
    (htasks : ∀ task ∈ prepared.tasks, task.path ≠ scope.sourcePath) :
    scopeRecords (parsedRecords prepared inputs : Multiset Record) scope = 0 := by
  refine Multiset.filter_eq_nil.mpr fun record hrecord hscope => ?_
  obtain ⟨other, hother, hpath⟩ := drawIds_sourcePath (Multiset.mem_coe.mp hrecord)
  have hemitted := (inputs.interleaving.perm _).mem_iff.mp hother
  obtain ⟨task, htask, hemitted⟩ := List.mem_flatMap.mp hemitted
  have htaskPath := hparse task other hemitted
  refine htasks task htask ?_
  rw [← htaskPath, hpath, ← hscope]
  rfl

/-- A flattened list whose parts are empty but for one. -/
theorem flatMap_eq_of_unique {α β : Type} {parts : List α} {content : α → List β} {part : α}
    (hnodup : parts.Nodup) (hmem : part ∈ parts)
    (hempty : ∀ other ∈ parts, other ≠ part → content other = []) :
    parts.flatMap content = content part := by
  induction parts with
  | nil => exact absurd hmem List.not_mem_nil
  | cons head rest ih =>
      rw [List.nodup_cons] at hnodup
      rw [List.flatMap_cons]
      rcases List.mem_cons.mp hmem with rfl | hmem
      · have hrest : rest.flatMap content = [] := by
          rw [List.flatMap_eq_nil_iff]
          intro other hother
          refine hempty other (List.mem_cons_of_mem _ hother) ?_
          rintro rfl
          exact hnodup.1 hother
        rw [hrest, List.append_nil]
      · have hhead : content head = [] := by
          refine hempty head List.mem_cons_self ?_
          rintro rfl
          exact hnodup.1 hmem
        rw [hhead, List.nil_append]
        exact ih hnodup.2 hmem fun other hother => hempty other (List.mem_cons_of_mem _ hother)

/-- Without a ready database of the scope nothing is replayed into it. -/
theorem scopeRecords_replayed_of_not_ready
    (hown : ∀ database ∈ prepared.opencodeReadyDatabases, ∀ record ∈ database.spool,
      record.sourcePath = database.path)
    (hpath : scope.sourcePath ∉ prepared.opencodeReadyDatabases.map PreparedOpencodeDatabase.path) :
    scopeRecords (replayedRecords prepared : Multiset Record) scope = 0 := by
  refine Multiset.filter_eq_nil.mpr fun record hrecord hscope => ?_
  obtain ⟨database, hdatabase, hrecord⟩ := List.mem_flatMap.mp (Multiset.mem_coe.mp hrecord)
  have hsource := hown database hdatabase record (List.mem_filter.mp hrecord).1
  refine hpath (List.mem_map.mpr ⟨database, hdatabase, ?_⟩)
  rw [← hsource, ← hscope]
  rfl

/-- A ready database replays the session it owns, and the records of no other
database fall into the scope. -/
theorem scopeRecords_replayed
    (hnodup : (prepared.opencodeReadyDatabases.map PreparedOpencodeDatabase.path).Nodup)
    (hown : ∀ database ∈ prepared.opencodeReadyDatabases, ∀ record ∈ database.spool,
      record.sourcePath = database.path)
    {database : PreparedOpencodeDatabase} (hmem : database ∈ prepared.opencodeReadyDatabases)
    (hpath : database.path = scope.sourcePath) :
    scopeRecords (replayedRecords prepared : Multiset Record) scope =
      if scope.sessionId ∈ (prepared.opencodeReadyOwnedSessions.lookup database.path).getD ∅ then
        ((database.spool.filter fun record => record.sessionId = scope.sessionId : List Record) :
          Multiset Record)
      else 0 := by
  have hempty (other : PreparedOpencodeDatabase) (hother : other ∈ prepared.opencodeReadyDatabases)
      (hne : other ≠ database) :
      ((other.spool.filter fun record =>
        record.sessionId ∈ (prepared.opencodeReadyOwnedSessions.lookup other.path).getD ∅).filter
          fun record => Record.scope record = scope) = [] := by
    refine List.filter_eq_nil_iff.mpr fun record hrecord hscope => hne ?_
    have hsource := hown other hother record (List.mem_filter.mp hrecord).1
    refine List.inj_on_of_nodup_map hnodup hother hmem ?_
    rw [hpath, ← hsource, ← of_decide_eq_true hscope]
    rfl
  unfold replayedRecords scopeRecords
  rw [Multiset.filter_coe, List.filter_flatMap,
    flatMap_eq_of_unique hnodup.of_map hmem hempty, List.filter_filter]
  split
  · rename_i howned
    refine congrArg _ (List.filter_congr fun record hrecord => ?_)
    have hsource := hown database hmem record hrecord
    simp only [Record.scope, SessionScope.ext_iff, hsource, hpath, true_and]
    by_cases hsession : record.sessionId = scope.sessionId
    · simp [hsession, howned]
    · simp [hsession]
  · rename_i howned
    have hnil : (database.spool.filter fun record =>
        decide (Record.scope record = scope) && decide (record.sessionId ∈
          (prepared.opencodeReadyOwnedSessions.lookup database.path).getD ∅)) = [] := by
      refine List.filter_eq_nil_iff.mpr fun record _ hcase => howned ?_
      obtain ⟨hscope, hsession⟩ := Bool.and_eq_true _ _ ▸ hcase
      rw [← of_decide_eq_true hscope]
      exact of_decide_eq_true hsession
    rw [hnil]
    rfl

end Records

section Plan

variable (inputs : RefreshInputs) (durable : Durable)
  (states : Table String OpencodeDatabaseState) (pending : PendingIngest)

/-- What a recovering refresh plans for the scopes of the interrupted one. -/
structure RecoveryPlan (prepared : PreparedRefresh) (scan : OpencodeScan) : Prop where
  scanned : ScannedFully inputs.inv inputs.options states (some pending)
    inputs.inv.opencodeDatabases scan
  ready : prepared.opencodeReadyDatabases = scan.ready
  owned : prepared.opencodeReadyOwnedSessions =
    readyTable (readyOwned (scan.owner states)) scan.ready
  targets : prepared.opencodeScopeTargets = scan.scopeTargets states (some pending)
  deferred : prepared.deferredPendingScopes = scan.deferredScopes (some pending)
  deletes : ∀ path, ¬ FileBacked inputs.inv path → path ∉ durable.checkpoint.files →
    (path ∈ prepared.deletePaths ↔ path ∈ pending.sourcePaths ∨ path ∈ scan.pathsToDelete states ∨
      (path ∈ durable.indexedPaths ∧ inputs.options.excluder.isExcluded path = true))
  tasks : ∀ task ∈ prepared.tasks, FileBacked inputs.inv task.path

/-- The rows of other databases do not change the one of a path. -/
theorem lookup_foldl_readyRow {α : Type} (row : PreparedOpencodeDatabase → α)
    (ready : List PreparedOpencodeDatabase) (table : Table String α) {path : String}
    (hpath : path ∉ ready.map PreparedOpencodeDatabase.path) :
    (ready.foldl (fun table database => table.insert database.path (row database)) table).lookup
      path = table.lookup path := by
  induction ready generalizing table with
  | nil => rfl
  | cons head rest ih =>
      rw [List.map_cons, List.mem_cons, not_or] at hpath
      rw [List.foldl_cons, ih _ hpath.2, lookup_insert_ite, if_neg hpath.1]

theorem lookup_readyTable_of_not_ready {α : Type} (row : PreparedOpencodeDatabase → α)
    {ready : List PreparedOpencodeDatabase} {path : String}
    (hpath : path ∉ ready.map PreparedOpencodeDatabase.path) :
    (readyTable row ready).lookup path = none := by
  rw [readyTable, lookup_foldl_readyRow row ready ∅ hpath, Finmap.lookup_empty]

theorem lookup_readyTable {α : Type} {row : PreparedOpencodeDatabase → α}
    {ready : List PreparedOpencodeDatabase}
    (hnodup : (ready.map PreparedOpencodeDatabase.path).Nodup)
    {database : PreparedOpencodeDatabase} (hmem : database ∈ ready) :
    (readyTable row ready).lookup database.path = some (row database) := by
  have hfold (table : Table String α) :
      (ready.foldl (fun table database => table.insert database.path (row database)) table).lookup
        database.path = some (row database) := by
    induction ready generalizing table with
    | nil => exact absurd hmem List.not_mem_nil
    | cons head rest ih =>
        rw [List.map_cons, List.nodup_cons] at hnodup
        rw [List.foldl_cons]
        rcases List.mem_cons.mp hmem with rfl | hmem
        · rw [lookup_foldl_readyRow row rest _ hnodup.1, Finmap.lookup_insert]
        · exact ih hnodup.2 hmem _
  exact hfold ∅

/-- A recovering refresh runs on all sources; with OpenCode switched off it
keeps every scope for later, else it follows a recovery plan. -/
theorem prepareRefresh_recovers {prepared : PreparedRefresh}
    (hpending : durable.checkpoint.pending = some pending)
    (hnodup : inputs.inv.opencodeDatabases.Nodup)
    (h : prepareRefresh inputs.inv inputs.options (recoverCheckpoint durable).1
      (recoverCheckpoint durable).2 inputs.narrowing = some prepared) :
    (inputs.options.includeOpencode = false ∧
        prepared.deferredPendingScopes = pending.sessionScopes) ∨
      (inputs.options.includeOpencode = true ∧
        ∃ scan, RecoveryPlan inputs durable (recoverCheckpoint durable).2.state.opencodeDatabases
          pending prepared scan) := by
  obtain ⟨-, hlexical, -, -, -, -, hrecovery⟩ := recoverCheckpoint_frame durable
  obtain ⟨hcoherent, hrows⟩ := recoverCheckpoint_rows durable
  rw [hpending] at hrecovery
  obtain ⟨session, selected, journalNarrowed, scanCache, hbase, hselected, -, hsession, hpass⟩ :=
    prepareRefresh_pass h
  obtain rfl := hselected (by rw [hrecovery]; rfl)
  obtain ⟨hsessionCoherent, hsessionRows⟩ := hsession hcoherent
  obtain ⟨found, state, opencode, nextDocId, hlocal, hopencode, rfl⟩ :=
    preparePass_eq_prepared hpass
  rw [hrecovery] at hlocal hopencode
  have hfound := hbase.trans (discoverLocal_sameBase hlocal)
  obtain ⟨hlocalDrops, hexcludedRows, hmissingRows⟩ :=
    discoverLocal_drops hsessionCoherent hlocal
  obtain ⟨hlocalTasks, hsuperseded⟩ := discoverLocal_fileBacked hlocal
  rcases discoverOpencode_eq_done hopencode with ⟨-, -, rfl, hoff⟩ |
    ⟨hinclude, scan, hscan, hsettle⟩
  · refine .inl ⟨?_, rfl⟩
    rcases hoff with hoff | hoff
    · exact hoff
    · cases hoff
  · have hstates : found.state.opencodeDatabases =
        (recoverCheckpoint durable).2.state.opencodeDatabases := hfound.opencodeDatabases
    rw [hstates] at hscan
    obtain ⟨hlegacyTasks, hlegacyPaths⟩ := settleLegacy_fileBacked hsettle
    have hsame := (settleLegacy_frame hsettle).2
    rw [hstates] at hsame
    have hstateDrops := settleLegacy_drops hlocalDrops.coherent hsettle
    have hstored (path : String) (hpath : path ∈ session.rows.keys) :
        path ∈ durable.checkpoint.files :=
      Finmap.mem_keys.mp (hrows (hsessionRows hpath))
    have htasks : ∀ task ∈ found.transcripts.tasks ++ found.bob.tasks ++ opencode.tasks,
        FileBacked inputs.inv task.path := by
      intro task htask
      rcases List.mem_append.mp htask with htask | htask
      · exact hlocalTasks task htask
      · exact hlegacyTasks task htask
    have hdeletes (path : String) (hbacked : ¬ FileBacked inputs.inv path)
        (hrow : path ∉ durable.checkpoint.files) :
        path ∈ (finishPrepare inputs.inv inputs.options (recoverCheckpoint durable).1
          (some pending) (recoverCheckpoint durable).2.emptyIndexRebuild true found state opencode
            nextDocId).deletePaths ↔
          path ∈ pending.sourcePaths ∨
            path ∈ scan.pathsToDelete (recoverCheckpoint durable).2.state.opencodeDatabases ∨
            (path ∈ durable.indexedPaths ∧ inputs.options.excluder.isExcluded path = true) := by
      have hlegacy : path ∉ opencode.legacyPathsToDelete := fun h => hbacked (hlegacyPaths path h)
      have hprojection : path ∉ found.supersededPaths := fun h => hbacked (hsuperseded path h)
      have hexcludedState : path ∉ found.excludedStatePaths :=
        fun h => hrow (hstored path (hexcludedRows h))
      have hmissing : path ∉ found.bob.missingPaths :=
        fun h => hrow (hstored path (hmissingRows h))
      have hkeys : path ∉ state.fileKeys := by
        intro h
        rw [hstateDrops.coherent.fileKeys_eq, hstateDrops.keys, hlocalDrops.keys] at h
        exact hrow (hstored path (Finset.mem_sdiff.mp (Finset.mem_sdiff.mp h).1).1)
      have hreplaced : path ∉ deleteFirstPaths
          (found.transcripts.tasks ++ found.bob.tasks ++ opencode.tasks) := by
        intro h
        obtain ⟨task, htask, rfl⟩ := List.mem_map.mp (List.mem_toFinset.mp h)
        exact hbacked (htasks task (List.mem_filter.mp htask).1)
      have hindexed : (recoverCheckpoint durable).1.indexedPaths = durable.indexedPaths := by
        unfold Durable.indexedPaths
        rw [hlexical]
      rw [mem_deletePaths, hindexed, hsame.databasePathsToDelete]
      simp only [Option.map_some, Option.getD_some, hlegacy, hkeys, hmissing, hprojection,
        hexcludedState, hreplaced, false_and, false_or, or_false]
      rfl
    refine .inr ⟨hinclude, scan, ?_⟩
    rw [hrecovery]
    exact
      { scanned := scanOpencodeDatabases_full hnodup hscan
        ready := hsame.readyDatabases
        owned := hsame.readyOwnedSessions
        targets := hsame.scopeTargets
        deferred := hsame.deferredPendingScopes
        deletes := hdeletes
        tasks := htasks }

end Plan

section Settled

variable (inputs : RefreshInputs) (durable final : Durable) (scope : SessionScope)

/-- The scope is still listed in the stored intent. -/
def ScopeDeferred : Prop :=
  ∃ pending ∈ final.checkpoint.pending, scope ∈ pending.sessionScopes

/-- The scope holds exactly the records that its ready database replayed. -/
def ScopeReplayed : Prop :=
  ∃ scan, scope.sourcePath ∈ inputs.inv.opencodeDatabases ∧
    Scannable inputs.inv inputs.options
      (recoverCheckpoint durable).2.state.opencodeDatabases scope.sourcePath scan ∧
    (hydrationOf inputs.inv durable.checkpoint.pending scope.sourcePath scan).complete = true ∧
    scope.sessionId ∈ scan.sessions.map OpencodeSession.id ∧
    (scopeRecords final.lexical scope).map Record.body =
      ((((hydrationOf inputs.inv durable.checkpoint.pending scope.sourcePath scan).records.filter
        fun record => record.sessionId = scope.sessionId).map Record.body : List Record) :
          Multiset Record)

/-- The scope holds no record. -/
def ScopeCleared : Prop :=
  scopeRecords final.lexical scope = 0

def ScopeSettled : Prop :=
  ScopeDeferred final scope ∨ ScopeReplayed inputs durable final scope ∨ ScopeCleared final scope

/-- The database of the scope is gone, and nothing tells the refresh to delete
the records it left: it has no database row, the intent does not list its path
and no exclusion matches it. -/
def ScopeForgotten : Prop :=
  inputs.options.includeOpencode = true ∧
    scope.sourcePath ∉ inputs.inv.opencodeDatabases ∧
    inputs.options.excluder.isExcluded scope.sourcePath = false ∧
    scope.sourcePath ∉ durable.checkpoint.opencodeDatabases ∧
    (∀ pending ∈ durable.checkpoint.pending, scope.sourcePath ∉ pending.sourcePaths) ∧
    scopeRecords durable.lexical scope ≠ 0

variable {inputs durable scope} {prepared : PreparedRefresh} {pending : PendingIngest}

/-- The stored intent of a finished refresh lists the deferred scopes. -/
theorem finalizedPendingIngest_deferred {deferred : Finset SessionScope} {next : Nat}
    {old : Option PendingIngest} :
    (∃ pending ∈ (finalizedPendingIngest deferred next).apply old, scope ∈ pending.sessionScopes) ↔
      scope ∈ deferred := by
  unfold finalizedPendingIngest
  by_cases hempty : deferred = ∅
  · simp [hempty, PendingChange.apply]
  · simp [hempty, PendingChange.apply]

/-- A recovering refresh that returns `Ok` stores the deferred scopes and has
published its lists, or had none to publish. -/
theorem executeRefresh_recovered {options : IngestOptions} {execution : ExecutionInputs}
    {stop : Option StopPoint} (hstart : StartsReserved prepared durable)
    (hpending : durable.checkpoint.pending = some pending)
    (hok : (executeRefresh prepared options execution durable stop).ok = true) :
    (∀ scope, ScopeDeferred (executeRefresh prepared options execution durable stop).durable scope ↔
        scope ∈ prepared.deferredPendingScopes) ∧
      ((executeRefresh prepared options execution durable stop).durable.lexical =
          (writerContext prepared options execution durable).publishLexical durable.lexical
            (addedRecords prepared execution) ∨
        (executeRefresh prepared options execution durable stop).durable.lexical =
            durable.lexical ∧ prepared.deletePaths = ∅ ∧ prepared.opencodeScopeTargets = ∅) := by
  have hrecovering : prepared.recoveringPendingIngest = true := by
    rw [hstart.recovering, hpending]
    rfl
  rcases executeRefresh_of_ok hok with ⟨hdecision, heq⟩ | ⟨-, heq⟩
  · obtain ⟨-, hpaths, htargets, -⟩ := sourceChanges_eq_false_of_decision hdecision
    rw [heq, if_pos hrecovering]
    refine ⟨fun scope => ?_, .inr ⟨rfl, hpaths, htargets⟩⟩
    have horiginal : prepared.state.originalNextDocId = prepared.state.store.nextDocId := by
      rw [hstart.original, hstart.store]
    have hstored := commitRefresh_stored prepared execution durable
      { prepared.state with opencodeDatabases := prepared.installedOpencodeStates }
      (finalizedPendingIngest prepared.deferredPendingScopes prepared.state.nextDocId) horiginal
    unfold ScopeDeferred
    rw [hstored.pending]
    exact finalizedPendingIngest_deferred
  · rw [heq]
    refine ⟨fun scope => ?_, .inl (publishedLexical_eq prepared options execution durable)⟩
    have hsame := finalSession_sameStore prepared execution
      (intendedSession prepared options execution durable)
    have hintended := intendedSession_store options execution hstart
    have hstored := commitRefresh_stored prepared execution
      (vectorDurable prepared options execution durable)
      (finalSession prepared execution (intendedSession prepared options execution durable))
      (finalizedPendingIngest prepared.deferredPendingScopes (finalDocId prepared execution))
      (by rw [hsame.1, hsame.2, hintended.2, hintended.1]; split <;> rfl)
    unfold ScopeDeferred
    rw [hstored.pending]
    exact finalizedPendingIngest_deferred

/-- A scope is a target when its database is ready and the intent lists it. -/
theorem mem_scopeTargets_of_ready {scan : OpencodeScan}
    {states : Table String OpencodeDatabaseState}
    (hmem : scope ∈ pending.sessionScopes)
    (hready : scan.outcomes.lookup scope.sourcePath = some .ready) :
    scope ∈ scan.scopeTargets states (some pending) :=
  Finset.mem_union_right _ (Finset.mem_filter.mpr ⟨hmem, hready⟩)

/-- Every target belongs to a ready database. -/
theorem outcome_of_mem_scopeTargets {states : Table String OpencodeDatabaseState}
    {scan : OpencodeScan} {databases : List String}
    (hscanned : ScannedFully inputs.inv inputs.options states (some pending) databases scan)
    (hmem : scope ∈ scan.scopeTargets states (some pending)) :
    scan.outcome scope.sourcePath = .ready := by
  rcases Finset.mem_union.mp hmem with hmem | hmem
  · rcases Finset.mem_union.mp hmem with hmem | hmem
    · obtain ⟨path, hpath, hscope⟩ := Finset.mem_biUnion.mp hmem
      obtain ⟨session, -, rfl⟩ := Finset.mem_image.mp hscope
      exact (Finset.mem_filter.mp hpath).2
    · have hreplayed (ready : List PreparedOpencodeDatabase)
          (h : scope ∈ (ready.map fun database =>
            (database.scan.dirtySessionIds.filter fun session =>
              scan.owner states session = some database.path).image
                (SessionScope.mk database.path)).foldr (· ∪ ·) ∅) :
          scope.sourcePath ∈ ready.map PreparedOpencodeDatabase.path := by
        induction ready with
        | nil => exact absurd h (Finset.notMem_empty scope)
        | cons head rest ih =>
            rcases Finset.mem_union.mp h with h | h
            · obtain ⟨session, -, rfl⟩ := Finset.mem_image.mp h
              exact List.mem_cons_self
            · exact List.mem_cons_of_mem _ (ih h)
      have hready := hreplayed scan.ready hmem
      obtain ⟨database, hdatabase, hpath⟩ := List.mem_map.mp hready
      have hdatabases := hscanned.ready database hdatabase
      rw [hpath] at hdatabases
      rw [hscanned.outcome, if_pos ⟨hdatabases.1, hdatabases.2.1.1⟩, if_pos hready]
  · have hready := (Finset.mem_filter.mp hmem).2
    rw [hscanned.outcomes] at hready
    rw [hscanned.outcome]
    split at hready
    · rename_i hdatabases
      rw [if_pos hdatabases]
      split at hready
      · rename_i hpath
        rw [if_pos hpath]
      · cases hready
    · cases hready

/-- The recovered databases are the stored ones without those of the intent's
paths, unless everything is rebuilt. -/
theorem recovered_opencodeDatabases (hpending : durable.checkpoint.pending = some pending)
    (hlexical : durable.lexical ≠ 0) {path : String} (hpath : path ∉ pending.sourcePaths) :
    path ∈ (recoverCheckpoint durable).2.state.opencodeDatabases ↔
      path ∈ durable.checkpoint.opencodeDatabases := by
  have hopen : (CheckpointSession.open durable.checkpoint).pending = some pending := hpending
  have hbase := SameBase.deleteFiles (CheckpointSession.open durable.checkpoint)
    pending.sourcePaths
  unfold recoverCheckpoint
  dsimp only
  rw [if_neg (fun h => hlexical h.1)]
  unfold preparePendingIngestRecovery
  rw [hopen]
  dsimp only
  rw [← Finmap.mem_keys, keys_eraseAll, hbase.opencodeDatabases, Finset.mem_sdiff, Finmap.mem_keys]
  constructor
  · exact And.left
  · intro h
    exact ⟨h, fun hmem => hpath (Finset.mem_filter.mp hmem).1⟩

section Planned

variable {final : Durable} {scan : OpencodeScan} {states : Table String OpencodeDatabaseState}

/-- Spooled records carry the path of their database. -/
theorem RecoveryPlan.spool_sourcePath
    (h : RecoveryPlan inputs durable states pending prepared scan) (hemits : EmitsOwnPath inputs) :
    ∀ database ∈ prepared.opencodeReadyDatabases, ∀ record ∈ database.spool,
      record.sourcePath = database.path := by
  rw [h.ready]
  intro database hdatabase record hrecord
  obtain ⟨-, -, -, hspool⟩ := h.scanned.ready database hdatabase
  have hbody : record.body ∈ database.spool.map Record.body := List.mem_map_of_mem hrecord
  rw [hspool] at hbody
  obtain ⟨other, hother, heq⟩ := List.mem_map.mp hbody
  rw [← Record.body_sourcePath record, ← heq, Record.body_sourcePath]
  exact hemits.hydrated database.path database.scan _ other hother

/-- Into the scope the refresh adds only what is replayed. -/
theorem RecoveryPlan.scopeRecords_added
    (h : RecoveryPlan inputs durable states pending prepared scan) (hemits : EmitsOwnPath inputs)
    (hbacked : ¬ FileBacked inputs.inv scope.sourcePath) :
    scopeRecords (addedRecords prepared inputs.execution : Multiset Record) scope =
      scopeRecords (replayedRecords prepared : Multiset Record) scope := by
  have hparsed :
      scopeRecords (parsedRecords prepared inputs.execution : Multiset Record) scope = 0 :=
    scopeRecords_parsed hemits.parsed fun task htask hpath => hbacked (hpath ▸ h.tasks task htask)
  unfold addedRecords
  rw [← Multiset.coe_add, scopeRecords, Multiset.filter_add]
  change scopeRecords _ scope + scopeRecords _ scope = _
  rw [hparsed, zero_add]

/-- A scope of a ready database holds what the database replays, if it owns the
session, and nothing otherwise. -/
theorem RecoveryPlan.settled_of_ready
    (h : RecoveryPlan inputs durable states pending prepared scan)
    (hstates : states = (recoverCheckpoint durable).2.state.opencodeDatabases)
    (hpending : durable.checkpoint.pending = some pending) (hemits : EmitsOwnPath inputs)
    (hready : scope.sourcePath ∈ scan.ready.map PreparedOpencodeDatabase.path)
    (hrecords : scopeRecords final.lexical scope =
      scopeRecords (replayedRecords prepared : Multiset Record) scope) :
    ScopeReplayed inputs durable final scope ∨ ScopeCleared final scope := by
  obtain ⟨database, hdatabase, hpath⟩ := List.mem_map.mp hready
  obtain ⟨hlisted, hscannable, hcomplete, hspool⟩ := h.scanned.ready database hdatabase
  have hnodup : (prepared.opencodeReadyDatabases.map PreparedOpencodeDatabase.path).Nodup :=
    h.ready ▸ h.scanned.nodup
  have hreplayed := scopeRecords_replayed hnodup (h.spool_sourcePath hemits)
    (h.ready ▸ hdatabase) hpath
  rw [h.owned, lookup_readyTable h.scanned.nodup hdatabase, Option.getD_some] at hreplayed
  by_cases howned : scope.sessionId ∈ readyOwned (scan.owner states) database
  · rw [if_pos howned] at hreplayed
    have hsession : scope.sessionId ∈ database.scan.sessions.map OpencodeSession.id :=
      (List.mem_filter.mp (List.mem_toFinset.mp howned)).1
    rw [hpath] at hlisted hscannable hcomplete hspool
    refine .inl ⟨database.scan, hlisted, hstates ▸ hscannable, hpending ▸ hcomplete, hsession, ?_⟩
    rw [hrecords, hreplayed, Multiset.map_coe, hpending]
    exact congrArg _ (map_body_filter_session _ _ scope.sessionId hspool)
  · rw [if_neg howned] at hreplayed
    exact .inr (hrecords.trans hreplayed)

/-- A scope whose database is gone is settled when its records are deleted with
their path, or when it had none. -/
theorem RecoveryPlan.settled_iff_of_absent
    (h : RecoveryPlan inputs durable states pending prepared scan)
    (hstates : states = (recoverCheckpoint durable).2.state.opencodeDatabases)
    (hpending : durable.checkpoint.pending = some pending)
    (hinclude : inputs.options.includeOpencode = true) (hemits : EmitsOwnPath inputs)
    (hbacked : ¬ FileBacked inputs.inv scope.sourcePath)
    (hrow : scope.sourcePath ∉ durable.checkpoint.files)
    (habsent : ¬ (scope.sourcePath ∈ inputs.inv.opencodeDatabases ∧
      inputs.options.excluder.isExcluded scope.sourcePath = false))
    (hdeferred : ScopeDeferred final scope ↔ scope ∈ prepared.deferredPendingScopes)
    (hrecords : scopeRecords final.lexical scope =
        (if scope.sourcePath ∈ prepared.deletePaths ∨
            scope ∈ prepared.opencodeScopeTargets then 0
          else scopeRecords durable.lexical scope) +
          scopeRecords (replayedRecords prepared : Multiset Record) scope ∨
      (scopeRecords final.lexical scope = scopeRecords durable.lexical scope ∧
        prepared.deletePaths = ∅ ∧ prepared.opencodeScopeTargets = ∅)) :
    ScopeSettled inputs durable final scope ↔ ¬ ScopeForgotten inputs durable scope := by
  have houtcome : scan.outcome scope.sourcePath = .confirmedAbsent := by
    rw [h.scanned.outcome, if_neg habsent]
  have hnotDeferred : ¬ ScopeDeferred final scope := by
    rw [hdeferred, h.deferred]
    intro hmem
    have hfailed := (Finset.mem_filter.mp hmem).2
    rw [houtcome] at hfailed
    cases hfailed
  have hnotTarget : scope ∉ prepared.opencodeScopeTargets := by
    rw [h.targets]
    intro hmem
    have hready := outcome_of_mem_scopeTargets h.scanned hmem
    rw [houtcome] at hready
    cases hready
  have hnotReplayed : ¬ ScopeReplayed inputs durable final scope := by
    rintro ⟨found, hlisted, hscannable, -⟩
    exact habsent ⟨hlisted, hscannable.1⟩
  have hnothing : scopeRecords (replayedRecords prepared : Multiset Record) scope = 0 := by
    refine scopeRecords_replayed_of_not_ready (h.spool_sourcePath hemits) fun hmem => ?_
    rw [h.ready] at hmem
    obtain ⟨database, hdatabase, hpath⟩ := List.mem_map.mp hmem
    obtain ⟨hlisted, hscannable, -⟩ := h.scanned.ready database hdatabase
    exact habsent ⟨hpath ▸ hlisted, hpath ▸ hscannable.1⟩
  have hkept : scopeRecords final.lexical scope =
      if scope.sourcePath ∈ prepared.deletePaths then 0 else
        scopeRecords durable.lexical scope := by
    rcases hrecords with hrecords | ⟨hrecords, hpaths, -⟩
    · rw [hrecords, hnothing, add_zero]
      simp only [hnotTarget, or_false]
    · rw [hrecords, hpaths, if_neg (Finset.notMem_empty _)]
  have hsettled : ScopeSettled inputs durable final scope ↔
      scope.sourcePath ∈ prepared.deletePaths ∨ scopeRecords durable.lexical scope = 0 := by
    unfold ScopeSettled ScopeCleared
    rw [hkept]
    by_cases hdelete : scope.sourcePath ∈ prepared.deletePaths <;>
      simp [hdelete, hnotDeferred, hnotReplayed]
  rw [hsettled, h.deletes scope.sourcePath hbacked hrow]
  by_cases hlive : scopeRecords durable.lexical scope = 0
  · exact ⟨fun _ hforgotten => hforgotten.2.2.2.2.2 hlive, fun _ => .inr hlive⟩
  · obtain ⟨record, hrecord⟩ := Multiset.exists_mem_of_ne_zero hlive
    obtain ⟨hindexed, hscope⟩ := Multiset.mem_filter.mp hrecord
    have hlexical : durable.lexical ≠ 0 := by
      intro hempty
      rw [hempty] at hindexed
      exact Multiset.notMem_zero record hindexed
    have hpath : scope.sourcePath ∈ durable.indexedPaths := by
      rw [← hscope]
      exact Multiset.mem_toFinset.mpr (Multiset.mem_map_of_mem _ hindexed)
    have hdropped : scope.sourcePath ∈ scan.pathsToDelete states ↔ scope.sourcePath ∈ states := by
      unfold OpencodeScan.pathsToDelete
      rw [Finset.mem_filter, Finmap.mem_keys, houtcome]
      simp
    rw [hdropped]
    unfold ScopeForgotten
    simp only [hpath, hlive, true_and, or_false, hinclude, hpending, Option.mem_some_iff,
      forall_eq', ne_eq, not_false_eq_true, and_true]
    by_cases hsource : scope.sourcePath ∈ pending.sourcePaths
    · simp [hsource]
    · have hstored := recovered_opencodeDatabases hpending hlexical hsource
      rw [← hstates] at hstored
      rw [hstored]
      cases hexcluded : inputs.options.excluder.isExcluded scope.sourcePath with
      | true => simp
      | false =>
          have hlisted : scope.sourcePath ∉ inputs.inv.opencodeDatabases :=
            fun hmem => habsent ⟨hmem, hexcluded⟩
          simp [hsource, hlisted]

end Planned

/-- After a recovering refresh that returns `Ok`, a scope of the interrupted
publication is deferred, replayed or cleared unless it was forgotten. -/
theorem recovery_settles_scope (inputs : RefreshInputs) (durable : Durable)
    (pending : PendingIngest) (hpending : durable.checkpoint.pending = some pending)
    (hok : (ingestSelected inputs durable).ok = true) (hemits : EmitsOwnPath inputs)
    (hdatabases : inputs.inv.opencodeDatabases.Nodup) (scope : SessionScope)
    (hscope : scope ∈ pending.sessionScopes)
    (hbacked : ¬ FileBacked inputs.inv scope.sourcePath)
    (hrow : scope.sourcePath ∉ durable.checkpoint.files) :
    ScopeSettled inputs durable (ingestSelected inputs durable).durable scope ↔
      ¬ ScopeForgotten inputs durable scope := by
  obtain ⟨hcheckpoint, hlexical, -⟩ := recoverCheckpoint_frame durable
  unfold ingestSelected at hok ⊢
  dsimp only at hok ⊢
  cases hprepare : prepareRefresh inputs.inv inputs.options (recoverCheckpoint durable).1
      (recoverCheckpoint durable).2 inputs.narrowing with
  | none =>
      rw [hprepare] at hok
      cases hok
  | some prepared =>
      rw [hprepare] at hok
      dsimp only at hok ⊢
      obtain ⟨hdeferred, hpublished⟩ := executeRefresh_recovered
        (prepareRefresh_startsReserved hprepare) (hcheckpoint ▸ hpending) hok
      rw [hlexical] at hpublished
      set final := (executeRefresh prepared inputs.options inputs.execution
        (recoverCheckpoint durable).1 inputs.stop).durable with hfinal
      rcases prepareRefresh_recovers inputs durable pending hpending hdatabases hprepare with
        ⟨hoff, hall⟩ | ⟨hinclude, scan, hplan⟩
      · have hsettled : ScopeDeferred final scope := (hdeferred scope).mpr (hall ▸ hscope)
        refine ⟨fun _ hforgotten => ?_, fun _ => .inl hsettled⟩
        rw [hforgotten.1] at hoff
        cases hoff
      · have hreplayed := hplan.scopeRecords_added hemits hbacked
        have hrecords : scopeRecords final.lexical scope =
            (if scope.sourcePath ∈ prepared.deletePaths ∨
                scope ∈ prepared.opencodeScopeTargets then 0
              else scopeRecords durable.lexical scope) +
              scopeRecords (replayedRecords prepared : Multiset Record) scope ∨
            (scopeRecords final.lexical scope = scopeRecords durable.lexical scope ∧
              prepared.deletePaths = ∅ ∧ prepared.opencodeScopeTargets = ∅) := by
          rcases hpublished with heq | ⟨heq, hnone⟩
          · refine .inl ?_
            rw [heq, scopeRecords_publishLexical, hreplayed]
            rfl
          · exact .inr ⟨by rw [heq], hnone⟩
        by_cases hlisted : scope.sourcePath ∈ inputs.inv.opencodeDatabases ∧
            inputs.options.excluder.isExcluded scope.sourcePath = false
        · have hkept : ¬ ScopeForgotten inputs durable scope := fun h => h.2.1 hlisted.1
          refine ⟨fun _ => hkept, fun _ => ?_⟩
          by_cases hready : scope.sourcePath ∈ scan.ready.map PreparedOpencodeDatabase.path
          · have houtcome := hplan.scanned.outcomes scope.sourcePath
            rw [if_pos hlisted, if_pos hready] at houtcome
            have htarget : scope ∈ prepared.opencodeScopeTargets :=
              hplan.targets ▸ mem_scopeTargets_of_ready hscope houtcome
            refine .inr (hplan.settled_of_ready rfl hpending hemits hready ?_)
            rcases hrecords with hrecords | ⟨-, -, hnone⟩
            · rw [hrecords, if_pos (.inr htarget), zero_add]
            · rw [hnone] at htarget
              exact absurd htarget (Finset.notMem_empty scope)
          · refine .inl ((hdeferred scope).mpr ?_)
            rw [hplan.deferred]
            refine Finset.mem_filter.mpr ⟨hscope, ?_⟩
            rw [hplan.scanned.outcome, if_pos hlisted, if_neg hready]
        · exact hplan.settled_iff_of_absent rfl hpending hinclude hemits hbacked hrow hlisted
            (hdeferred scope) hrecords

/-- An interrupted publication of one OpenCode session: its records are
published, its intent is pending and its database has no row yet. -/
def interruptedPublication : Durable where
  checkpoint :=
    { nextDocId := 1
      pending := some { nextDocId := 2, sessionScopes := {⟨"opencode.db", "s1"⟩} } }
  lexical := {{ docId := 1, sourcePath := "opencode.db", sessionId := "s1", text := "hello" }}

/-- A refresh that finds the listed OpenCode databases, each with the one
session. -/
def opencodeRefresh (databases : List String) : RefreshInputs where
  inv :=
    { opencodeDatabases := databases
      bobVirtualPath := fun _ _ => "bob"
      opencodeStore := fun path =>
        { stat := .found { len := 1 }
          scan := fun _ => some
            { dirtySessionIds := {"s1"}, sessions := [{ id := "s1", directory := "" }] }
          hydrate := fun _ _ =>
            { records := [{ sourcePath := path, sessionId := "s1", text := "hello" }]
              complete := true } } }
  options := { includeOpencode := true }
  narrowing := .none
  execution := { parse := fun _ => .notFound }
  stop := none

/-- The database is still there: its session is replayed. -/
theorem recovery_settles_scope_of_present_database :
    ScopeSettled (opencodeRefresh ["opencode.db"]) interruptedPublication
        (ingestSelected (opencodeRefresh ["opencode.db"]) interruptedPublication).durable
        ⟨"opencode.db", "s1"⟩ ↔
      ¬ ScopeForgotten (opencodeRefresh ["opencode.db"]) interruptedPublication
        ⟨"opencode.db", "s1"⟩ :=
  recovery_settles_scope (opencodeRefresh ["opencode.db"]) interruptedPublication
    { nextDocId := 2, sessionScopes := {⟨"opencode.db", "s1"⟩} } rfl (by decide)
    ⟨by simp [opencodeRefresh, TaskResult.emitted], by simp [opencodeRefresh]⟩
    (by decide) ⟨"opencode.db", "s1"⟩ (by decide)
    (by
      intro hbacked
      generalize hpath : "opencode.db" = path at hbacked
      cases hbacked with
      | transcript file h => exact List.not_mem_nil h
      | projection session _ h => exact List.not_mem_nil h
      | bobTask database id => exact absurd hpath (by simp)
      | legacy _ h => exact List.not_mem_nil h)
    (by decide)

/-- The database is gone: the refresh commits, the scope is no longer pending,
and its records stay in the index. -/
theorem scope_forgotten_when_database_is_gone :
    (ingestSelected (opencodeRefresh []) interruptedPublication).ok = true ∧
      ¬ ScopeSettled (opencodeRefresh []) interruptedPublication
        (ingestSelected (opencodeRefresh []) interruptedPublication).durable
        ⟨"opencode.db", "s1"⟩ := by
  refine ⟨by decide, ?_⟩
  rintro (⟨pending, hpending, -⟩ | ⟨scan, hlisted, -⟩ | hcleared)
  · have hnone :
      (ingestSelected (opencodeRefresh []) interruptedPublication).durable.checkpoint.pending =
        none := by decide
    rw [hnone] at hpending
    cases hpending
  · exact List.not_mem_nil hlisted
  · revert hcleared
    unfold ScopeCleared
    decide

end Settled

end Memex.Ingest
