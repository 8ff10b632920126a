import Memex.Ingest.ScopeRecovery

/-! # What a refresh does to OpenCode databases

One description of every refresh, full or narrowed, recovering or not: which
databases were scanned and read, which states are installed, and what becomes
of the indexed records of each session scope. -/

namespace Memex.Ingest

open Overlay State

section Scan

variable (inv : Inventory) (options : IngestOptions)

/-- The databases of one discovery: the ready ones were read to their end, and
only a full scan finds that one is gone. -/
structure Scanned (states : Table String OpencodeDatabaseState) (pending : Option PendingIngest)
    (databases : List String) (scan : OpencodeScan) : Prop where
  nodup : (scan.ready.map PreparedOpencodeDatabase.path).Nodup
  ready : ∀ database ∈ scan.ready, database.path ∈ databases ∧
    Scannable inv options states database.path database.scan ∧
    (hydrationOf inv pending database.path database.scan).complete = true ∧
    database.spool.map Record.body =
      (hydrationOf inv pending database.path database.scan).records.map Record.body
  outcomes : ∀ path, scan.outcomes.lookup path = some .ready ↔
    path ∈ scan.ready.map PreparedOpencodeDatabase.path
  outcome : ∀ path, scan.outcome path =
    if path ∈ scan.ready.map PreparedOpencodeDatabase.path then .ready
    else if scan.fullScan = true ∧
        ¬ (path ∈ databases ∧ options.excluder.isExcluded path = false) then .confirmedAbsent
    else .failed
  narrowed : scan.fullScan = false → ∀ database ∈ scan.ready,
    ∃ state, states.lookup database.path = some state ∧
      state.ownedSessionIds = (database.scan.sessions.map OpencodeSession.id).toFinset

variable {inv options} {states : Table String OpencodeDatabaseState}
  {pending : Option PendingIngest} {databases : List String} {scan : OpencodeScan}

theorem ScannedFully.scanned (hfull : scan.fullScan = true)
    (h : ScannedFully inv options states pending databases scan) :
    Scanned inv options states pending databases scan := by
  have hlisted (path : String) (hpath : path ∈ scan.ready.map PreparedOpencodeDatabase.path) :
      path ∈ databases ∧ options.excluder.isExcluded path = false := by
    obtain ⟨database, hdatabase, rfl⟩ := List.mem_map.mp hpath
    obtain ⟨hmem, hscannable, -⟩ := h.ready database hdatabase
    exact ⟨hmem, hscannable.1⟩
  constructor
  · exact h.nodup
  · exact h.ready
  · intro path
    rw [h.outcomes]
    constructor
    · intro hready
      split at hready
      · split at hready
        · assumption
        · cases hready
      · cases hready
    · intro hpath
      rw [if_pos (hlisted path hpath), if_pos hpath]
  · intro path
    rw [h.outcome]
    by_cases hpath : path ∈ scan.ready.map PreparedOpencodeDatabase.path
    · rw [if_pos (hlisted path hpath), if_pos hpath, if_pos hpath]
    · by_cases hmem : path ∈ databases ∧ options.excluder.isExcluded path = false
      · rw [if_pos hmem, if_neg hpath, if_neg hpath, if_neg fun hgone => hgone.2 hmem]
      · rw [if_neg hmem, if_neg hpath, if_pos ⟨hfull, hmem⟩]
  · intro hnarrowed
    rw [hfull] at hnarrowed
    cases hnarrowed

/-- What a narrowed discovery that goes on has seen of one database. -/
theorem inspectOpencodeDatabase_narrowed {path : String} {inspection : OpencodeInspection}
    (h : inspectOpencodeDatabase inv options false states path = .done inspection) :
    (options.excluder.isExcluded path = true ∧ inspection = .excluded) ∨
      ∃ bytes scan state, inspection = .planned bytes scan ∧
        Scannable inv options states path scan ∧ states.lookup path = some state ∧
        state.ownedSessionIds = (scan.sessions.map OpencodeSession.id).toFinset := by
  rw [inspectOpencodeDatabase] at h
  split at h
  · rename_i hexcluded
    cases h
    exact .inl ⟨hexcluded, rfl⟩
  · rename_i hexcluded
    dsimp only at h
    split at h
    · cases h
    · cases h
    · rename_i metadata hstat
      split at h
      · cases h
      · rename_i scan hscan
        split at h
        · cases h
        · rename_i howned
          cases h
          refine .inr ⟨metadata.len, scan, ?_⟩
          cases hstate : states.lookup path with
          | none => simp [hstate] at howned
          | some state =>
              refine ⟨state, rfl, ⟨by simpa using hexcluded, ⟨metadata, hstat⟩, hstate ▸ hscan⟩,
                rfl, ?_⟩
              simpa [hstate] using howned

theorem inspectOpencodeDatabases_narrowed {inspections : List (String × OpencodeInspection)}
    (h : inspectOpencodeDatabases inv options false states databases = .done inspections) :
    inspections.map Prod.fst = databases ∧ ∀ entry ∈ inspections,
      inspectOpencodeDatabase inv options false states entry.1 = .done entry.2 := by
  induction databases generalizing inspections with
  | nil =>
      cases h
      exact ⟨rfl, by simp⟩
  | cons path rest ih =>
      rw [inspectOpencodeDatabases] at h
      obtain ⟨inspection, hinspection, h⟩ := OpencodeStep.bind_eq_done h
      obtain ⟨others, hothers, h⟩ := OpencodeStep.bind_eq_done h
      cases h
      obtain ⟨hpaths, hrest⟩ := ih hothers
      refine ⟨by rw [List.map_cons, hpaths], ?_⟩
      intro entry hentry
      rcases List.mem_cons.mp hentry with rfl | hentry
      · exact hinspection
      · exact hrest entry hentry

theorem scanOpencodeDatabases_narrowed {next after : Nat} (hnodup : databases.Nodup)
    (h : scanOpencodeDatabases inv options false states pending next databases =
      .done (scan, after)) :
    scan.fullScan = false ∧ Scanned inv options states pending databases scan := by
  rw [scanOpencodeDatabases] at h
  obtain ⟨inspections, hinspections, h⟩ := OpencodeStep.bind_eq_done h
  obtain ⟨⟨count, ready, unhydrated⟩, hhydrate, h⟩ := OpencodeStep.bind_eq_done h
  obtain ⟨hpaths, hinspected⟩ := inspectOpencodeDatabases_narrowed hinspections
  cases h
  refine ⟨rfl, ?_⟩
  set planned := inspections.filterMap fun entry => entry.2.scan.map fun scan => (entry.1, scan)
    with hplannedDef
  obtain ⟨hread, hnone⟩ := hydrateDatabases_hydrated inv hhydrate
  obtain rfl := hnone rfl
  have hperm := List.perm_insertionSort
    (fun left right : String × DatabaseScan => pathLe left.1 right.1) planned
  have hplanned {path : String} {scan : DatabaseScan} (hmem : (path, scan) ∈ planned) :
      path ∈ databases ∧ Scannable inv options states path scan ∧
        ∃ state, states.lookup path = some state ∧
          state.ownedSessionIds = (scan.sessions.map OpencodeSession.id).toFinset := by
    obtain ⟨⟨other, inspection⟩, hentry, hscan⟩ := List.mem_filterMap.mp hmem
    obtain ⟨found, hfound, hpair⟩ := Option.map_eq_some_iff.mp hscan
    cases hpair
    refine ⟨hpaths ▸ List.mem_map_of_mem hentry, ?_⟩
    rcases inspectOpencodeDatabase_narrowed (hinspected _ hentry) with ⟨-, hexcluded⟩ |
      ⟨bytes, scan, state, hseen, hscannable, hstate, howned⟩
    · dsimp only at hexcluded hfound
      rw [hexcluded] at hfound
      cases hfound
    · dsimp only at hseen hfound
      rw [hseen] at hfound
      cases hfound
      exact ⟨hscannable, state, hstate, howned⟩
  have hready {database : PreparedOpencodeDatabase} (hmem : database ∈ ready) :=
    hplanned (hperm.mem_iff.mp (hread.readyRead database hmem).1)
  have hsublist : (planned.map Prod.fst).Sublist databases := by
    have hfilter (list : List (String × OpencodeInspection)) :
        ((list.filterMap fun entry => entry.2.scan.map fun scan => (entry.1, scan)).map
          Prod.fst).Sublist (list.map Prod.fst) := by
      induction list with
      | nil => exact List.Sublist.refl _
      | cons entry rest ih =>
          rw [List.filterMap_cons, List.map_cons]
          cases hscan : entry.2.scan with
          | none => simpa [hscan] using ih.cons entry.1
          | some scan => simpa [hscan] using ih.cons_cons entry.1
    exact hpaths ▸ hfilter inspections
  have hfailed : inspections.filter (fun entry => entry.2.hasFailed) = [] := by
    refine List.filter_eq_nil_iff.mpr fun entry hentry hcase => ?_
    rcases inspectOpencodeDatabase_narrowed (hinspected entry hentry) with ⟨-, hexcluded⟩ |
      ⟨bytes, scan, state, hseen, -⟩
    · rw [hexcluded] at hcase
      cases hcase
    · rw [hseen] at hcase
      cases hcase
  have houtcomes (path : String) :
      (OpencodeScan.mk false inspections ready []).outcomes.lookup path =
        if path ∈ ready.map PreparedOpencodeDatabase.path then some .ready else none := by
    simp only [OpencodeScan.outcomes, hfailed, lookup_insertAll, Finmap.lookup_empty]
    simp
  constructor
  · exact ((hperm.map Prod.fst).nodup_iff.mpr (hnodup.sublist hsublist)).sublist hread.paths
  · intro database hmem
    obtain ⟨hdatabases, hscannable, -⟩ := hready hmem
    obtain ⟨-, hrest⟩ := hread.readyRead database hmem
    exact ⟨hdatabases, hscannable, hrest⟩
  · intro path
    rw [houtcomes]
    split <;> simp_all
  · intro path
    rw [OpencodeScan.outcome, classifyOpencodeDatabaseOutcome, houtcomes]
    split
    · rfl
    · simp
  · intro _ database hmem
    exact (hready hmem).2.2

/-- A discovery that leaves OpenCode alone. -/
def idleScan : OpencodeScan where
  fullScan := false
  inspections := []
  ready := []
  unhydrated := []

theorem idleScan_scanned (inv : Inventory) (options : IngestOptions)
    (states : Table String OpencodeDatabaseState) (pending : Option PendingIngest) :
    Scanned inv options states pending [] idleScan := by
  constructor
  · exact List.nodup_nil
  · exact fun database hmem => absurd hmem List.not_mem_nil
  · intro path
    simp [idleScan, OpencodeScan.outcomes, insertAll]
  · intro path
    simp [idleScan, OpencodeScan.outcome, OpencodeScan.outcomes, OpencodeScan.discovered, insertAll,
      classifyOpencodeDatabaseOutcome]
  · exact fun _ database hmem => absurd hmem List.not_mem_nil

theorem outcome_idleScan (path : String) : idleScan.outcome path = .failed := by
  rw [(idleScan_scanned {} {} ∅ none).outcome]
  simp [idleScan]

end Scan

/-- The selection the hints ask for. -/
def Narrowing.selection : Narrowing → Option Selection
  | .dirty selection => selection
  | .journal _ selection => selection
  | .none => Option.none

/-- Paths that a refresh may read as a file. -/
def RefreshInputs.Backs (inputs : RefreshInputs) (path : String) : Prop :=
  FileBacked inputs.inv path ∨ SelectedFile (inputs.narrowing.selection.map Selection.files) path

/-- Paths that a refresh may read as an OpenCode database. -/
def RefreshInputs.ListsDatabase (inputs : RefreshInputs) (path : String) : Prop :=
  path ∈ inputs.inv.opencodeDatabases ∨
    SelectedFile (inputs.narrowing.selection.map fun selection =>
      selection.databases.filter fun file => file.source ≠ .bob) path

/-- No database is listed or selected twice. -/
structure RefreshInputs.DatabasesOnce (inputs : RefreshInputs) : Prop where
  listed : inputs.inv.opencodeDatabases.Nodup
  selected : ∀ selection ∈ inputs.narrowing.selection,
    (selection.databases.map SourceFile.path).Nodup

theorem usableSelection_eq_some {recovered : RecoveredCheckpoint} {narrowing : Narrowing}
    {selection : Selection} (h : usableSelection recovered narrowing = some selection) :
    narrowing.selection = some selection := by
  cases narrowing with
  | none => cases h
  | dirty hinted =>
      rw [usableSelection] at h
      split at h
      · exact h
      · cases h
  | journal cursor hinted =>
      rw [usableSelection] at h
      split at h
      · exact h
      · cases h

section Plan

variable (inputs : RefreshInputs) (durable : Durable)

/-- The database states a refresh starts from. -/
def recoveredStates : Table String OpencodeDatabaseState :=
  (recoverCheckpoint durable).2.state.opencodeDatabases

/-- What a refresh plans for the OpenCode databases. -/
structure OpencodePlan (prepared : PreparedRefresh) (databases : List String)
    (scan : OpencodeScan) : Prop where
  scanned : Scanned inputs.inv inputs.options (recoveredStates durable) durable.checkpoint.pending
    databases scan
  full : prepared.fullScan = true → inputs.options.includeOpencode = true →
    scan.fullScan = true ∧ databases = inputs.inv.opencodeDatabases
  fullOnly : scan.fullScan = true → prepared.fullScan = true ∧
    databases = inputs.inv.opencodeDatabases
  included : scan.ready ≠ [] → inputs.options.includeOpencode = true
  listed : ∀ path ∈ databases, inputs.ListsDatabase path
  ready : prepared.opencodeReadyDatabases = scan.ready
  owned : prepared.opencodeReadyOwnedSessions =
    readyTable (readyOwned (scan.owner (recoveredStates durable))) scan.ready
  targets : prepared.opencodeScopeTargets =
    scan.scopeTargets (recoveredStates durable) durable.checkpoint.pending
  deferred : prepared.deferredPendingScopes = scan.deferredScopes durable.checkpoint.pending
  installed : prepared.installedOpencodeStates =
    readyTable (readyState (scan.owner (recoveredStates durable))) scan.ready ∪
      eraseAll (scan.pathsToDelete (recoveredStates durable)) (recoveredStates durable)
  deletes : ∀ path, ¬ inputs.Backs path → path ∉ durable.checkpoint.files →
    (path ∈ prepared.deletePaths ↔
      path ∈ (durable.checkpoint.pending.map PendingIngest.sourcePaths).getD ∅ ∨
        path ∈ scan.pathsToDelete (recoveredStates durable) ∨
        (prepared.fullScan = true ∧ path ∈ durable.indexedPaths ∧
          inputs.options.excluder.isExcluded path = true))
  tasks : ∀ task ∈ prepared.tasks, inputs.Backs task.path
  base : SameBase (recoverCheckpoint durable).2.state prepared.state
  coherent : prepared.state.Coherent
  rows : prepared.state.rows.keys ⊆ durable.checkpoint.files.keys

end Plan

section Prepared

variable {inputs : RefreshInputs} {durable : Durable} {prepared : PreparedRefresh}

theorem pathsToDelete_idleScan (states : Table String OpencodeDatabaseState) :
    idleScan.pathsToDelete states = ∅ := by
  refine Finset.filter_eq_empty_iff.mpr fun path _ hcase => ?_
  rw [outcome_idleScan] at hcase
  cases hcase

theorem scopeTargets_idleScan (states : Table String OpencodeDatabaseState)
    (pending : Option PendingIngest) : idleScan.scopeTargets states pending = ∅ := by
  have hlost : (states.keys.filter fun path => idleScan.outcome path = .ready) = ∅ := by
    refine Finset.filter_eq_empty_iff.mpr fun path _ hcase => ?_
    rw [outcome_idleScan] at hcase
    cases hcase
  have hrecovered (path : String) : idleScan.outcomes.lookup path ≠ some .ready := by
    rw [Ne, (idleScan_scanned {} {} ∅ none).outcomes]
    exact List.not_mem_nil
  simp only [OpencodeScan.scopeTargets, hlost, hrecovered]
  cases pending <;> simp [idleScan]

theorem deferredScopes_idleScan (pending : Option PendingIngest) :
    idleScan.deferredScopes pending = (pending.map PendingIngest.sessionScopes).getD ∅ := by
  cases pending with
  | none => rfl
  | some pending => simp [OpencodeScan.deferredScopes, outcome_idleScan]

/-- The scan that the discovery of OpenCode made, an idle one when it had
nothing to do. -/
theorem discoverOpencode_scanned {inv : Inventory} {options : IngestOptions}
    {session state : CheckpointSession} {selected : Option (List SourceFile)}
    {pending : Option PendingIngest} {indexed : Finset String} {next after : Nat}
    {found : OpencodeDiscovery} (hlisted : inv.opencodeDatabases.Nodup)
    (hselected : ∀ files ∈ selected, (files.map SourceFile.path).Nodup)
    (h : discoverOpencode inv options session selected pending indexed next =
      .done (state, found, after)) :
    ∃ databases scan,
      Scanned inv options session.opencodeDatabases pending databases scan ∧
        SameDatabases (databaseFindings scan session.opencodeDatabases pending) found ∧
        (selected = none → options.includeOpencode = true →
          scan.fullScan = true ∧ databases = inv.opencodeDatabases) ∧
        (scan.fullScan = true → selected = none ∧ databases = inv.opencodeDatabases) ∧
        (scan.ready ≠ [] → options.includeOpencode = true) ∧
        (∀ path ∈ databases, path ∈ inv.opencodeDatabases ∨ SelectedFile selected path) ∧
        (∀ task ∈ found.tasks, FileBacked inv task.path) ∧
        ∀ path ∈ found.legacyPathsToDelete, FileBacked inv path := by
  rcases discoverOpencode_eq_done h with ⟨-, -, rfl, hoff⟩ | ⟨hinclude, scan, hscan, hsettle⟩
  · refine ⟨[], idleScan, idleScan_scanned _ _ _ _, ?_, ?_, ?_, ?_, by simp, by simp, by simp⟩
    · constructor
      · rfl
      · rfl
      · exact (scopeTargets_idleScan _ _).symm
      · rfl
      · exact (pathsToDelete_idleScan _).symm
      · rfl
      · exact (deferredScopes_idleScan pending).symm
    · intro hnone hinclude
      rcases hoff with hoff | hoff
      · rw [hoff] at hinclude
        cases hinclude
      · rw [hnone] at hoff
        cases hoff
    · intro hfull
      cases hfull
    · intro hready
      exact absurd rfl hready
  · obtain ⟨hlegacyTasks, hlegacyPaths⟩ := settleLegacy_fileBacked hsettle
    have hsame := (settleLegacy_frame hsettle).2
    cases selected with
    | none =>
        have hfull : scan.fullScan = true := scanOpencodeDatabases_fullScan hscan
        exact ⟨inv.opencodeDatabases, scan,
          (scanOpencodeDatabases_full hlisted hscan).scanned hfull, hsame,
          fun _ _ => ⟨hfull, rfl⟩, fun _ => ⟨rfl, rfl⟩, fun _ => hinclude,
          fun path hpath => .inl hpath, hlegacyTasks, hlegacyPaths⟩
    | some files =>
        obtain ⟨hnarrowed, hscanned⟩ :=
          scanOpencodeDatabases_narrowed (hselected files rfl) hscan
        refine ⟨files.map SourceFile.path, scan, hscanned, hsame, ?_, ?_, fun _ => hinclude,
          fun path hpath => .inr ⟨files, rfl, List.mem_map.mp hpath⟩, hlegacyTasks,
          hlegacyPaths⟩
        · intro hnone
          cases hnone
        · intro hfull
          rw [hnarrowed] at hfull
          cases hfull

/-- Assembling the refresh only drops rows. -/
theorem finishPrepare_rows {inv : Inventory} {options : IngestOptions}
    {pending : Option PendingIngest}
    {emptyIndexRebuild fullScan : Bool} {found : LocalDiscovery} {session : CheckpointSession}
    {opencode : OpencodeDiscovery} {nextDocId : Nat} (hsession : session.Coherent) :
    (finishPrepare inv options durable pending emptyIndexRebuild fullScan found session opencode
        nextDocId).state.Coherent ∧
      (finishPrepare inv options durable pending emptyIndexRebuild fullScan found session opencode
        nextDocId).state.rows.keys ⊆ session.rows.keys := by
  simp only [finishPrepare]
  set swept := if fullScan = true then
    session.fileKeys.filter fun path => confirmedMissing inv path = true else ∅
  have hswept := Drops.deleteFiles hsession swept
  obtain ⟨hcoherent, hkeys⟩ := @keys_foldl_updateIdentity
    (found.transcripts.unchangedIdentities ++ found.bob.unchangedIdentities ++
      opencode.unchangedIdentities) (session.deleteFiles swept, false) hswept.coherent
  refine ⟨hcoherent, ?_⟩
  rw [hkeys, hswept.keys]
  exact Finset.sdiff_subset

/-- Every refresh that was prepared follows a plan. -/
theorem prepareRefresh_plan (honce : inputs.DatabasesOnce)
    (h : prepareRefresh inputs.inv inputs.options (recoverCheckpoint durable).1
      (recoverCheckpoint durable).2 inputs.narrowing = some prepared) :
    ∃ databases scan, OpencodePlan inputs durable prepared databases scan := by
  obtain ⟨-, hlexical, -, -, -, -, hrecovery⟩ := recoverCheckpoint_frame durable
  obtain ⟨hcoherent, hrows⟩ := recoverCheckpoint_rows durable
  obtain ⟨session, selected, journalNarrowed, scanCache, hbase, -, hselected, hsession, hpass⟩ :=
    prepareRefresh_pass h
  obtain ⟨hsessionCoherent, hsessionRows⟩ := hsession hcoherent
  obtain ⟨found, state, opencode, nextDocId, hlocal, hopencode, rfl⟩ :=
    preparePass_eq_prepared hpass
  have hprepared := (prepareRefresh_frame h).1
  rw [hrecovery] at hlocal hopencode
  have hfound := hbase.trans (discoverLocal_sameBase hlocal)
  obtain ⟨hlocalDrops, hexcludedRows, hmissingRows⟩ := discoverLocal_drops hsessionCoherent hlocal
  obtain ⟨hlocalTasks, hsuperseded⟩ := discoverLocal_backed hlocal
  have hhinted : selected = none ∨ inputs.narrowing.selection = selected := by
    cases selected with
    | none => exact .inl rfl
    | some selection => exact .inr (usableSelection_eq_some (hselected selection rfl))
  have hsublist : ∀ files ∈ (selected.map fun selection =>
      selection.databases.filter fun file => file.source ≠ .bob),
      (files.map SourceFile.path).Nodup := by
    intro files hfiles
    obtain ⟨selection, hselection, rfl⟩ := Option.map_eq_some_iff.mp hfiles
    rcases hhinted with hnone | hsome
    · rw [hnone] at hselection
      cases hselection
    · exact (honce.selected selection (hsome.trans hselection)).sublist
        (List.filter_sublist.map SourceFile.path)
  obtain ⟨databases, scan, hscanned, hsame, hfull, hfullOnly, hincluded, hlisted, hlegacyTasks,
    hlegacyPaths⟩ := discoverOpencode_scanned honce.listed hsublist hopencode
  rw [hfound.opencodeDatabases] at hscanned hsame
  have hstateDrops := discoverOpencode_drops hlocalDrops.coherent hopencode
  have hbacks {path : String}
      (hpath : FileBacked inputs.inv path ∨ SelectedFile (selected.map Selection.files) path) :
      inputs.Backs path := by
    rcases hpath with hbacked | hfile
    · exact .inl hbacked
    · rcases hhinted with rfl | hsome
      · obtain ⟨files, hfiles, -⟩ := hfile
        cases hfiles
      · exact .inr (hsome ▸ hfile)
  have htasks : ∀ task ∈ found.transcripts.tasks ++ found.bob.tasks ++ opencode.tasks,
      inputs.Backs task.path := by
    intro task htask
    rcases List.mem_append.mp htask with htask | htask
    · exact hbacks (hlocalTasks task htask)
    · exact .inl (hlegacyTasks task htask)
  have hstored (path : String) (hpath : path ∈ session.rows.keys) :
      path ∈ durable.checkpoint.files :=
    Finmap.mem_keys.mp (hrows (hsessionRows hpath))
  have hstateRows : state.rows.keys ⊆ session.rows.keys := by
    rw [hstateDrops.keys, hlocalDrops.keys]
    exact Finset.sdiff_subset.trans Finset.sdiff_subset
  have hfullSelected : selected.isNone = true ↔
      (selected.map fun selection =>
        selection.databases.filter fun file => file.source ≠ .bob) = none := by
    cases selected <;> simp
  refine ⟨databases, scan, ?_⟩
  constructor
  · exact hscanned
  · intro hnone hinclude
    exact hfull (hfullSelected.mp hnone) hinclude
  · intro hscanFull
    obtain ⟨hnone, hdatabases⟩ := hfullOnly hscanFull
    exact ⟨hfullSelected.mpr hnone, hdatabases⟩
  · exact hincluded
  · intro path hpath
    refine (hlisted path hpath).imp_right fun hfile => ?_
    rcases hhinted with rfl | hsome
    · obtain ⟨files, hfiles, -⟩ := hfile
      cases hfiles
    · exact hsome ▸ hfile
  · exact hsame.readyDatabases
  · exact hsame.readyOwnedSessions
  · exact hsame.scopeTargets
  · exact hsame.deferredPendingScopes
  · have hdatabases : state.opencodeDatabases = recoveredStates durable :=
      (discoverOpencode_sameBase hopencode).opencodeDatabases.trans hfound.opencodeDatabases
    rw [← hdatabases]
    simp only [finishPrepare, hsame.databaseStates, hsame.databasePathsToDelete, hdatabases]
    rfl
  · intro path hbacked hrow
    have hlegacy : path ∉ opencode.legacyPathsToDelete :=
      fun hmem => hbacked (.inl (hlegacyPaths path hmem))
    have hprojection : path ∉ found.supersededPaths :=
      fun hmem => hbacked (.inl (hsuperseded path hmem))
    have hexcludedState : path ∉ found.excludedStatePaths :=
      fun hmem => hrow (hstored path (hexcludedRows hmem))
    have hmissing : path ∉ found.bob.missingPaths :=
      fun hmem => hrow (hstored path (hmissingRows hmem))
    have hkeys : path ∉ state.fileKeys := by
      intro hmem
      rw [hstateDrops.coherent.fileKeys_eq] at hmem
      exact hrow (hstored path (hstateRows hmem))
    have hreplaced : path ∉ deleteFirstPaths
        (found.transcripts.tasks ++ found.bob.tasks ++ opencode.tasks) := by
      intro hmem
      obtain ⟨task, htask, -, rfl⟩ := mem_deleteFirstPaths.mp hmem
      exact hbacked (htasks task htask)
    have hindexed : (recoverCheckpoint durable).1.indexedPaths = durable.indexedPaths := by
      rw [Durable.indexedPaths, hlexical]
      rfl
    rw [mem_deletePaths_iff_of_scan, hindexed, hsame.databasePathsToDelete, hrecovery]
    simp only [hlegacy, hkeys, hmissing, hprojection, hexcludedState, hreplaced, false_and,
      and_false, false_or, or_false]
    rfl
  · exact htasks
  · exact hprepared
  · exact (finishPrepare_rows hstateDrops.coherent).1
  · intro path hpath
    exact Finmap.mem_keys.mpr
      (hstored path (hstateRows ((finishPrepare_rows hstateDrops.coherent).2 hpath)))

end Prepared

end Memex.Ingest
