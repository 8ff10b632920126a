import Memex.Ingest.EventLog
import Memex.Ingest.Interrupted

/-! # Change detection of the first OpenCode layout

A scan asks the event log of a database for the sessions that changed behind the stored cursor.
The database is written at any time: before a scan, between the scan and the hydration, and after
it. The writes log what they change, or put another database in place: what a refresh passes over
is up to date. -/

namespace Memex.Ingest

open Overlay State Sources Sources.Opencode

/-- The cursor stored for a database. -/
def storedCursor (durable : Durable) (path : String) : Option OpencodeDatabaseState :=
  durable.checkpoint.opencodeDatabases.lookup path

/-- An installation, the current content of one database, and every content that it had. -/
structure DatabaseWorld where
  durable : Durable := {}
  content : Database
  contents : List Database := [content]

/-- A write to the database, or a refresh with the contents that it takes on between the scan and
the hydration. Other databases show the refresh what they like. -/
inductive DatabaseEvent where
  | write (content : Database)
  | refreshed (refresh : DatabaseRefresh) (meanwhile : List Database)

def DatabaseEvent.apply (world : DatabaseWorld) : DatabaseEvent → DatabaseWorld
  | .write content => { world with content, contents := world.contents ++ [content] }
  | .refreshed refresh meanwhile =>
      { durable := (ingestSelected refresh.inputs world.durable).durable
        content := meanwhile.getLastD world.content
        contents := world.contents ++ meanwhile }

/-- How a refresh meets the database. It lists it and reads it in the first layout, or fails to
read it. Between scan and hydration both the stored cursor and that of the scan are in use. -/
structure DatabaseRefresh.Meets (crates : Crates) (path : String) (refresh : DatabaseRefresh)
    (world : DatabaseWorld) (meanwhile : List Database) : Prop where
  reads : ReadsDatabases crates refresh.views refresh.inputs
  separate : ¬ refresh.inputs.Backs path
  listed : path ∈ refresh.inputs.inv.opencodeDatabases
  included : refresh.inputs.options.excluder.isExcluded path = false
  scanned : ∀ content ∈ (refresh.views path).scanned, content = world.content
  hydrated : ∀ content ∈ (refresh.views path).hydrated,
    content = meanwhile.getLastD world.content
  writes : WritesAllowed path
    (scannedCursor world.content :: (storedCursor world.durable path).toList)
    world.contents world.content meanwhile

/-- An event that the database and its refreshes allow. -/
def DatabaseEvent.Allowed (crates : Crates) (path : String) (world : DatabaseWorld) :
    DatabaseEvent → Prop
  | .write content => WriteAllowed path (storedCursor world.durable path).toList
      world.contents world.content content
  | .refreshed refresh meanwhile => refresh.Meets crates path world meanwhile

/-- Every event of a run is allowed where it happens. -/
def RunAllowed (crates : Crates) (path : String) : List DatabaseEvent → DatabaseWorld → Prop
  | [], _ => True
  | event :: rest, world =>
      event.Allowed crates path world ∧ RunAllowed crates path rest (event.apply world)

/-- The intent of an interrupted refresh names a scope. -/
def ScopePending (durable : Durable) (scope : SessionScope) : Prop :=
  ∃ intent ∈ durable.checkpoint.pending, scope ∈ intent.sessionScopes

/-- Between events: owned sessions are tracked, and sessions that are not owned have no records,
unless an interrupted refresh named their scope. -/
structure Detected (path : String) (world : DatabaseWorld) : Prop where
  layout : world.content.hasV2Schema = false
  table : EventTable world.content
  current : world.content ∈ world.contents
  scanned : ∀ cursor ∈ storedCursor world.durable path, ScannedFrom world.contents cursor
  untracked : path ∉ world.durable.checkpoint.files
  unnamed : ∀ intent ∈ world.durable.checkpoint.pending, path ∉ intent.sourcePaths
  owned : ∀ session ∈ ownedSessionIds world.durable.checkpoint.opencodeDatabases path,
    ScopePending world.durable ⟨path, session⟩ ∨
      ∀ cursor ∈ storedCursor world.durable path, (eventLog path).Tracks cursor
        world.content session (some (indexedBodies world.durable path session))
  unowned : ∀ session ∉ ownedSessionIds world.durable.checkpoint.opencodeDatabases path,
    ScopePending world.durable ⟨path, session⟩ ∨
      scopeRecords world.durable.lexical ⟨path, session⟩ = 0

section Scan

variable {content : Database} {previous : Option OpencodeDatabaseState} {scan : DatabaseScan}
  {session path : String}

theorem mapM_sessionIds {rows : List SessionRow} {sessions : List OpencodeSession}
    (h : rows.mapM (fun row => row.timestamps.map fun _ =>
      ({ id := row.id, directory := row.directory } : OpencodeSession)) = some sessions) :
    sessions.map OpencodeSession.id = rows.map SessionRow.id := by
  induction rows generalizing sessions with
  | nil =>
      cases h
      rfl
  | cons row rest ih =>
      rw [List.mapM_cons, Option.bind_eq_bind, Option.bind_eq_some_iff] at h
      obtain ⟨session, hsession, h⟩ := h
      obtain ⟨others, hothers, h⟩ := Option.bind_eq_some_iff.mp h
      obtain ⟨_, -, rfl⟩ := Option.map_eq_some_iff.mp hsession
      cases h
      rw [List.map_cons, List.map_cons, ih hothers]

/-- What a scan of the first layout finds. -/
theorem scanDatabase_v1 (hv1 : content.hasV2Schema = false)
    (h : scanDatabase content previous = some scan) :
    scan.v2 = false ∧ scan.eventRowid = (scannedCursor content).eventRowid ∧
      scan.eventId = (scannedCursor content).eventId ∧
      scan.dirtySessionIds = dirtySessionsV1 (eventRows content)
        (scan.sessions.map OpencodeSession.id).toFinset previous ∧
      ∀ session, session ∈ scan.sessions.map OpencodeSession.id ↔ HasSession content session := by
  rw [scanDatabase, if_neg (by simp [hv1])] at h
  split at h
  · obtain ⟨sessions, hsessions, h⟩ := Option.bind_eq_some_iff.mp h
    obtain ⟨events, hevents, rfl⟩ := Option.map_eq_some_iff.mp h
    have hrows : eventRows content = events := by
      rw [eventRows, hevents]
      rfl
    refine ⟨rfl, ?_, ?_, ?_, ?_⟩
    · rw [scannedCursor, hrows]
    · rw [scannedCursor, hrows]
    · rw [hrows]
    · intro session
      obtain ⟨rows, hread, hmap⟩ := Option.bind_eq_some_iff.mp hsessions
      rw [mapM_sessionIds hmap, List.mem_map, HasSession, hread]
      simp only [List.mem_insertionSort, Option.getD_some]
  · cases h

/-- What a scan passes over was owned under a cursor that belongs to the log, and no later event
names it. -/
theorem passedOver_of_not_dirty {events : List EventRow} {current : Finset String}
    (hlisted : session ∈ current) (h : session ∉ dirtySessionsV1 events current previous) :
    ∃ state, previous = some state ∧ cursorIsValid events state = true ∧
      session ∈ state.ownedSessionIds ∧ session ∉ eventDelta events state := by
  cases previous with
  | none => exact absurd hlisted h
  | some state =>
      rw [dirtySessionsV1] at h
      split at h
      · next hvalid =>
        rw [Finset.mem_union, not_or, Finset.mem_sdiff, Finset.mem_inter] at h
        obtain ⟨hnew, hdelta⟩ := h
        refine ⟨state, rfl, hvalid, ?_, fun hmem => hdelta ⟨hmem, hlisted⟩⟩
        by_contra hunowned
        exact hnew ⟨hlisted, hunowned⟩
      · exact absurd hlisted h

/-- A session in the hydrated content. -/
theorem parseSession_v1 {crates : Crates} {records : List Record} (hv2 : scan.v2 = false)
    (h : parseSession crates content path scan session = some records) :
    sessionBodies path content session =
      some ((records.map Record.body : List Record) : Multiset Record) := by
  rw [parseSession, v2SessionIds, hv2, if_neg (by simp)] at h
  rw [sessionBodies, h]
  rfl

end Scan

section Step

variable {crates : Crates} {path session : String} {refresh : DatabaseRefresh}
  {world : DatabaseWorld} {meanwhile : List Database} {durable : Durable}
  {prepared : PreparedRefresh} {databases : List String} {scan : OpencodeScan}
  {database : PreparedOpencodeDatabase}

/-- A listed database is not found to be gone. -/
theorem DatabaseRefresh.Meets.outcome (hmeets : refresh.Meets crates path world meanwhile)
    (h : OpencodePlan refresh.inputs durable prepared databases scan) :
    (∃ database ∈ scan.ready, database.path = path) ∨
      (path ∉ scan.ready.map PreparedOpencodeDatabase.path ∧ scan.outcome path = .failed) := by
  by_cases hready : path ∈ scan.ready.map PreparedOpencodeDatabase.path
  · obtain ⟨database, hmem, hpath⟩ := List.mem_map.mp hready
    exact .inl ⟨database, hmem, hpath⟩
  · refine .inr ⟨hready, ?_⟩
    rw [h.scanned.outcome, if_neg hready]
    refine if_neg ?_
    rintro ⟨hfull, hgone⟩
    apply hgone
    rw [(h.fullOnly hfull).2]
    exact ⟨hmeets.listed, hmeets.included⟩

theorem DatabaseRefresh.Meets.not_absent (hmeets : refresh.Meets crates path world meanwhile)
    (h : OpencodePlan refresh.inputs durable prepared databases scan) :
    path ∉ scan.pathsToDelete (recoveredStates durable) := by
  intro hmem
  have habsent := (Finset.mem_filter.mp hmem).2
  rcases hmeets.outcome h with ⟨database, hready, hpath⟩ | ⟨-, hfailed⟩
  · rw [← hpath, h.scanned.outcome_of_ready hready] at habsent
    cases habsent
  · rw [hfailed] at habsent
    cases habsent

/-- A refresh does not delete the database as a whole. -/
theorem Detected.not_deleted (hworld : Detected path world)
    (hmeets : refresh.Meets crates path world meanwhile)
    (h : OpencodePlan refresh.inputs world.durable prepared databases scan) :
    path ∉ prepared.deletePaths := by
  rw [h.deletes path hmeets.separate hworld.untracked]
  rintro (hpending | habsent | ⟨-, -, hexcluded⟩)
  · cases hintent : world.durable.checkpoint.pending with
    | none =>
        rw [hintent] at hpending
        exact absurd hpending (Finset.notMem_empty path)
    | some intent =>
        rw [hintent] at hpending
        exact hworld.unnamed intent hintent hpending
  · exact hmeets.not_absent h habsent
  · rw [hmeets.included] at hexcluded
    cases hexcluded

/-- A refresh starts from the stored state, unless it reads everything again. -/
theorem Detected.recovered_lookup (hworld : Detected path world) :
    (recoveredStates world.durable).lookup path = storedCursor world.durable path ∨
      (world.durable.lexical = 0 ∧ recoveredStates world.durable = ∅) := by
  have hkept : (preparePendingIngestRecovery (CheckpointSession.open
      world.durable.checkpoint)).1.opencodeDatabases.lookup path =
        storedCursor world.durable path := by
    rw [preparePendingIngestRecovery]
    split
    · rfl
    · next intent hintent =>
      have hbase := SameBase.deleteFiles (CheckpointSession.open world.durable.checkpoint)
        intent.sourcePaths
      rw [lookup_eraseAll, if_neg, hbase.opencodeDatabases]
      · rfl
      · intro hmem
        exact hworld.unnamed intent hintent (Finset.mem_filter.mp hmem).1
  rw [recoveredStates, recoverCheckpoint]
  dsimp only
  split
  · next hempty => exact .inr ⟨hempty.1, rfl⟩
  · exact .inl hkept

/-- A failed database keeps its records, and its interrupted scopes wait for it. -/
theorem OpencodePlan.not_target_of_failed {inputs : RefreshInputs}
    (h : OpencodePlan inputs durable prepared databases scan)
    (hfailed : scan.outcome path = .failed) :
    ⟨path, session⟩ ∉ prepared.opencodeScopeTargets := by
  rw [h.targets, h.scanned.mem_scopeTargets]
  rintro (⟨hready, -⟩ | ⟨other, hother, hpath, -⟩ | ⟨-, -, -, hready⟩)
  · rw [hfailed] at hready
    cases hready
  · have hready := h.scanned.outcome_of_ready hother
    rw [hpath, hfailed] at hready
    cases hready
  · rw [hfailed] at hready
    cases hready

theorem OpencodePlan.deferred_of_failed {inputs : RefreshInputs}
    (h : OpencodePlan inputs durable prepared databases scan)
    (hfailed : scan.outcome path = .failed) (hpending : ScopePending durable ⟨path, session⟩) :
    ⟨path, session⟩ ∈ prepared.deferredPendingScopes := by
  obtain ⟨intent, hintent, hscope⟩ := hpending
  rw [h.deferred, Option.mem_def.mp hintent]
  exact Finset.mem_filter.mpr ⟨hscope, hfailed⟩

/-- A ready database has its interrupted scopes read again. -/
theorem OpencodePlan.target_of_pending {inputs : RefreshInputs}
    (h : OpencodePlan inputs durable prepared databases scan)
    (hready : scan.outcome path = .ready) (hpending : ScopePending durable ⟨path, session⟩) :
    ⟨path, session⟩ ∈ prepared.opencodeScopeTargets := by
  obtain ⟨intent, hintent, hscope⟩ := hpending
  rw [h.targets, h.scanned.mem_scopeTargets]
  exact .inr (.inr ⟨intent, hintent, hscope, hready⟩)

/-- A scope that is no target keeps its records. -/
theorem Detected.records_kept (hworld : Detected path world)
    (hmeets : refresh.Meets crates path world meanwhile)
    (h : OpencodePlan refresh.inputs world.durable prepared databases scan)
    {lexical : Multiset Record}
    (hpublished : ScopePublished world.durable prepared ⟨path, session⟩ lexical)
    (htarget : ⟨path, session⟩ ∉ prepared.opencodeScopeTargets) :
    scopeRecords lexical ⟨path, session⟩ = scopeRecords world.durable.lexical ⟨path, session⟩ := by
  have hread (database : PreparedOpencodeDatabase) :
      ¬ ScopeRead world.durable scan ⟨path, session⟩ database :=
    fun hread => htarget (h.target_of_read hread)
  have hkept : ¬ ScopeDeleted prepared ⟨path, session⟩ := by
    rintro (hpath | hscope)
    · exact hworld.not_deleted hmeets h hpath
    · exact htarget hscope
  rw [hpublished, h.replayed_of_not_read hmeets.reads hread, if_neg hkept, add_zero]

/-- A target that is not read has no records afterwards. -/
theorem OpencodePlan.records_dropped
    (h : OpencodePlan refresh.inputs durable prepared databases scan)
    (hreads : ReadsDatabases crates refresh.views refresh.inputs) {lexical : Multiset Record}
    (hpublished : ScopePublished durable prepared ⟨path, session⟩ lexical)
    (htarget : ⟨path, session⟩ ∈ prepared.opencodeScopeTargets)
    (hread : ∀ database, ¬ ScopeRead durable scan ⟨path, session⟩ database) :
    scopeRecords lexical ⟨path, session⟩ = 0 := by
  rw [hpublished, h.replayed_of_not_read hreads hread, if_pos (.inr htarget), add_zero]

/-- The content that a ready database showed to the scan. -/
theorem Detected.scan_of_ready (hworld : Detected path world)
    (hmeets : refresh.Meets crates path world meanwhile)
    (h : OpencodePlan refresh.inputs world.durable prepared databases scan)
    (hready : database ∈ scan.ready) (hpath : database.path = path) :
    scanDatabase world.content ((recoveredStates world.durable).lookup path) =
      some database.scan := by
  subst hpath
  obtain ⟨-, ⟨-, -, hscan⟩, -⟩ := h.scanned.ready database hready
  rw [hmeets.reads.stores] at hscan
  obtain ⟨content, hcontent, hscan⟩ := Option.bind_eq_some_iff.mp hscan
  rw [hmeets.scanned content hcontent] at hscan
  exact hscan

/-- What a refresh reads of a session is what its rows say at the hydration. -/
theorem Detected.read_current (hworld : Detected path world)
    (hmeets : refresh.Meets crates path world meanwhile)
    (h : OpencodePlan refresh.inputs world.durable prepared databases scan)
    (hread : ScopeRead world.durable scan ⟨path, session⟩ database) {final : Durable}
    (hpublished : ScopePublished world.durable prepared ⟨path, session⟩ final.lexical) :
    sessionBodies path (meanwhile.getLastD world.content) session =
      some (indexedBodies final path session) := by
  obtain ⟨content, records, hcontent, hrecords, hbodies⟩ := h.replayed_of_read hmeets.reads hread
  obtain ⟨hv2, -⟩ := scanDatabase_v1 hworld.layout
    (hworld.scan_of_ready hmeets h hread.ready hread.path)
  rw [hmeets.hydrated content hcontent] at hrecords
  rw [parseSession_v1 hv2 hrecords, indexedBodies, hpublished,
    if_pos (.inr (h.target_of_read hread)), zero_add, ← hbodies]

/-- What a refresh passes over is up to date. -/
theorem Detected.passed_current (hworld : Detected path world)
    (hmeets : refresh.Meets crates path world meanwhile)
    (h : OpencodePlan refresh.inputs world.durable prepared databases scan)
    (hready : database ∈ scan.ready) (hpath : database.path = path)
    (hlisted : session ∈ database.scan.sessions.map OpencodeSession.id)
    (howner : scan.owner (recoveredStates world.durable) session = some path)
    (hread : ¬ ScopeRead world.durable scan ⟨path, session⟩ database) {final : Durable}
    (hpublished : ScopePublished world.durable prepared ⟨path, session⟩ final.lexical) :
    sessionBodies path world.content session = some (indexedBodies final path session) := by
  have hscan := hworld.scan_of_ready hmeets h hready hpath
  obtain ⟨-, -, -, hdirty, hsessions⟩ := scanDatabase_v1 hworld.layout hscan
  have hasked : session ∉ hydrationSessionIds world.durable.checkpoint.pending path database.scan :=
    fun hasked => hread ⟨hready, hpath, howner, hlisted, hasked⟩
  rw [mem_hydrationSessionIds, not_or] at hasked
  obtain ⟨hclean, hpending⟩ := hasked
  rw [hdirty] at hclean
  obtain ⟨state, hstate, hvalid, howned, hdelta⟩ :=
    passedOver_of_not_dirty (List.mem_toFinset.mpr hlisted) hclean
  have hstored : storedCursor world.durable path = some state := by
    rcases hworld.recovered_lookup with heq | ⟨-, hempty⟩
    · rw [← heq, hstate]
    · rw [hempty, Finmap.lookup_empty] at hstate
      cases hstate
  have hmine : session ∈ ownedSessionIds world.durable.checkpoint.opencodeDatabases path := by
    rw [storedCursor] at hstored
    rw [ownedSessionIds, hstored]
    exact howned
  have hsettled : ¬ ScopePending world.durable ⟨path, session⟩ := by
    rintro ⟨intent, hintent, hscope⟩
    exact hpending ⟨intent, hintent, hscope⟩
  have htracks := (hworld.owned session hmine).resolve_left hsettled state hstored
  have hview : (eventLog path).view world.content session =
      some (sessionBodies path world.content session) := by
    exact if_pos ((hsessions session).mp hlisted)
  have hbefore := htracks.trusted hvalid hdelta hview
  have htarget : ⟨path, session⟩ ∉ prepared.opencodeScopeTargets := by
    rw [h.targets, h.scanned.mem_scopeTargets]
    rintro (⟨-, -, hlost⟩ | ⟨other, hother, hotherPath, hmarked, -⟩ |
      ⟨intent, hintent, hscope, -⟩)
    · exact hlost howner
    · rw [h.scanned.ready_unique hother hready (hotherPath.trans hpath.symm), hdirty] at hmarked
      exact hclean hmarked
    · exact hpending ⟨intent, hintent, hscope⟩
  rw [hbefore, indexedBodies, indexedBodies, hworld.records_kept hmeets h hpublished htarget]

/-- The state stored for the database once the refresh has finished. -/
theorem DatabaseRefresh.Meets.installed_lookup
    (hmeets : refresh.Meets crates path world meanwhile)
    (h : OpencodePlan refresh.inputs durable prepared databases scan) :
    (∀ database ∈ scan.ready, database.path = path →
        prepared.installedOpencodeStates.lookup path =
          some (readyState (scan.owner (recoveredStates durable)) database)) ∧
      (path ∉ scan.ready.map PreparedOpencodeDatabase.path →
        prepared.installedOpencodeStates.lookup path =
          (recoveredStates durable).lookup path) := by
  constructor
  · intro database hready hpath
    subst hpath
    have hlookup : (readyTable (readyState (scan.owner (recoveredStates durable)))
        scan.ready).lookup database.path = some _ := lookup_readyTable h.scanned.nodup hready
    rw [h.installed, Finmap.lookup_union_left (Finmap.mem_of_lookup_eq_some hlookup), hlookup]
  · intro hpath
    have hlookup := lookup_readyTable_of_not_ready
      (readyState (scan.owner (recoveredStates durable))) hpath
    rw [h.installed, Finmap.lookup_union_right (Finmap.lookup_eq_none.mp hlookup),
      lookup_eraseAll, if_neg (hmeets.not_absent h)]

/-- The log is kept for the stored cursor while a refresh runs. -/
theorem Detected.stored_kept (hworld : Detected path world)
    (hmeets : refresh.Meets crates path world meanwhile) {cursor : OpencodeDatabaseState}
    (hcursor : cursor ∈ storedCursor world.durable path) :
    List.IsChain ((eventLog path).Keeps cursor) (world.content :: meanwhile) :=
  hmeets.writes.keeps hworld.table
    (List.mem_cons_of_mem _ (Option.mem_toList.mpr hcursor)) (hworld.scanned cursor hcursor)

/-- The log is kept for the cursor of the scan. -/
theorem Detected.inFlight_kept (hworld : Detected path world)
    (hmeets : refresh.Meets crates path world meanwhile) :
    List.IsChain ((eventLog path).Keeps (scannedCursor world.content))
      (world.content :: meanwhile) :=
  hmeets.writes.keeps hworld.table List.mem_cons_self ⟨_, hworld.current, rfl, rfl⟩

theorem Detected.current_last (hworld : Detected path world) :
    meanwhile.getLastD world.content ∈ world.contents ++ meanwhile := by
  rcases List.eq_nil_or_concat meanwhile with rfl | ⟨before, last, rfl⟩
  · exact List.mem_append_left [] hworld.current
  · rw [List.concat_eq_append, List.getLastD_concat]
    simp

/-- Trust depends on the place of the cursor in the log only. -/
theorem tracks_congr {cursor other : OpencodeDatabaseState} {content : Database}
    {copy : Option (Multiset Record)} (hversion : cursor.parserVersion = other.parserVersion)
    (hrowid : cursor.eventRowid = other.eventRowid) (hid : cursor.eventId = other.eventId) :
    (eventLog path).Tracks cursor content session copy ↔
      (eventLog path).Tracks other content session copy := by
  simp only [ChangeLog.Tracks, eventLog, cursorIsValid, eventDelta, hversion, hrowid, hid]

theorem scopePending_of_finished {final : Durable} {scope : SessionScope}
    (hfinal : Finished refresh.inputs durable prepared final) :
    ScopePending final scope ↔ scope ∈ prepared.deferredPendingScopes := by
  rw [← hfinal.scopes, ScopePending]
  cases final.checkpoint.pending with
  | none => simp
  | some intent => simp

/-- A finished refresh that read the database has it up to date, but for what was written since
the scan. -/
theorem Detected.finished_ready (hworld : Detected path world)
    (hmeets : refresh.Meets crates path world meanwhile)
    (h : OpencodePlan refresh.inputs world.durable prepared databases scan) {final : Durable}
    (hfinal : Finished refresh.inputs world.durable prepared final)
    (hready : database ∈ scan.ready) (hpath : database.path = path) :
    (∀ session ∈ ownedSessionIds final.checkpoint.opencodeDatabases path,
        sessionBodies path world.content session = some (indexedBodies final path session) ∨
          sessionBodies path (meanwhile.getLastD world.content) session =
            some (indexedBodies final path session)) ∧
      ∀ session ∉ ownedSessionIds final.checkpoint.opencodeDatabases path,
        scopeRecords final.lexical ⟨path, session⟩ = 0 := by
  have howned (session : String) :
      session ∈ ownedSessionIds final.checkpoint.opencodeDatabases path ↔
        session ∈ database.scan.sessions.map OpencodeSession.id ∧
          scan.owner (recoveredStates world.durable) session = some path := by
    rw [hfinal.databases, ownedSessionIds, (hmeets.installed_lookup h).1 database hready hpath,
      ← hpath]
    exact mem_readyOwned
  have hpublished (session : String) := hfinal.records ⟨path, session⟩ hmeets.separate
  have houtcome : scan.outcome path = .ready := hpath ▸ h.scanned.outcome_of_ready hready
  constructor
  · intro session hsession
    obtain ⟨hlisted, howner⟩ := (howned session).mp hsession
    by_cases hread : ScopeRead world.durable scan ⟨path, session⟩ database
    · exact .inr (hworld.read_current hmeets h hread (hpublished session))
    · exact .inl (hworld.passed_current hmeets h hready hpath hlisted howner hread
        (hpublished session))
  · intro session hsession
    have hread (other : PreparedOpencodeDatabase) :
        ¬ ScopeRead world.durable scan ⟨path, session⟩ other := by
      intro hread
      refine hsession ((howned session).mpr ⟨?_, hread.owner⟩)
      rw [h.scanned.ready_unique hready hread.ready (hpath.trans hread.path.symm)]
      exact hread.listed
    by_cases htarget : ⟨path, session⟩ ∈ prepared.opencodeScopeTargets
    · exact h.records_dropped hmeets.reads (hpublished session) htarget hread
    · rw [hworld.records_kept hmeets h (hpublished session) htarget]
      have hsettled : ¬ ScopePending world.durable ⟨path, session⟩ :=
        fun hpending => htarget (h.target_of_pending houtcome hpending)
      rw [h.targets, h.scanned.mem_scopeTargets, not_or] at htarget
      obtain ⟨hlost, -⟩ := htarget
      have hbefore : session ∉ ownedSessionIds (recoveredStates world.durable) path := by
        intro hmine
        have howner : scan.owner (recoveredStates world.durable) session = some path := by
          by_contra hne
          exact hlost ⟨houtcome, hmine, hne⟩
        refine hsession ((howned session).mpr ⟨?_, howner⟩)
        exact h.scanned.listed_of_owner hready (hpath ▸ howner)
      rcases hworld.recovered_lookup with heq | ⟨hempty, -⟩
      · rw [ownedSessionIds, heq] at hbefore
        exact (hworld.unowned session hbefore).resolve_left hsettled
      · rw [hempty]
        rfl

/-- A finished refresh leaves the database tracked. -/
theorem Detected.finished (hworld : Detected path world)
    (hmeets : refresh.Meets crates path world meanwhile)
    (h : OpencodePlan refresh.inputs world.durable prepared databases scan) {final : Durable}
    (hfinal : Finished refresh.inputs world.durable prepared final) :
    Detected path
      { durable := final
        content := meanwhile.getLastD world.content
        contents := world.contents ++ meanwhile } := by
  have hpublished (session : String) := hfinal.records ⟨path, session⟩ hmeets.separate
  obtain ⟨htable, hlayout⟩ := hmeets.writes.last hworld.table hworld.layout
  constructor
  · exact hlayout
  · exact htable
  · exact hworld.current_last
  · intro cursor hcursor
    have hcursor : final.checkpoint.opencodeDatabases.lookup path = some cursor := hcursor
    rw [hfinal.databases] at hcursor
    rcases hmeets.outcome h with ⟨database, hready, hpath⟩ | ⟨hmissing, -⟩
    · rw [(hmeets.installed_lookup h).1 database hready hpath] at hcursor
      obtain ⟨-, hrowid, hid, -⟩ := scanDatabase_v1 hworld.layout
        (hworld.scan_of_ready hmeets h hready hpath)
      obtain rfl := Option.some.inj hcursor
      exact ⟨world.content, List.mem_append_left _ hworld.current, hrowid, hid⟩
    · rw [(hmeets.installed_lookup h).2 hmissing] at hcursor
      rcases hworld.recovered_lookup with heq | ⟨-, hempty⟩
      · exact (hworld.scanned cursor (heq ▸ hcursor)).mono
      · rw [hempty, Finmap.lookup_empty] at hcursor
        cases hcursor
  · intro hfile
    rcases hfinal.files path hfile with hstored | hbacked
    · exact hworld.untracked hstored
    · exact hmeets.separate hbacked
  · intro intent hintent hmem
    have hpaths := hfinal.paths
    rw [Option.mem_def.mp hintent] at hpaths
    change intent.sourcePaths = ∅ at hpaths
    rw [hpaths] at hmem
    exact absurd hmem (Finset.notMem_empty path)
  · intro session hsession
    rcases hmeets.outcome h with ⟨database, hready, hpath⟩ | ⟨hmissing, hfailed⟩
    · right
      intro cursor hcursor
      have hscan := hworld.scan_of_ready hmeets h hready hpath
      obtain ⟨-, hrowid, hid, -, hlisted⟩ := scanDatabase_v1 hworld.layout hscan
      have hinstalled : some (readyState (scan.owner (recoveredStates world.durable)) database) =
          some cursor := by
        rw [← (hmeets.installed_lookup h).1 database hready hpath, ← hfinal.databases]
        exact hcursor
      obtain rfl := Option.some.inj hinstalled
      have hversion : (readyState (scan.owner (recoveredStates world.durable))
          database).parserVersion = (scannedCursor world.content).parserVersion := rfl
      apply (tracks_congr hversion hrowid hid).mpr
      rcases (hworld.finished_ready hmeets h hfinal hready hpath).1 session hsession with
        hpassed | hread
      · refine ChangeLog.Tracks.keepsAll (ChangeLog.tracks_of_view fun view hview => ?_)
          (hworld.inFlight_kept hmeets)
        rw [eventLog] at hview
        dsimp only at hview
        split at hview
        · rw [← Option.some.inj hview, hpassed]
        · cases hview
      · refine ChangeLog.tracks_of_view fun view hview => ?_
        rw [eventLog] at hview
        dsimp only at hview
        split at hview
        · rw [← Option.some.inj hview, hread]
        · cases hview
    · have hlookup : final.checkpoint.opencodeDatabases.lookup path =
          (recoveredStates world.durable).lookup path := by
        rw [hfinal.databases, (hmeets.installed_lookup h).2 hmissing]
      rcases hworld.recovered_lookup with heq | ⟨-, hempty⟩
      · have hmine : session ∈ ownedSessionIds world.durable.checkpoint.opencodeDatabases path := by
          rw [ownedSessionIds, hlookup, heq] at hsession
          exact hsession
        rcases hworld.owned session hmine with hpending | htracks
        · left
          exact (scopePending_of_finished hfinal).mpr (h.deferred_of_failed hfailed hpending)
        · right
          intro cursor hcursor
          have hstored : cursor ∈ storedCursor world.durable path := by
            rw [← heq, ← hlookup]
            exact hcursor
          have htarget := @OpencodePlan.not_target_of_failed path session _ _ _ _ _ h hfailed
          change (eventLog path).Tracks cursor (meanwhile.getLastD world.content) session
            (some (indexedBodies final path session))
          rw [indexedBodies, hworld.records_kept hmeets h (hpublished session) htarget]
          exact (htracks cursor hstored).keepsAll (hworld.stored_kept hmeets hstored)
      · rw [ownedSessionIds, hlookup, hempty, Finmap.lookup_empty] at hsession
        exact absurd hsession (Finset.notMem_empty session)
  · intro session hsession
    rcases hmeets.outcome h with ⟨database, hready, hpath⟩ | ⟨hmissing, hfailed⟩
    · exact .inr ((hworld.finished_ready hmeets h hfinal hready hpath).2 session hsession)
    · have hlookup : final.checkpoint.opencodeDatabases.lookup path =
          (recoveredStates world.durable).lookup path := by
        rw [hfinal.databases, (hmeets.installed_lookup h).2 hmissing]
      have htarget := @OpencodePlan.not_target_of_failed path session _ _ _ _ _ h hfailed
      have hkept := hworld.records_kept hmeets h (hpublished session) htarget
      change ScopePending final _ ∨ scopeRecords final.lexical _ = 0
      rw [hkept]
      rcases hworld.recovered_lookup with heq | ⟨hempty, -⟩
      · rw [ownedSessionIds, hlookup, heq] at hsession
        rcases hworld.unowned session hsession with hpending | hnone
        · left
          exact (scopePending_of_finished hfinal).mpr (h.deferred_of_failed hfailed hpending)
        · exact .inr hnone
      · right
        rw [hempty]
        rfl

/-- An interrupted refresh leaves the database tracked: what it may have touched is named by its
intent. -/
theorem Detected.interrupted (hworld : Detected path world)
    (hmeets : refresh.Meets crates path world meanwhile) {final : Durable}
    (hfinal : Interrupted refresh.inputs world.durable final) :
    Detected path
      { durable := final
        content := meanwhile.getLastD world.content
        contents := world.contents ++ meanwhile } := by
  have hstored : storedCursor final path = storedCursor world.durable path := by
    rw [storedCursor, hfinal.databases]
    rfl
  -- a scope stays interrupted, becomes interrupted, or keeps its records
  have hscope (session : String) : ScopePending final ⟨path, session⟩ ∨
      (¬ ScopePending world.durable ⟨path, session⟩ ∧
        scopeRecords final.lexical ⟨path, session⟩ =
          scopeRecords world.durable.lexical ⟨path, session⟩) := by
    rcases hfinal.intent with ⟨hpending, hrecords⟩ |
      ⟨prepared, databases, scan, intent, hplan, hintent, hscopes, -, hrecords⟩
    · by_cases hbefore : ScopePending world.durable ⟨path, session⟩
      · left
        rw [ScopePending, hpending]
        exact hbefore
      · exact .inr ⟨hbefore, hrecords ⟨path, session⟩ hmeets.separate⟩
    · by_cases hnamed : (⟨path, session⟩ : SessionScope) ∈
          prepared.opencodeScopeTargets ∪ prepared.deferredPendingScopes
      · exact .inl ⟨intent, hintent, hscopes ▸ hnamed⟩
      · rw [Finset.mem_union, not_or] at hnamed
        obtain ⟨htarget, hdeferred⟩ := hnamed
        right
        constructor
        · intro hpending
          rcases hmeets.outcome hplan with ⟨database, hready, hpath⟩ | ⟨-, hfailed⟩
          · refine htarget (hplan.target_of_pending ?_ hpending)
            exact hpath ▸ hplan.scanned.outcome_of_ready hready
          · exact hdeferred (hplan.deferred_of_failed hfailed hpending)
        · rcases hrecords ⟨path, session⟩ hmeets.separate with hkept | hpublished
          · exact hkept
          · exact hworld.records_kept hmeets hplan hpublished htarget
  obtain ⟨htable, hlayout⟩ := hmeets.writes.last hworld.table hworld.layout
  constructor
  · exact hlayout
  · exact htable
  · exact hworld.current_last
  · intro cursor hcursor
    exact (hworld.scanned cursor (hstored ▸ hcursor)).mono
  · change path ∉ final.checkpoint.files
    rw [hfinal.files]
    exact hworld.untracked
  · rcases hfinal.intent with ⟨hpending, -⟩ |
      ⟨prepared, databases, scan, intent, hplan, hintent, -, hpaths, -⟩
    · change ∀ intent ∈ final.checkpoint.pending, path ∉ intent.sourcePaths
      rw [hpending]
      exact hworld.unnamed
    · intro other hother hmem
      obtain rfl : intent = other := Option.some.inj (hintent.symm.trans hother)
      rw [hpaths, affectedPaths, Finset.mem_union] at hmem
      rcases hmem with hdeleted | htask
      · exact hworld.not_deleted hmeets hplan hdeleted
      · obtain ⟨task, hmem, hpath⟩ := List.mem_map.mp (List.mem_toFinset.mp htask)
        exact hmeets.separate (hpath ▸ hplan.tasks task hmem)
  · intro session hsession
    have hmine : session ∈ ownedSessionIds world.durable.checkpoint.opencodeDatabases path := by
      rw [← hfinal.databases]
      exact hsession
    rcases hscope session with hpending | ⟨hsettled, hrecords⟩
    · exact .inl hpending
    · right
      intro cursor hcursor
      have hcursor : cursor ∈ storedCursor world.durable path := hstored ▸ hcursor
      have htracks := (hworld.owned session hmine).resolve_left hsettled cursor hcursor
      change (eventLog path).Tracks cursor (meanwhile.getLastD world.content) session
        (some (indexedBodies final path session))
      rw [indexedBodies, hrecords]
      exact htracks.keepsAll (hworld.stored_kept hmeets hcursor)
  · intro session hsession
    have hnot : session ∉ ownedSessionIds world.durable.checkpoint.opencodeDatabases path := by
      rw [← hfinal.databases]
      exact hsession
    rcases hscope session with hpending | ⟨hsettled, hrecords⟩
    · exact .inl hpending
    · right
      change scopeRecords final.lexical ⟨path, session⟩ = 0
      rw [hrecords]
      exact (hworld.unowned session hnot).resolve_left hsettled

/-- A refresh, finished or not, leaves the database tracked. -/
theorem Detected.refreshed (hworld : Detected path world)
    (hmeets : refresh.Meets crates path world meanwhile) :
    Detected path ((DatabaseEvent.refreshed refresh meanwhile).apply world) := by
  cases hok : (ingestSelected refresh.inputs world.durable).ok with
  | true =>
      obtain ⟨prepared, databases, scan, -, hplan, hfinal⟩ :=
        ingestSelected_finished hmeets.reads hok
      exact hworld.finished hmeets hplan hfinal
  | false => exact hworld.interrupted hmeets (ingestSelected_interrupted hmeets.reads hok)

/-- A write leaves the database tracked. -/
theorem Detected.written (hworld : Detected path world) {content : Database}
    (hwrite : WriteAllowed path (storedCursor world.durable path).toList world.contents
      world.content content) :
    Detected path ((DatabaseEvent.write content).apply world) where
  layout := hwrite.layout
  table := hwrite.table
  current := List.mem_append_right _ (List.mem_singleton_self content)
  scanned cursor hcursor := (hworld.scanned cursor hcursor).mono
  untracked := hworld.untracked
  unnamed := hworld.unnamed
  owned session hsession := (hworld.owned session hsession).imp_right
    fun htracks cursor hcursor => (htracks cursor hcursor).keeps (hwrite.keeps hworld.table
      (Option.mem_toList.mpr hcursor) (hworld.scanned cursor hcursor))
  unowned := hworld.unowned

theorem Detected.initial {content : Database} (hlayout : content.hasV2Schema = false)
    (htable : EventTable content) : Detected path { content } where
  layout := hlayout
  table := htable
  current := List.mem_singleton_self content
  scanned _ hcursor := absurd hcursor (Option.not_mem_none _)
  untracked := Finmap.notMem_empty
  unnamed intent hintent := absurd hintent (Option.not_mem_none intent)
  owned session hsession := absurd hsession (Finset.notMem_empty session)
  unowned _ _ := .inr rfl

end Step

/-- The database and the installation after some events. -/
def runDatabase (events : List DatabaseEvent) (content : Database) : DatabaseWorld :=
  events.foldl DatabaseEvent.apply { content }

section Runs

variable {crates : Crates} {path : String} {world : DatabaseWorld}

theorem runAllowed_concat {events : List DatabaseEvent} {event : DatabaseEvent} :
    RunAllowed crates path (events ++ [event]) world ↔ RunAllowed crates path events world ∧
      event.Allowed crates path (events.foldl DatabaseEvent.apply world) := by
  induction events generalizing world with
  | nil => simp [RunAllowed]
  | cons first rest ih => simp [RunAllowed, ih, and_assoc]

/-- Over a run the database stays tracked. -/
theorem Detected.events (hworld : Detected path world) (events : List DatabaseEvent)
    (hallowed : RunAllowed crates path events world) :
    Detected path (events.foldl DatabaseEvent.apply world) := by
  induction events generalizing world with
  | nil => exact hworld
  | cons event rest ih =>
      obtain ⟨hevent, hrest⟩ := hallowed
      cases event with
      | write content => exact ih (hworld.written hevent) hrest
      | refreshed refresh meanwhile => exact ih (hworld.refreshed hevent) hrest

/-- After every run of writes and of refreshes, of which any may fail, a refresh that reads the
database and returns, with no write after its start, has the records of the current rows of every
session the database owns, and none of any other session. -/
theorem change_detection_complete (crates : Crates) (path : String) (content : Database)
    (hlayout : content.hasV2Schema = false) (htable : EventTable content)
    (events : List DatabaseEvent)
    (last : DatabaseRefresh)
    (hallowed : RunAllowed crates path (events ++ [DatabaseEvent.refreshed last []]) { content })
    (hok : (ingestSelected last.inputs (runDatabase events content).durable).ok = true)
    (hready : path ∈ (readyDatabases last.inputs (runDatabase events content).durable).map
      PreparedOpencodeDatabase.path) :
    let final := runDatabase (events ++ [DatabaseEvent.refreshed last []]) content
    (∀ session ∈ ownedSessionIds final.durable.checkpoint.opencodeDatabases path,
        sessionBodies path final.content session =
          some (indexedBodies final.durable path session)) ∧
      ∀ session ∉ ownedSessionIds final.durable.checkpoint.opencodeDatabases path,
        scopeRecords final.durable.lexical ⟨path, session⟩ = 0 := by
  obtain ⟨hbefore, hmeets⟩ := runAllowed_concat.mp hallowed
  have hworld : Detected path (runDatabase events content) :=
    (Detected.initial hlayout htable).events events hbefore
  obtain ⟨prepared, databases, scan, hprepare, hplan, hfinal⟩ :=
    ingestSelected_finished hmeets.reads hok
  obtain ⟨database, hdatabase, hpath⟩ := List.mem_map.mp hready
  have hmem : database ∈ scan.ready := by
    rw [readyDatabases, preparedRefresh, hprepare] at hdatabase
    exact hplan.ready ▸ hdatabase
  obtain ⟨howned, hunowned⟩ := hworld.finished_ready hmeets hplan hfinal hmem hpath
  have hrun : runDatabase (events ++ [DatabaseEvent.refreshed last []]) content =
      { durable := (ingestSelected last.inputs (runDatabase events content).durable).durable
        content := (runDatabase events content).content
        contents := (runDatabase events content).contents ++ [] } := by
    rw [runDatabase, List.foldl_append]
    rfl
  rw [hrun]
  refine ⟨fun session hsession => ?_, hunowned⟩
  rcases howned session hsession with hsame | hsame
  · exact hsame
  · exact hsame

end Runs

/-- A session, and the events that are left in the log. -/
def loggedSession (text : String) (events : List (Int × String)) : Database :=
  { singleSession text with
    event := .holding (events.map fun event => ⟨event.1, event.2, some "ses_1"⟩) }

/-- A write that logs the change of the only session. -/
theorem loggedSession_written {content : Database} {text : String} {events : List (Int × String)}
    (hpruned : ∃ bound, ∀ row ∈ eventRows content,
      row ∈ eventRows (loggedSession text events) ↔ bound < row.rowid)
    (happended : ∀ row ∈ eventRows (loggedSession text events), row ∉ eventRows content →
      0 < row.rowid ∧ ∀ old ∈ eventRows content, old.rowid < row.rowid)
    (event : EventRow) (hevent : event ∈ eventRows (loggedSession text events))
    (hnew : event ∉ eventRows content) (hsession : event.aggregateId = some "ses_1") :
    LoggedWrite "opencode.db" content (loggedSession text events) where
  pruned := hpruned
  appended := happended
  logged session hview _ := by
    refine ⟨event, hevent, hnew, ?_⟩
    by_contra hother
    refine hview (if_neg ?_)
    rintro ⟨row, hrow, rfl⟩
    obtain rfl := List.mem_singleton.mp hrow
    exact hother hsession

/-- A refresh of a database that is written between the scan and the hydration. -/
def overtakenRefresh (scanned hydrated : Database) : DatabaseRefresh :=
  viewingRefresh ["opencode.db"] fun _ =>
    { stat := .found { len := 1 }, scanned := some scanned, hydrated := some hydrated }

theorem overtakenRefresh_meets {world : DatabaseWorld} {scanned hydrated : Database}
    {meanwhile : List Database} (hscanned : world.content = scanned)
    (hhydrated : meanwhile.getLastD world.content = hydrated)
    (hwrites : WritesAllowed "opencode.db"
      (scannedCursor world.content :: (storedCursor world.durable "opencode.db").toList)
      world.contents world.content meanwhile) :
    (overtakenRefresh scanned hydrated).Meets plainCrates "opencode.db" world meanwhile := by
  have hsound := @viewingRefresh_sound ["opencode.db"] ["opencode.db"]
    (overtakenRefresh scanned hydrated).views (by decide) (by simp) (by decide)
  constructor
  · exact hsound.reads
  · exact hsound.separate "opencode.db" (by simp)
  · exact List.mem_singleton_self _
  · rfl
  · exact fun _ h => (Option.some.inj h).symm.trans hscanned.symm
  · exact fun _ h => (Option.some.inj h).symm.trans hhydrated.symm
  · exact hwrites

/-- An event is logged, the oldest one is deleted while a refresh runs, and then another database
takes the place of this one: what is there is read each time. -/
theorem change_detection_complete_logged :
    let final := runDatabase
      ([DatabaseEvent.refreshed (overtakenRefresh (loggedSession "old" [(1, "e1")])
          (loggedSession "old" [(1, "e1")])) [],
        .write (loggedSession "new" [(1, "e1"), (2, "e2")]),
        .refreshed (overtakenRefresh (loggedSession "new" [(1, "e1"), (2, "e2")])
          (loggedSession "newer" [(2, "e2"), (3, "e3")]))
          [loggedSession "newer" [(2, "e2"), (3, "e3")]],
        .write (loggedSession "other" [(1, "f1")])] ++
      [DatabaseEvent.refreshed (overtakenRefresh (loggedSession "other" [(1, "f1")])
        (loggedSession "other" [(1, "f1")])) []]) (loggedSession "old" [(1, "e1")])
    (∀ session ∈ ownedSessionIds final.durable.checkpoint.opencodeDatabases "opencode.db",
        sessionBodies "opencode.db" final.content session =
          some (indexedBodies final.durable "opencode.db" session)) ∧
      ∀ session ∉ ownedSessionIds final.durable.checkpoint.opencodeDatabases "opencode.db",
        scopeRecords final.durable.lexical ⟨"opencode.db", session⟩ = 0 := by
  apply change_detection_complete plainCrates "opencode.db"
  · rfl
  · exact ⟨by decide, by decide⟩
  · refine ⟨overtakenRefresh_meets rfl rfl trivial, ?_, ?_, ?_,
      overtakenRefresh_meets rfl rfl trivial, trivial⟩
    · refine writeAllowed_of_event rfl ⟨by decide, by decide⟩ (.logged (loggedSession_written
        ⟨0, by decide⟩ (by decide) ⟨2, "e2", some "ses_1"⟩ (by decide) (by decide) rfl)
        (by decide)) (by decide +kernel)
    · refine overtakenRefresh_meets rfl rfl ⟨writeAllowed_of_event rfl ⟨by decide, by decide⟩
        (.logged (loggedSession_written ⟨1, by decide⟩ (by decide) ⟨3, "e3", some "ses_1"⟩
          (by decide) (by decide) rfl) (by decide)) (by decide +kernel), trivial⟩
    · exact writeAllowed_of_event rfl ⟨by decide, by decide⟩ (.replaced (by decide))
        (by decide +kernel)
  · decide +kernel
  · decide +kernel

/-- Deletes the event. -/
theorem loggedSession_pruned : LoggedWrite "opencode.db" (loggedSession "new" [(1, "e1")])
    (singleSession "new") where
  pruned := by
    refine ⟨1, fun row hrow => ?_⟩
    obtain rfl := List.mem_singleton.mp hrow
    constructor
    · exact fun hmem => absurd hmem List.not_mem_nil
    · exact fun hless => absurd hless (by decide)
  appended _ hrow := absurd hrow List.not_mem_nil
  logged _ _ hchanged := absurd rfl hchanged

/-- The event of a change is deleted before the next refresh, and the log is empty as it was at
the scan before: the change is passed over. -/
theorem emptied_log_hides_change :
    LoggedWrite "opencode.db" (singleSession "old") (loggedSession "new" [(1, "e1")]) ∧
      LoggedWrite "opencode.db" (loggedSession "new" [(1, "e1")]) (singleSession "new") ∧
      ¬ (let final := runDatabase [.refreshed (soloRefresh (singleSession "old")) [],
          .write (loggedSession "new" [(1, "e1")]), .write (singleSession "new"),
          .refreshed (soloRefresh (singleSession "new")) []] (singleSession "old")
        ∀ session ∈ ownedSessionIds final.durable.checkpoint.opencodeDatabases "opencode.db",
          sessionBodies "opencode.db" final.content session =
            some (indexedBodies final.durable "opencode.db" session)) := by
  refine ⟨loggedSession_written ⟨0, by decide⟩ (by decide) ⟨1, "e1", some "ses_1"⟩ (by decide)
    (by decide) rfl, loggedSession_pruned, fun h => ?_⟩
  have hsame := h "ses_1" (by decide +kernel)
  revert hsame
  decide +kernel

end Memex.Ingest
