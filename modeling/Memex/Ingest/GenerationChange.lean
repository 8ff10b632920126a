import Memex.Ingest.SessionOwnership

/-! # From the first to the second OpenCode layout

A database gains the projection of the second layout while its stored state was
written for the first one. Its next scan compares marks of sessions, and the
stored state has none: a session without marks in the projection compares equal
and keeps the records of the frozen tables. -/

namespace Memex.Ingest

open Overlay State Sources Sources.Opencode

/-- The stored state of a database comes from a scan of its first layout. -/
def WrittenFromV1 (path : String) (state : OpencodeDatabaseState) : Prop :=
  ∃ content previous scan owner spool, content.hasV2Schema = false ∧
    scanDatabase content previous = some scan ∧ state = readyState owner ⟨path, scan, spool⟩

theorem WrittenFromV1.cursors {path : String} {state : OpencodeDatabaseState}
    (h : WrittenFromV1 path state) : state.parserVersion = databaseStateVersion ∧
      state.sessionCursors = ∅ := by
  obtain ⟨content, previous, scan, owner, spool, hv1, hscan, rfl⟩ := h
  rw [scanDatabase, if_neg (by simp [hv1])] at hscan
  split at hscan
  · obtain ⟨sessions, -, hscan⟩ := Option.bind_eq_some_iff.mp hscan
    obtain ⟨events, -, rfl⟩ := Option.map_eq_some_iff.mp hscan
    exact ⟨rfl, rfl⟩
  · cases hscan

/-- The records of a session in the projection. -/
def projection (crates : Crates) (content : Database) (path session : String) :
    Multiset Record :=
  (((parseSessionRecordsV2 crates content path session).getD []).map Record.body : List Record)

/-- The indexed records of a session, without their ids. -/
def indexedBodies (durable : Durable) (path session : String) : Multiset Record :=
  (scopeRecords durable.lexical ⟨path, session⟩).map Record.body

/-- The change of layout has reached the index: every owned session whose
indexed records differ from its projection is marked, and afterwards the index
holds the projection of a session, or nothing when another database owns it. -/
structure GenerationReached (crates : Crates) (path : String) (content : Database)
    (state : OpencodeDatabaseState) (before after : Durable) : Prop where
  marked : ∀ scan, scanDatabase content (some state) = some scan →
    ∀ session ∈ state.ownedSessionIds,
      indexedBodies before path session ≠ projection crates content path session →
      session ∈ scan.dirtySessionIds ∪ removedSessionIds scan (some state)
  replaced : ∀ session ∈ state.ownedSessionIds,
    indexedBodies after path session = projection crates content path session ∨
      indexedBodies after path session = 0

section Scan

variable {crates : Crates} {path session : String} {content : Database}
  {state : OpencodeDatabaseState} {scan : DatabaseScan}

/-- The first scan of the new layout marks the listed sessions that have marks
or are not owned. -/
theorem mem_dirty_of_generation_change (session : String) (hv2 : content.hasV2Schema = true)
    (hstate : state.parserVersion = databaseStateVersion ∧ state.sessionCursors = ∅)
    (hscan : scanDatabase content (some state) = some scan) :
    session ∈ scan.dirtySessionIds ↔ session ∈ scan.sessions.map OpencodeSession.id ∧
      (session ∉ state.ownedSessionIds ∨ ¬ Unmarked content session) := by
  rw [scanDatabase, if_pos hv2] at hscan
  obtain ⟨sessions, -, hscan⟩ := Option.bind_eq_some_iff.mp hscan
  obtain ⟨cursors, hcursors, rfl⟩ := Option.map_eq_some_iff.mp hscan
  rw [dirtySessionsV2, if_pos hstate.1, Finset.mem_filter, List.mem_toFinset, hstate.2,
    Finmap.lookup_empty, ← lookup_currentSessionCursors hcursors]
  exact and_congr_right fun _ => or_congr_right ne_comm

theorem v2_of_scan {previous : Option OpencodeDatabaseState} (hv2 : content.hasV2Schema = true)
    (hscan : scanDatabase content previous = some scan) : scan.v2 = true := by
  rw [scanDatabase, if_pos hv2] at hscan
  obtain ⟨sessions, -, hscan⟩ := Option.bind_eq_some_iff.mp hscan
  obtain ⟨cursors, -, rfl⟩ := Option.map_eq_some_iff.mp hscan
  rfl

theorem projection_of_unmarked {previous : Option OpencodeDatabaseState}
    (hv2 : content.hasV2Schema = true) (hscan : scanDatabase content previous = some scan)
    (hunmarked : Unmarked content session) : projection crates content path session = 0 := by
  rw [projection, parseSessionRecordsV2_of_unmarked hscan hv2 hunmarked]
  rfl

/-- The sessions that the inventory of the projection lists. -/
def inventoryIds (content : Database) : List String :=
  ((querySessions content.v2SessionTable).getD []).map OpencodeSession.id

theorem sessions_of_scan {previous : Option OpencodeDatabaseState}
    (hv2 : content.hasV2Schema = true) (hscan : scanDatabase content previous = some scan) :
    scan.sessions.map OpencodeSession.id = inventoryIds content := by
  rw [scanDatabase, if_pos hv2] at hscan
  obtain ⟨sessions, hsessions, hscan⟩ := Option.bind_eq_some_iff.mp hscan
  obtain ⟨cursors, -, rfl⟩ := Option.map_eq_some_iff.mp hscan
  rw [inventoryIds, hsessions]
  rfl

/-- Whether a scan succeeds does not depend on the stored state. -/
theorem exists_scan {previous : Option OpencodeDatabaseState} (hv2 : content.hasV2Schema = true)
    (hscan : scanDatabase content previous = some scan) (other : Option OpencodeDatabaseState) :
    ∃ found, scanDatabase content other = some found := by
  rw [scanDatabase, if_pos hv2] at hscan ⊢
  obtain ⟨sessions, hsessions, hscan⟩ := Option.bind_eq_some_iff.mp hscan
  obtain ⟨cursors, hcursors, -⟩ := Option.map_eq_some_iff.mp hscan
  rw [hsessions, hcursors]
  exact ⟨_, rfl⟩

end Scan

section Refresh

variable {crates : Crates} {isDatabase : String → Prop} {refresh : DatabaseRefresh}
  {durable final : Durable} {prepared : PreparedRefresh} {databases : List String}
  {scan : OpencodeScan} {path session : String} {content : Database}
  {state : OpencodeDatabaseState} {database : PreparedOpencodeDatabase}

/-- Every scope of a ready database in the new layout ends up with its
projection, or empty, when unmarked sessions had no records. -/
theorem OpencodePlan.generation_replaced
    (h : OpencodePlan refresh.inputs durable prepared databases scan)
    (hsound : refresh.Sound crates isDatabase) (howns : OwnsSessions isDatabase durable)
    (hfinal : Finished refresh.inputs durable prepared final) (hready : database ∈ scan.ready)
    (hpath : database.path = path)
    (hstate : durable.checkpoint.opencodeDatabases.lookup path = some state)
    (hwritten : WrittenFromV1 path state) (hv2 : content.hasV2Schema = true)
    (hscanned : (refresh.views path).scanned = some content)
    (hhydrated : (refresh.views path).hydrated = some content)
    (howned : session ∈ state.ownedSessionIds)
    (hclean : session ∈ inventoryIds content → Unmarked content session →
      indexedBodies durable path session = 0) :
    indexedBodies final path session = projection crates content path session ∨
      indexedBodies final path session = 0 := by
  subst hpath
  obtain ⟨hlisted, ⟨-, -, hscan⟩, -⟩ := h.scanned.ready database hready
  have hdatabase := hsound.listed _ (h.listed _ hlisted)
  have hpublished := hfinal.records ⟨database.path, session⟩ (hsound.separate _ hdatabase)
  have hscan : scanDatabase content ((recoveredStates durable).lookup database.path) =
      some database.scan := by
    rw [hsound.reads.stores] at hscan
    obtain ⟨found, hfound, hscan⟩ := Option.bind_eq_some_iff.mp hscan
    rw [hscanned] at hfound
    exact Option.some.inj hfound ▸ hscan
  have hstored : (recoveredStates durable).lookup database.path = some state ∨
      (durable.lexical = 0 ∧ (recoveredStates durable).lookup database.path = none) := by
    rcases recoveredStates_settled howns.settled with heq | ⟨hempty, heq⟩
    · exact .inl (heq ▸ hstate)
    · exact .inr ⟨hempty, heq ▸ Finmap.lookup_empty _⟩
  by_cases howner : scan.owner (recoveredStates durable) session = some database.path
  · have hsession := h.scanned.listed_of_owner hready howner
    by_cases hdirty : session ∈ database.scan.dirtySessionIds
    · have hread : ScopeRead durable scan ⟨database.path, session⟩ database :=
        { ready := hready
          path := rfl
          owner := howner
          listed := hsession
          asked := mem_hydrationSessionIds.mpr (.inl hdirty) }
      obtain ⟨found, records, hfound, hrecords, hbodies⟩ :=
        h.replayed_of_read hsound.reads hread
      have hprojected : parseSessionRecordsV2 crates content database.path session =
          some records := by
        rw [hhydrated] at hfound
        obtain rfl := Option.some.inj hfound
        rwa [parseSession, if_pos] at hrecords
        rw [v2SessionIds, if_pos (v2_of_scan hv2 hscan)]
        exact List.mem_toFinset.mpr hsession
      left
      rw [indexedBodies, hpublished, if_pos (.inr (h.target_of_read hread)), zero_add, hbodies,
        projection, hprojected]
      rfl
    · -- what the scan passes over has no marks, and had no records
      right
      have hunread (other : PreparedOpencodeDatabase) :
          ¬ ScopeRead durable scan ⟨database.path, session⟩ other := by
        intro hread
        rcases mem_hydrationSessionIds.mp hread.asked with hmem | ⟨interrupted, hpending, -⟩
        · exact hdirty (h.scanned.ready_unique hready hread.ready hread.path.symm ▸ hmem)
        · rw [howns.settled] at hpending
          cases hpending
      have hbefore : scopeRecords durable.lexical ⟨database.path, session⟩ = 0 := by
        rcases hstored with hlookup | ⟨hempty, -⟩
        · rw [hlookup] at hscan
          have hmarks := mem_dirty_of_generation_change session hv2 hwritten.cursors hscan
          have hunmarked : Unmarked content session := by
            by_contra hmarked
            exact hdirty (hmarks.mpr ⟨hsession, .inr hmarked⟩)
          have hbodies := hclean (sessions_of_scan hv2 hscan ▸ hsession) hunmarked
          exact Multiset.map_eq_zero.mp hbodies
        · rw [hempty]
          rfl
      rw [indexedBodies, hpublished, h.replayed_of_not_read hsound.reads hunread, hbefore,
        ite_self]
      rfl
  · right
    have hunread (other : PreparedOpencodeDatabase) :
        ¬ ScopeRead durable scan ⟨database.path, session⟩ other := fun hread => howner hread.owner
    have hgone : (if ScopeDeleted prepared ⟨database.path, session⟩ then 0
        else scopeRecords durable.lexical ⟨database.path, session⟩) = 0 := by
      rcases hstored with hlookup | ⟨hempty, -⟩
      · refine if_pos (.inr ?_)
        rw [h.targets, h.scanned.mem_scopeTargets]
        refine .inl ⟨h.scanned.outcome_of_ready hready, ?_, howner⟩
        rw [ownedSessionIds, hlookup]
        exact howned
      · rw [hempty]
        exact ite_self _
    rw [indexedBodies, hpublished, h.replayed_of_not_read hsound.reads hunread, hgone]
    rfl

end Refresh

/-- After a database has gained the projection, its next refresh reaches the
index exactly when no owned session that the inventory lists without marks has
indexed records. -/
theorem generation_change_iff (crates : Crates) (isDatabase : String → Prop)
    (refreshes : List DatabaseRefresh) (last : DatabaseRefresh)
    (hsound : ∀ refresh ∈ refreshes ++ [last], refresh.Sound crates isDatabase)
    (path : String) (content : Database) (state : OpencodeDatabaseState)
    (hstate : (runDatabaseRefreshes refreshes).checkpoint.opencodeDatabases.lookup path =
      some state)
    (hwritten : WrittenFromV1 path state) (hv2 : content.hasV2Schema = true)
    (hscanned : (last.views path).scanned = some content)
    (hhydrated : (last.views path).hydrated = some content)
    (hready : path ∈ (readyDatabases last.inputs (runDatabaseRefreshes refreshes)).map
      PreparedOpencodeDatabase.path) :
    GenerationReached crates path content state (runDatabaseRefreshes refreshes)
        (runDatabaseRefreshes (refreshes ++ [last])) ↔
      ∀ session ∈ state.ownedSessionIds, session ∈ inventoryIds content →
        Unmarked content session →
        indexedBodies (runDatabaseRefreshes refreshes) path session = 0 := by
  have howns : OwnsSessions isDatabase (runDatabaseRefreshes refreshes) :=
    runDatabaseRefreshes_ownsSessions refreshes
      fun refresh hrefresh => hsound refresh (List.mem_append_left _ hrefresh)
  have hlast : last.Sound crates isDatabase := hsound last (by simp)
  obtain ⟨database, hdatabase, hpath⟩ := List.mem_map.mp hready
  obtain ⟨prepared, hprepare⟩ : ∃ prepared,
      preparedRefresh last.inputs (runDatabaseRefreshes refreshes) = some prepared := by
    rw [← Option.isSome_iff_exists]
    by_contra hnone
    rw [readyDatabases, Option.not_isSome_iff_eq_none.mp hnone] at hdatabase
    cases hdatabase
  have hok := ingestSelected_ok hlast.uninterrupted hlast.parsers hprepare
  obtain ⟨other, databases, scan, hother, hplan, hfinal⟩ :=
    ingestSelected_finished hlast.reads hok
  obtain rfl : prepared = other := Option.some.inj (hprepare.symm.trans hother)
  have hmem : database ∈ scan.ready := by
    rw [readyDatabases, hprepare] at hdatabase
    exact hplan.ready ▸ hdatabase
  obtain ⟨found, hfound⟩ : ∃ found, scanDatabase content (some state) = some found := by
    obtain ⟨-, ⟨-, -, hscan⟩, -⟩ := hplan.scanned.ready database hmem
    rw [hlast.reads.stores, hpath] at hscan
    obtain ⟨seen, hseen, hscan⟩ := Option.bind_eq_some_iff.mp hscan
    rw [hscanned] at hseen
    exact exists_scan hv2 (Option.some.inj hseen ▸ hscan) _
  constructor
  · intro h session howned hlisted hunmarked
    by_contra hindexed
    have hmarked := h.marked found hfound session howned
      (by rwa [projection_of_unmarked hv2 hfound hunmarked])
    rw [← sessions_of_scan hv2 hfound] at hlisted
    rcases Finset.mem_union.mp hmarked with hdirty | hremoved
    · rcases ((mem_dirty_of_generation_change session hv2 hwritten.cursors hfound).mp hdirty).2 with
        hnew | hmarks
      · exact hnew howned
      · exact hmarks hunmarked
    · exact (Finset.mem_sdiff.mp hremoved).2 (List.mem_toFinset.mpr hlisted)
  · intro hclean
    constructor
    · intro seen hseen session howned hdiffers
      obtain rfl : found = seen := Option.some.inj (hfound.symm.trans hseen)
      by_cases hlisted : session ∈ found.sessions.map OpencodeSession.id
      · refine Finset.mem_union_left _ ?_
        rw [mem_dirty_of_generation_change session hv2 hwritten.cursors hfound]
        refine ⟨hlisted, .inr fun hunmarked => hdiffers ?_⟩
        rw [hclean session howned (sessions_of_scan hv2 hfound ▸ hlisted) hunmarked,
          projection_of_unmarked hv2 hfound hunmarked]
      · refine Finset.mem_union_right _ (Finset.mem_sdiff.mpr ⟨howned, fun hmem => hlisted ?_⟩)
        exact List.mem_toFinset.mp hmem
    · intro session howned
      rw [runDatabaseRefreshes_concat]
      exact hplan.generation_replaced hlast howns hfinal hmem hpath hstate hwritten hv2 hscanned
        hhydrated howned (hclean session howned)

/-- A database of the first layout that has gained a projection. -/
def gainedProjection (messages : List SessionMessageRow) : Database :=
  { singleSession "frozen" with sessionMessage := .holding messages }

/-- A refresh of one database. -/
def soloRefresh (content : Database) : DatabaseRefresh :=
  readingRefresh ["opencode.db"] fun _ => content

theorem soloRefresh_sound (content : Database) :
    (soloRefresh content).Sound plainCrates (· ∈ ["opencode.db"]) :=
  viewingRefresh_sound _ (by decide) (by simp) (by decide)

/-- What is stored for the first layout. -/
def firstLayoutState : OpencodeDatabaseState where
  parserVersion := 4
  ownedSessionIds := {"ses_1"}

theorem firstLayoutState_written : WrittenFromV1 "opencode.db" firstLayoutState :=
  ⟨singleSession "frozen", none,
    { dirtySessionIds := {"ses_1"}, sessions := [{ id := "ses_1", directory := "" }] },
    fun _ => some "opencode.db", [], rfl, by decide +kernel, by decide +kernel⟩

/-- A message in the projection: the session is read again. -/
theorem generation_change_iff_projected :
    GenerationReached plainCrates "opencode.db"
      (gainedProjection [{ id := "m2", kind := "user", sessionId := "ses_1", data := none }])
      firstLayoutState (runDatabaseRefreshes [soloRefresh (singleSession "frozen")])
      (runDatabaseRefreshes ([soloRefresh (singleSession "frozen")] ++ [soloRefresh
        (gainedProjection
          [{ id := "m2", kind := "user", sessionId := "ses_1", data := none }])])) := by
  refine (generation_change_iff plainCrates (· ∈ ["opencode.db"])
    [soloRefresh (singleSession "frozen")] (soloRefresh (gainedProjection
      [{ id := "m2", kind := "user", sessionId := "ses_1", data := none }])) ?_ "opencode.db" _
    firstLayoutState (by decide +kernel) firstLayoutState_written rfl rfl rfl
    (by decide +kernel)).mpr ?_
  · intro refresh hrefresh
    rcases List.mem_append.mp hrefresh with hmem | hmem
    · rw [List.mem_singleton.mp hmem]
      exact soloRefresh_sound _
    · rw [List.mem_singleton.mp hmem]
      exact soloRefresh_sound _
  · intro session howned _ hunmarked
    obtain rfl := Finset.mem_singleton.mp howned
    exact absurd rfl (hunmarked.1 _ List.mem_cons_self)

/-- No message in the projection: the record of the frozen tables stays, though
the projection of its session is empty and the scan succeeded. -/
theorem frozen_record_stays :
    ¬ GenerationReached plainCrates "opencode.db" (gainedProjection []) firstLayoutState
      (runDatabaseRefreshes [soloRefresh (singleSession "frozen")])
      (runDatabaseRefreshes
        [soloRefresh (singleSession "frozen"), soloRefresh (gainedProjection [])]) := by
  intro h
  rcases h.replaced "ses_1" (by decide) with hprojection | hempty
  · exact absurd hprojection (by decide +kernel)
  · exact absurd hempty (by decide +kernel)

end Memex.Ingest
