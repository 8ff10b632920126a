import Memex.Ingest.OpencodeView

/-! # Session scopes across a refresh

What a refresh makes of the indexed records and of the owner of each session:
a scope is read again, emptied or left as it is, and a session has one owner
among the databases that failed and those that are ready. -/

namespace Memex.Ingest

open Overlay State Sources Sources.Opencode

/-- The outside world of a refresh as far as OpenCode goes: the databases show
the given views, and parsers emit records of their own files. -/
structure ReadsDatabases (crates : Crates) (views : String → DatabaseView)
    (inputs : RefreshInputs) : Prop where
  stores : ∀ path, inputs.inv.opencodeStore path = (views path).store crates path
  once : inputs.DatabasesOnce
  parsed : ∀ task, ∀ record ∈ (inputs.execution.parse task).emitted, record.sourcePath = task.path

theorem ReadsDatabases.emitsOwnPath {crates : Crates} {views : String → DatabaseView}
    {inputs : RefreshInputs} (h : ReadsDatabases crates views inputs) : EmitsOwnPath inputs where
  parsed := h.parsed
  hydrated path scan sessions record hrecord := by
    rw [h.stores] at hrecord
    exact store_hydrate_sourcePath hrecord

section Owners

variable {inv : Inventory} {options : IngestOptions} {states : Table String OpencodeDatabaseState}
  {pending : Option PendingIngest} {databases : List String} {scan : OpencodeScan}
  {session path : String}

theorem leastPath_eq_some {paths : Finset String} (h : leastPath paths = some path) :
    path ∈ paths := by
  rw [leastPath] at h
  split at h
  · rename_i hnonempty
    cases h
    exact paths.min'_mem hnonempty
  · cases h

theorem leastPath_eq_none {paths : Finset String} (h : leastPath paths = none) : paths = ∅ := by
  rw [leastPath] at h
  split at h
  · cases h
  · rename_i hempty
    exact Finset.not_nonempty_iff_eq_empty.mp hempty

/-- A session is owned by a failed database that owned it, else by a ready one
that lists it. -/
theorem OpencodeScan.owner_eq_some (h : scan.owner states session = some path) :
    (scan.outcome path = .failed ∧ session ∈ ownedSessionIds states path) ∨
      ∃ database ∈ scan.ready, database.path = path ∧
        session ∈ database.scan.sessions.map OpencodeSession.id := by
  rw [OpencodeScan.owner] at h
  rcases Option.or_eq_some_iff.mp h with hfailed | ⟨-, hready⟩
  · exact .inl (Finset.mem_filter.mp (leastPath_eq_some hfailed)).2
  · obtain ⟨database, hfind, rfl⟩ := Option.map_eq_some_iff.mp hready
    exact .inr ⟨database, List.mem_of_find?_eq_some hfind, rfl,
      by simpa using List.find?_some hfind⟩

/-- A session that a ready database lists has an owner. -/
theorem OpencodeScan.owner_isSome (states : Table String OpencodeDatabaseState)
    {database : PreparedOpencodeDatabase}
    (hmem : database ∈ scan.ready)
    (hsession : session ∈ database.scan.sessions.map OpencodeSession.id) :
    ∃ path, scan.owner states session = some path := by
  rw [OpencodeScan.owner]
  cases hfailed : leastPath (states.keys.filter fun path =>
      scan.outcome path = .failed ∧ session ∈ ownedSessionIds states path) with
  | some path => exact ⟨path, rfl⟩
  | none =>
      cases hfind : scan.ready.find? fun database =>
          session ∈ database.scan.sessions.map OpencodeSession.id with
      | some found => exact ⟨found.path, rfl⟩
      | none =>
          have hnot := List.find?_eq_none.mp hfind database hmem
          exact absurd (decide_eq_true hsession) hnot

/-- A failed database that is the only one to own a session keeps it. -/
theorem OpencodeScan.owner_of_failed (hfailed : scan.outcome path = .failed)
    (howned : session ∈ ownedSessionIds states path)
    (honly : ∀ other, session ∈ ownedSessionIds states other → other = path) :
    scan.owner states session = some path := by
  have hmem : path ∈ states.keys.filter fun path =>
      scan.outcome path = .failed ∧ session ∈ ownedSessionIds states path := by
    refine Finset.mem_filter.mpr ⟨?_, hfailed, howned⟩
    rw [Finmap.mem_keys, ← Finmap.lookup_isSome]
    by_contra hnone
    rw [ownedSessionIds, Option.not_isSome_iff_eq_none.mp hnone] at howned
    exact absurd howned (Finset.notMem_empty session)
  rw [OpencodeScan.owner]
  cases hleast : leastPath (states.keys.filter fun path =>
      scan.outcome path = .failed ∧ session ∈ ownedSessionIds states path) with
  | some other =>
      have hother := Finset.mem_filter.mp (leastPath_eq_some hleast)
      rw [honly other hother.2.2]
      rfl
  | none =>
      rw [leastPath_eq_none hleast] at hmem
      exact absurd hmem (Finset.notMem_empty path)

theorem Scanned.outcome_of_ready (h : Scanned inv options states pending databases scan)
    {database : PreparedOpencodeDatabase} (hmem : database ∈ scan.ready) :
    scan.outcome database.path = .ready := by
  rw [h.outcome, if_pos (List.mem_map_of_mem hmem)]

theorem Scanned.ready_of_outcome (h : Scanned inv options states pending databases scan)
    (hready : scan.outcome path = .ready) :
    ∃ database ∈ scan.ready, database.path = path := by
  rw [h.outcome] at hready
  split at hready
  · rename_i hmem
    obtain ⟨database, hdatabase, hpath⟩ := List.mem_map.mp hmem
    exact ⟨database, hdatabase, hpath⟩
  · split at hready <;> cases hready

/-- Ready databases with one path are the same. -/
theorem Scanned.ready_unique (h : Scanned inv options states pending databases scan)
    {database other : PreparedOpencodeDatabase} (hmem : database ∈ scan.ready)
    (hother : other ∈ scan.ready) (hpath : database.path = other.path) : database = other :=
  List.inj_on_of_nodup_map h.nodup hmem hother hpath

/-- The owner of a session, when it is ready, lists the session. -/
theorem Scanned.listed_of_owner (h : Scanned inv options states pending databases scan)
    {database : PreparedOpencodeDatabase} (hmem : database ∈ scan.ready)
    (howner : scan.owner states session = some database.path) :
    session ∈ database.scan.sessions.map OpencodeSession.id := by
  rcases OpencodeScan.owner_eq_some howner with ⟨hfailed, -⟩ | ⟨other, hother, hpath, hsession⟩
  · rw [h.outcome_of_ready hmem] at hfailed
    cases hfailed
  · rw [h.ready_unique hmem hother hpath.symm]
    exact hsession

theorem mem_readyOwned {owner : String → Option String} {database : PreparedOpencodeDatabase} :
    session ∈ readyOwned owner database ↔
      session ∈ database.scan.sessions.map OpencodeSession.id ∧
        owner session = some database.path := by
  rw [readyOwned, List.mem_toFinset, List.mem_filter, decide_eq_true_iff]

/-- Why the records of a scope are deleted. -/
theorem Scanned.mem_scopeTargets (h : Scanned inv options states pending databases scan)
    {scope : SessionScope} :
    scope ∈ scan.scopeTargets states pending ↔
      (scan.outcome scope.sourcePath = .ready ∧
          scope.sessionId ∈ ownedSessionIds states scope.sourcePath ∧
          scan.owner states scope.sessionId ≠ some scope.sourcePath) ∨
        (∃ database ∈ scan.ready, database.path = scope.sourcePath ∧
          scope.sessionId ∈ database.scan.dirtySessionIds ∧
          scan.owner states scope.sessionId = some scope.sourcePath) ∨
        (∃ interrupted ∈ pending, scope ∈ interrupted.sessionScopes ∧
          scan.outcome scope.sourcePath = .ready) := by
  have hreplayed (ready : List PreparedOpencodeDatabase) :
      scope ∈ (ready.map fun database =>
          (database.scan.dirtySessionIds.filter fun session =>
            scan.owner states session = some database.path).image
              (SessionScope.mk database.path)).foldr (· ∪ ·) ∅ ↔
        ∃ database ∈ ready, database.path = scope.sourcePath ∧
          scope.sessionId ∈ database.scan.dirtySessionIds ∧
          scan.owner states scope.sessionId = some scope.sourcePath := by
    induction ready with
    | nil => simp
    | cons head rest ih =>
        rw [List.map_cons, List.foldr_cons, Finset.mem_union, ih, List.exists_mem_cons_iff]
        refine or_congr_left ?_
        rw [Finset.mem_image]
        constructor
        · rintro ⟨session, hsession, rfl⟩
          obtain ⟨hdirty, howner⟩ := Finset.mem_filter.mp hsession
          exact ⟨rfl, hdirty, howner⟩
        · rintro ⟨hpath, hdirty, howner⟩
          exact ⟨scope.sessionId, Finset.mem_filter.mpr ⟨hdirty, hpath ▸ howner⟩,
            SessionScope.ext hpath rfl⟩
  have hrecovered (path : String) :
      scan.outcomes.lookup path = some .ready ↔ scan.outcome path = .ready := by
    rw [h.outcomes]
    constructor
    · intro hmem
      rw [h.outcome, if_pos hmem]
    · intro hready
      obtain ⟨database, hdatabase, rfl⟩ := h.ready_of_outcome hready
      exact List.mem_map_of_mem hdatabase
  unfold OpencodeScan.scopeTargets
  dsimp only
  rw [Finset.mem_union, Finset.mem_union, or_assoc]
  refine or_congr ?_ (or_congr (hreplayed scan.ready) ?_)
  · rw [Finset.mem_biUnion]
    constructor
    · rintro ⟨path, hpath, hscope⟩
      obtain ⟨session, hsession, rfl⟩ := Finset.mem_image.mp hscope
      obtain ⟨howned, howner⟩ := Finset.mem_filter.mp hsession
      exact ⟨(Finset.mem_filter.mp hpath).2, howned, howner⟩
    · rintro ⟨hready, howned, howner⟩
      refine ⟨scope.sourcePath, Finset.mem_filter.mpr ⟨?_, hready⟩,
        Finset.mem_image.mpr ⟨scope.sessionId, Finset.mem_filter.mpr ⟨howned, howner⟩, rfl⟩⟩
      rw [Finmap.mem_keys, ← Finmap.lookup_isSome]
      by_contra hnone
      rw [ownedSessionIds, Option.not_isSome_iff_eq_none.mp hnone] at howned
      exact absurd howned (Finset.notMem_empty _)
  · cases pending with
    | none => simp
    | some interrupted => simp [hrecovered]

end Owners

section Records

variable {crates : Crates} {views : String → DatabaseView} {inputs : RefreshInputs}
  {durable : Durable} {prepared : PreparedRefresh} {databases : List String} {scan : OpencodeScan}
  {scope : SessionScope} {database : PreparedOpencodeDatabase}

/-- The refresh reads the session of the scope from its database and keeps what
it read. -/
structure ScopeRead (durable : Durable) (scan : OpencodeScan) (scope : SessionScope)
    (database : PreparedOpencodeDatabase) : Prop where
  ready : database ∈ scan.ready
  path : database.path = scope.sourcePath
  owner : scan.owner (recoveredStates durable) scope.sessionId = some scope.sourcePath
  listed : scope.sessionId ∈ database.scan.sessions.map OpencodeSession.id
  asked : scope.sessionId ∈
    hydrationSessionIds durable.checkpoint.pending scope.sourcePath database.scan

theorem mem_hydrationSessionIds {pending : Option PendingIngest} {path session : String}
    {scan : DatabaseScan} : session ∈ hydrationSessionIds pending path scan ↔
      session ∈ scan.dirtySessionIds ∨
        ∃ interrupted ∈ pending, ⟨path, session⟩ ∈ interrupted.sessionScopes := by
  cases pending with
  | none => simp [hydrationSessionIds]
  | some interrupted =>
      rw [hydrationSessionIds, Finset.mem_union, Finset.mem_image]
      refine or_congr_right ?_
      constructor
      · rintro ⟨scope, hscope, rfl⟩
        obtain ⟨hmem, rfl⟩ := Finset.mem_filter.mp hscope
        exact ⟨interrupted, rfl, hmem⟩
      · rintro ⟨other, hother, hmem⟩
        obtain rfl : interrupted = other := Option.some.inj hother
        exact ⟨⟨path, session⟩, Finset.mem_filter.mpr ⟨hmem, rfl⟩, rfl⟩

/-- What is read is deleted first. -/
theorem OpencodePlan.target_of_read
    (h : OpencodePlan inputs durable prepared databases scan)
    (hread : ScopeRead durable scan scope database) : scope ∈ prepared.opencodeScopeTargets := by
  rw [h.targets, h.scanned.mem_scopeTargets]
  rcases mem_hydrationSessionIds.mp hread.asked with hdirty | ⟨interrupted, hpending, hscope⟩
  · exact .inr (.inl ⟨database, hread.ready, hread.path, hdirty, hread.owner⟩)
  · refine .inr (.inr ⟨interrupted, hpending, hscope, ?_⟩)
    rw [← hread.path]
    exact h.scanned.outcome_of_ready hread.ready

/-- Spooled records carry the path of their database. -/
theorem OpencodePlan.spool_sourcePath (h : OpencodePlan inputs durable prepared databases scan)
    (hreads : ReadsDatabases crates views inputs) :
    ∀ database ∈ prepared.opencodeReadyDatabases, ∀ record ∈ database.spool,
      record.sourcePath = database.path := by
  rw [h.ready]
  intro database hdatabase record hrecord
  obtain ⟨-, -, -, hspool⟩ := h.scanned.ready database hdatabase
  have hbody : record.body ∈ database.spool.map Record.body := List.mem_map_of_mem hrecord
  rw [hspool] at hbody
  obtain ⟨other, hother, heq⟩ := List.mem_map.mp hbody
  rw [← Record.body_sourcePath record, ← heq, Record.body_sourcePath]
  exact hreads.emitsOwnPath.hydrated database.path database.scan _ other hother

/-- The spool of a ready database holds, session by session, what was read. -/
theorem OpencodePlan.spool_session (h : OpencodePlan inputs durable prepared databases scan)
    (hreads : ReadsDatabases crates views inputs) (hready : database ∈ scan.ready)
    (sessionId : String) :
    (sessionId ∈ hydrationSessionIds durable.checkpoint.pending database.path database.scan →
      ∃ content records, (views database.path).hydrated = some content ∧
        parseSession crates content database.path database.scan sessionId = some records ∧
        (database.spool.filter fun record => record.sessionId = sessionId).map Record.body =
          records.map Record.body) ∧
      (sessionId ∉ hydrationSessionIds durable.checkpoint.pending database.path database.scan →
        (database.spool.filter fun record => record.sessionId = sessionId) = []) := by
  obtain ⟨-, -, hcomplete, hspool⟩ := h.scanned.ready database hready
  rw [hydrationOf, hreads.stores] at hcomplete hspool
  obtain ⟨content, hcontent, hhydrate⟩ := store_hydrate_complete hcomplete
  rw [hhydrate] at hcomplete hspool
  have hfilter := map_body_filter_session _ _ sessionId hspool
  obtain ⟨hasked, hother⟩ := hydrateSessions_complete sessionId (nodup_sortedIds _) hcomplete
  constructor
  · intro hmem
    obtain ⟨records, hrecords, heq⟩ := hasked (mem_sortedIds.mpr hmem)
    exact ⟨content, records, hcontent, hrecords, by rw [hfilter, heq]⟩
  · intro hnot
    rw [hother fun hmem => hnot (mem_sortedIds.mp hmem)] at hfilter
    exact List.map_eq_nil_iff.mp hfilter

/-- A scope that is read gets the records its database shows. -/
theorem OpencodePlan.replayed_of_read (h : OpencodePlan inputs durable prepared databases scan)
    (hreads : ReadsDatabases crates views inputs) (hread : ScopeRead durable scan scope database) :
    ∃ content records, (views scope.sourcePath).hydrated = some content ∧
      parseSession crates content scope.sourcePath database.scan scope.sessionId = some records ∧
      (scopeRecords (replayedRecords prepared : Multiset Record) scope).map Record.body =
        (records.map Record.body : List Record) := by
  have hnodup : (prepared.opencodeReadyDatabases.map PreparedOpencodeDatabase.path).Nodup :=
    h.ready ▸ h.scanned.nodup
  have hreplayed := scopeRecords_replayed hnodup (h.spool_sourcePath hreads)
    (h.ready ▸ hread.ready) hread.path
  rw [h.owned, lookup_readyTable h.scanned.nodup hread.ready, Option.getD_some,
    if_pos (mem_readyOwned.mpr ⟨hread.listed, hread.path.symm ▸ hread.owner⟩)] at hreplayed
  obtain ⟨content, records, hcontent, hrecords, hbodies⟩ :=
    (h.spool_session hreads hread.ready scope.sessionId).1 (hread.path.symm ▸ hread.asked)
  rw [hread.path] at hcontent hrecords
  refine ⟨content, records, hcontent, hrecords, ?_⟩
  rw [hreplayed, Multiset.map_coe, hbodies]

/-- Into any other scope nothing is replayed. -/
theorem OpencodePlan.replayed_of_not_read
    (h : OpencodePlan inputs durable prepared databases scan)
    (hreads : ReadsDatabases crates views inputs)
    (hread : ∀ database, ¬ ScopeRead durable scan scope database) :
    scopeRecords (replayedRecords prepared : Multiset Record) scope = 0 := by
  by_cases hready : scope.sourcePath ∈
      prepared.opencodeReadyDatabases.map PreparedOpencodeDatabase.path
  · obtain ⟨database, hdatabase, hpath⟩ := List.mem_map.mp hready
    have hnodup : (prepared.opencodeReadyDatabases.map PreparedOpencodeDatabase.path).Nodup :=
      h.ready ▸ h.scanned.nodup
    rw [scopeRecords_replayed hnodup (h.spool_sourcePath hreads) hdatabase hpath, h.owned]
    rw [h.ready] at hdatabase
    rw [lookup_readyTable h.scanned.nodup hdatabase, Option.getD_some]
    split
    · rename_i howned
      obtain ⟨hlisted, howner⟩ := mem_readyOwned.mp howned
      have hasked : scope.sessionId ∉
          hydrationSessionIds durable.checkpoint.pending database.path database.scan :=
        fun hasked => hread database
          ⟨hdatabase, hpath, hpath ▸ howner, hlisted, hpath ▸ hasked⟩
      rw [(h.spool_session hreads hdatabase scope.sessionId).2 hasked]
      rfl
    · rfl
  · exact scopeRecords_replayed_of_not_ready (h.spool_sourcePath hreads) hready

/-- Whether the refresh deletes the records of a scope. -/
def ScopeDeleted (prepared : PreparedRefresh) (scope : SessionScope) : Prop :=
  scope.sourcePath ∈ prepared.deletePaths ∨ scope ∈ prepared.opencodeScopeTargets

instance (prepared : PreparedRefresh) : DecidablePred (ScopeDeleted prepared) :=
  fun scope => inferInstanceAs (Decidable (scope.sourcePath ∈ prepared.deletePaths ∨
    scope ∈ prepared.opencodeScopeTargets))

/-- The records of a scope once the refresh has published. -/
def ScopePublished (durable : Durable) (prepared : PreparedRefresh) (scope : SessionScope)
    (lexical : Multiset Record) : Prop :=
  scopeRecords lexical scope =
    (if ScopeDeleted prepared scope then 0 else scopeRecords durable.lexical scope) +
      scopeRecords (replayedRecords prepared : Multiset Record) scope

theorem OpencodePlan.scopePublished (h : OpencodePlan inputs durable prepared databases scan)
    (hreads : ReadsDatabases crates views inputs) (hbacked : ¬ inputs.Backs scope.sourcePath)
    (options : IngestOptions) (other : Durable) :
    ScopePublished durable prepared scope
      ((writerContext prepared options inputs.execution other).publishLexical durable.lexical
        (addedRecords prepared inputs.execution)) := by
  have hparsed :
      scopeRecords (parsedRecords prepared inputs.execution : Multiset Record) scope = 0 :=
    scopeRecords_parsed hreads.parsed fun task htask hpath => hbacked (hpath ▸ h.tasks task htask)
  have hadded : scopeRecords (addedRecords prepared inputs.execution : Multiset Record) scope =
      scopeRecords (replayedRecords prepared : Multiset Record) scope := by
    rw [addedRecords, ← Multiset.coe_add, scopeRecords, Multiset.filter_add]
    change scopeRecords _ scope + scopeRecords _ scope = _
    rw [hparsed, zero_add]
  rw [ScopePublished, scopeRecords_publishLexical, hadded]
  rfl

/-- Without anything to delete, nothing changes in any scope. -/
theorem OpencodePlan.scopePublished_of_idle
    (h : OpencodePlan inputs durable prepared databases scan)
    (hreads : ReadsDatabases crates views inputs) (hpaths : prepared.deletePaths = ∅)
    (htargets : prepared.opencodeScopeTargets = ∅) :
    ScopePublished durable prepared scope durable.lexical := by
  have hread (database : PreparedOpencodeDatabase) : ¬ ScopeRead durable scan scope database := by
    intro hread
    have htarget := h.target_of_read hread
    rw [htargets] at htarget
    exact absurd htarget (Finset.notMem_empty scope)
  have hkept : ¬ ScopeDeleted prepared scope := by
    rw [ScopeDeleted, hpaths, htargets]
    simp
  rw [ScopePublished, h.replayed_of_not_read hreads hread, if_neg hkept, add_zero]

end Records

section Commit

variable {crates : Crates} {views : String → DatabaseView} {inputs : RefreshInputs}
  {durable : Durable} {prepared : PreparedRefresh} {databases : List String} {scan : OpencodeScan}

/-- A final commit stores the database states of its session. -/
theorem commitRefresh_opencodeDatabases (prepared : PreparedRefresh) (execution : ExecutionInputs)
    (durable : Durable) (session : CheckpointSession) (pending : PendingChange)
    (horiginal : session.originalOpencodeDatabases = session.store.opencodeDatabases) :
    (commitRefresh prepared execution durable session
      pending).durable.checkpoint.opencodeDatabases =
      session.opencodeDatabases := by
  set cache := updatedScanCache execution.now prepared.scanCache prepared.filesScanned
    prepared.totalBytes prepared.fullScan with hcache
  have hdatabases : (session.finalDelta cache pending).opencodeDatabases.getD
      session.store.opencodeDatabases = session.opencodeDatabases := by
    simp only [CheckpointSession.finalDelta]
    by_cases hsame : session.opencodeDatabases = session.originalOpencodeDatabases
    · rw [if_neg (not_not.mpr hsame), hsame, horiginal]
      rfl
    · rw [if_pos hsame]
      rfl
  have hcommit : session.store.commitDelta (session.finalDelta cache pending) none =
      if (session.finalDelta cache pending).Idle then (session.store, .committed false)
      else ((session.finalDelta cache pending).applyTo session.store, .committed true) := by
    rw [CheckpointStore.commitDelta, Transaction.commit_none]
    rfl
  rw [commitRefresh]
  dsimp only
  rw [← hcache, CheckpointSession.commitFinal, hcommit]
  by_cases hidle : (session.finalDelta cache pending).Idle
  · rw [if_pos hidle]
    have hnone := hidle.2.2.1
    rw [hnone] at hdatabases
    exact hdatabases
  · rw [if_neg hidle, CheckpointDelta.applyTo_eq]
    exact hdatabases

theorem commitRefresh_ok (prepared : PreparedRefresh) (execution : ExecutionInputs)
    (durable : Durable) (session : CheckpointSession) (pending : PendingChange)
    (horiginal : session.originalNextDocId = session.store.nextDocId) :
    (commitRefresh prepared execution durable session pending).ok = true :=
  decide_eq_true (session.commitFinal_of_no_fault _ pending horiginal).2

/-- Rows that parsed tasks leave are those of their paths. -/
theorem keys_foldl_upsertFile (updates : List (String × FileState)) {session : CheckpointSession}
    (hsession : session.Coherent) :
    (updates.foldl (fun session update => session.upsertFile update.1 update.2) session).rows.keys =
      session.rows.keys ∪ (updates.map Prod.fst).toFinset := by
  induction updates generalizing session with
  | nil => simp
  | cons update rest ih =>
      have hupsert := Represents.upsertFile hsession update.1 update.2
      rw [List.foldl_cons, ih hupsert.coherent, hupsert.rows_eq]
      ext key
      simp only [Finset.mem_union, Finmap.mem_keys, Finmap.mem_insert, List.map_cons,
        List.toFinset_cons, Finset.mem_insert]
      tauto

theorem finalSession_original (prepared : PreparedRefresh) (execution : ExecutionInputs)
    (session : CheckpointSession) :
    (finalSession prepared execution session).originalOpencodeDatabases =
      session.originalOpencodeDatabases := by
  have hbase (updates : List (String × FileState)) (session : CheckpointSession) :
      SameBase session (updates.foldl (fun session update =>
        session.upsertFile update.1 update.2) session) := by
    induction updates generalizing session with
    | nil => exact SameBase.refl session
    | cons update rest ih => exact (SameBase.upsertFile session _ _).trans (ih _)
  exact (hbase _ session).originalOpencodeDatabases

/-- What a finished refresh leaves behind. -/
structure Finished (inputs : RefreshInputs) (durable : Durable) (prepared : PreparedRefresh)
    (final : Durable) : Prop where
  databases : final.checkpoint.opencodeDatabases = prepared.installedOpencodeStates
  scopes : (final.checkpoint.pending.map PendingIngest.sessionScopes).getD ∅ =
    prepared.deferredPendingScopes
  paths : (final.checkpoint.pending.map PendingIngest.sourcePaths).getD ∅ = ∅
  cleared : prepared.deferredPendingScopes = ∅ → final.checkpoint.pending = none
  files : ∀ path ∈ final.checkpoint.files, path ∈ durable.checkpoint.files ∨ inputs.Backs path
  records : ∀ scope, ¬ inputs.Backs scope.sourcePath →
    ScopePublished durable prepared scope final.lexical

/-- The intent that a finished refresh leaves lists the deferred scopes only. -/
theorem finalizedPendingIngest_lists (deferred : Finset SessionScope) (next : Nat)
    (old : Option PendingIngest) :
    (((finalizedPendingIngest deferred next).apply old).map PendingIngest.sessionScopes).getD ∅ =
        deferred ∧
      (((finalizedPendingIngest deferred next).apply old).map PendingIngest.sourcePaths).getD ∅ =
        ∅ ∧
      (deferred = ∅ → (finalizedPendingIngest deferred next).apply old = none) := by
  rw [finalizedPendingIngest]
  split
  · rename_i hempty
    exact ⟨hempty.symm, rfl, fun _ => rfl⟩
  · rename_i hsome
    exact ⟨rfl, rfl, fun hempty => absurd hempty hsome⟩

theorem preparePendingIngestRecovery_original (session : CheckpointSession) :
    (preparePendingIngestRecovery session).1.originalOpencodeDatabases =
      session.originalOpencodeDatabases := by
  rw [preparePendingIngestRecovery]
  split
  · rfl
  · exact (SameBase.deleteFiles session _).originalOpencodeDatabases

theorem OpencodePlan.original_eq (h : OpencodePlan inputs durable prepared databases scan) :
    prepared.state.originalOpencodeDatabases = durable.checkpoint.opencodeDatabases := by
  rw [h.base.originalOpencodeDatabases, recoverCheckpoint]
  dsimp only
  split
  · exact preparePendingIngestRecovery_original _
  · exact preparePendingIngestRecovery_original _

/-- The session of the intent differs from the prepared one in the intent. -/
theorem intendedSession_rows (hplan : OpencodePlan inputs durable prepared databases scan)
    (options : IngestOptions) (other : Durable) :
    (intendedSession prepared options inputs.execution other).Coherent ∧
      (intendedSession prepared options inputs.execution other).rows = prepared.state.rows ∧
      (intendedSession prepared options inputs.execution other).originalOpencodeDatabases =
        prepared.state.originalOpencodeDatabases ∧
      (intendedSession prepared options inputs.execution other).store.opencodeDatabases =
        prepared.state.store.opencodeDatabases := by
  have hcoherent := hplan.coherent
  rw [intendedSession]
  split
  · refine ⟨hcoherent.congr ?_ rfl rfl, ?_, rfl, ?_⟩
    · simp [CheckpointSession.commitIntent, CheckpointStore.commitIntent]
    · simp [CheckpointSession.rows, CheckpointSession.commitIntent, CheckpointStore.commitIntent]
    · simp [CheckpointSession.commitIntent, CheckpointStore.commitIntent]
  · exact ⟨hcoherent, rfl, rfl, rfl⟩

/-- The rows of a publishing refresh are old ones and those of its tasks. -/
theorem finalSession_rows (hplan : OpencodePlan inputs durable prepared databases scan)
    (options : IngestOptions) (other : Durable) {path : String}
    (h : path ∈ (finalSession prepared inputs.execution
      (intendedSession prepared options inputs.execution other)).rows) :
    path ∈ durable.checkpoint.files ∨ inputs.Backs path := by
  obtain ⟨hcoherent, hrows, -⟩ := intendedSession_rows hplan options other
  have hkeys := keys_foldl_upsertFile (updatedFiles prepared inputs.execution) hcoherent
  have hmem : path ∈ ((updatedFiles prepared inputs.execution).foldl
      (fun session update => session.upsertFile update.1 update.2)
      (intendedSession prepared options inputs.execution other)).rows.keys := Finmap.mem_keys.mpr h
  rw [hkeys, hrows] at hmem
  rcases Finset.mem_union.mp hmem with hmem | hmem
  · exact .inl (Finmap.mem_keys.mp (hplan.rows hmem))
  · obtain ⟨update, hupdate, rfl⟩ := List.mem_map.mp (List.mem_toFinset.mp hmem)
    obtain ⟨task, htask, hparsed⟩ := List.mem_filterMap.mp hupdate
    split at hparsed
    · cases hparsed
      exact .inr (hplan.tasks task htask)
    · cases hparsed

/-- A refresh that returns `Ok` has followed its plan to the end. -/
theorem ingestSelected_finished (hreads : ReadsDatabases crates views inputs)
    (hok : (ingestSelected inputs durable).ok = true) :
    ∃ prepared databases scan,
      prepareRefresh inputs.inv inputs.options (recoverCheckpoint durable).1
          (recoverCheckpoint durable).2 inputs.narrowing = some prepared ∧
        OpencodePlan inputs durable prepared databases scan ∧
        Finished inputs durable prepared (ingestSelected inputs durable).durable := by
  obtain ⟨hcheckpoint, hlexical, -⟩ := recoverCheckpoint_frame durable
  rw [ingestSelected] at hok ⊢
  dsimp only at hok ⊢
  cases hprepare : prepareRefresh inputs.inv inputs.options (recoverCheckpoint durable).1
      (recoverCheckpoint durable).2 inputs.narrowing with
  | none =>
      rw [hprepare] at hok
      cases hok
  | some prepared =>
      rw [hprepare] at hok
      dsimp only at hok ⊢
      obtain ⟨databases, scan, hplan⟩ := prepareRefresh_plan hreads.once hprepare
      refine ⟨prepared, databases, scan, rfl, hplan, ?_⟩
      have hstart := prepareRefresh_startsReserved hprepare
      have hstore : prepared.state.store = durable.checkpoint := hstart.store.trans hcheckpoint
      have hrecovering : prepared.recoveringPendingIngest = durable.checkpoint.pending.isSome := by
        rw [hstart.recovering, hcheckpoint]
      rcases executeRefresh_of_ok hok with ⟨hdecision, heq⟩ | ⟨-, heq⟩
      · rw [heq]
        obtain ⟨htasks, hpaths, htargets, -⟩ := sourceChanges_eq_false_of_decision hdecision
        set session := { prepared.state with opencodeDatabases := prepared.installedOpencodeStates }
          with hsession
        have hstored := fun pending => commitRefresh_stored prepared inputs.execution
          (recoverCheckpoint durable).1 session pending (by
            rw [hsession]
            exact hstart.original.trans (by rw [hstart.store]))
        have hsettled (hidle : ¬ prepared.recoveringPendingIngest = true) :
            durable.checkpoint.pending = none := by
          rw [hrecovering] at hidle
          simpa using hidle
        have hkept (hidle : ¬ prepared.recoveringPendingIngest = true) :
            PendingChange.keep.apply session.store.pending = none :=
          (congrArg CheckpointStore.pending hstore).trans (hsettled hidle)
        constructor
        · refine commitRefresh_opencodeDatabases _ _ _ session _ ?_
          rw [hsession]
          exact hplan.original_eq.trans (by rw [hstore])
        · rw [(hstored _).pending]
          split
          · exact (finalizedPendingIngest_lists _ _ _).1
          · rename_i hidle
            rw [hkept hidle, hplan.deferred, hsettled hidle]
            rfl
        · rw [(hstored _).pending]
          split
          · exact (finalizedPendingIngest_lists _ _ _).2.1
          · rename_i hidle
            rw [hkept hidle]
            rfl
        · intro hempty
          rw [(hstored _).pending]
          split
          · exact (finalizedPendingIngest_lists _ _ _).2.2 hempty
          · rename_i hidle
            exact hkept hidle
        · intro path hpath
          rw [(hstored _).files] at hpath
          exact .inl (Finmap.mem_keys.mp (hplan.rows (Finmap.mem_keys.mpr hpath)))
        · intro scope hbacked
          change ScopePublished durable prepared scope (recoverCheckpoint durable).1.lexical
          rw [hlexical]
          exact hplan.scopePublished_of_idle hreads hpaths htargets
      · rw [heq]
        have hintended := intendedSession_store inputs.options inputs.execution hstart
        obtain ⟨-, -, horiginals, hdatabases⟩ :=
          intendedSession_rows hplan inputs.options (recoverCheckpoint durable).1
        have hsame := finalSession_sameStore prepared inputs.execution
          (intendedSession prepared inputs.options inputs.execution (recoverCheckpoint durable).1)
        have hstored := commitRefresh_stored prepared inputs.execution
          (vectorDurable prepared inputs.options inputs.execution (recoverCheckpoint durable).1)
          (finalSession prepared inputs.execution (intendedSession prepared inputs.options
            inputs.execution (recoverCheckpoint durable).1))
          (finalizedPendingIngest prepared.deferredPendingScopes
            (finalDocId prepared inputs.execution))
          (by rw [hsame.1, hsame.2, hintended.2, hintended.1]; split <;> rfl)
        constructor
        · refine commitRefresh_opencodeDatabases _ _ _ _ _ ?_
          rw [hsame.1, hdatabases, hstore, finalSession_original, horiginals, hplan.original_eq]
        · rw [hstored.pending]
          exact (finalizedPendingIngest_lists _ _ _).1
        · rw [hstored.pending]
          exact (finalizedPendingIngest_lists _ _ _).2.1
        · intro hempty
          rw [hstored.pending]
          exact (finalizedPendingIngest_lists _ _ _).2.2 hempty
        · intro path hpath
          rw [hstored.files] at hpath
          exact finalSession_rows hplan inputs.options (recoverCheckpoint durable).1 hpath
        · intro scope hbacked
          change ScopePublished durable prepared scope
            (publishedLexical prepared inputs.options inputs.execution
              (recoverCheckpoint durable).1)
          rw [publishedLexical_eq, hlexical]
          exact hplan.scopePublished hreads hbacked _ _

/-- Without a stop and with parsers that finish, a prepared refresh returns
`Ok`. -/
theorem ingestSelected_ok (hstop : inputs.stop = none)
    (hparse : ∀ task, finishFileTask task (inputs.execution.parse task) = true)
    (hprepare : prepareRefresh inputs.inv inputs.options (recoverCheckpoint durable).1
      (recoverCheckpoint durable).2 inputs.narrowing = some prepared) :
    (ingestSelected inputs durable).ok = true := by
  have hstart := prepareRefresh_startsReserved hprepare
  have hparsed : parserSucceeded prepared inputs.execution = true :=
    List.all_eq_true.mpr fun task _ => hparse task
  rw [ingestSelected]
  dsimp only
  rw [hprepare, hstop]
  dsimp only
  rw [executeRefresh]
  split
  · rw [publishRefresh, if_neg (by simp), if_neg (by simp [hparsed]), if_neg (by simp),
      if_neg (by simp)]
    have hintended := intendedSession_store inputs.options inputs.execution hstart
    have hsame := finalSession_sameStore prepared inputs.execution
      (intendedSession prepared inputs.options inputs.execution (recoverCheckpoint durable).1)
    refine commitRefresh_ok _ _ _ _ _ ?_
    rw [hsame.1, hsame.2, hintended.2, hintended.1]
    split <;> rfl
  · rw [commitCheckpointOnly, if_neg (by simp)]
    exact commitRefresh_ok _ _ _ _ _ (hstart.original.trans (by rw [hstart.store]))

end Commit

end Memex.Ingest
