import Memex.Ingest.DocIdReuse
import Memex.Ingest.SessionScopes

/-! # Session ownership

OpenCode databases may share session ids. Over any run of refreshes each session
has at most one owner, the index holds records of a session under its owner's
path only, and a session that its owner lost is taken over by a ready database
that lists it. -/

namespace Memex.Ingest

open Overlay State Sources Sources.Opencode

/-- One refresh and what it sees of the databases. -/
structure DatabaseRefresh where
  views : String → DatabaseView
  inputs : RefreshInputs

/-- A refresh whose commits succeed, on files and databases that have separate
paths. -/
structure DatabaseRefresh.Sound (crates : Crates) (isDatabase : String → Prop)
    (refresh : DatabaseRefresh) : Prop where
  reads : ReadsDatabases crates refresh.views refresh.inputs
  listed : ∀ path, refresh.inputs.ListsDatabase path → isDatabase path
  separate : ∀ path, isDatabase path → ¬ refresh.inputs.Backs path
  uninterrupted : refresh.inputs.stop = none
  parsers : ∀ task, finishFileTask task (refresh.inputs.execution.parse task) = true

/-- The refreshes one after the other, on a new store. -/
def runDatabaseRefreshes (refreshes : List DatabaseRefresh) : Durable :=
  runRefreshes (refreshes.map DatabaseRefresh.inputs) {}

/-- The refresh that discovery prepares, if it does not abort. -/
def preparedRefresh (inputs : RefreshInputs) (durable : Durable) : Option PreparedRefresh :=
  prepareRefresh inputs.inv inputs.options (recoverCheckpoint durable).1
    (recoverCheckpoint durable).2 inputs.narrowing

/-- The databases that were scanned and read by a refresh. -/
def readyDatabases (inputs : RefreshInputs) (durable : Durable) : List PreparedOpencodeDatabase :=
  ((preparedRefresh inputs durable).map PreparedRefresh.opencodeReadyDatabases).getD []

/-- A full refresh did not find the database, or found it excluded. -/
def ConfirmedAbsent (inputs : RefreshInputs) (durable : Durable) (path : String) : Prop :=
  (preparedRefresh inputs durable).any PreparedRefresh.fullScan = true ∧
    ¬ (path ∈ inputs.inv.opencodeDatabases ∧ inputs.options.excluder.isExcluded path = false)

/-- The sessions a database lists in its scan. -/
def PreparedOpencodeDatabase.sessionIds (database : PreparedOpencodeDatabase) : List String :=
  database.scan.sessions.map OpencodeSession.id

/-- The stored databases that own a session, and the databases whose records of
it are in the index. -/
structure OwnsSessions (isDatabase : String → Prop) (durable : Durable) : Prop where
  settled : durable.checkpoint.pending = none
  untracked : ∀ path, isDatabase path → path ∉ durable.checkpoint.files
  unique : ∀ session path other,
    session ∈ ownedSessionIds durable.checkpoint.opencodeDatabases path →
    session ∈ ownedSessionIds durable.checkpoint.opencodeDatabases other → path = other
  records : ∀ record ∈ durable.lexical, isDatabase record.sourcePath →
    record.sessionId ∈ ownedSessionIds durable.checkpoint.opencodeDatabases record.sourcePath

theorem OwnsSessions.initial (isDatabase : String → Prop) : OwnsSessions isDatabase {} where
  settled := rfl
  untracked _ _ := Finmap.notMem_empty
  unique session _ _ h := absurd h (Finset.notMem_empty session)
  records record h := absurd h (Multiset.notMem_zero record)

section Step

variable {crates : Crates} {isDatabase : String → Prop} {refresh : DatabaseRefresh}
  {durable : Durable} {prepared : PreparedRefresh} {databases : List String} {scan : OpencodeScan}

/-- Without an interrupted refresh the states are the stored ones, unless the
index is empty and everything is read again. -/
theorem recoveredStates_settled (h : durable.checkpoint.pending = none) :
    recoveredStates durable = durable.checkpoint.opencodeDatabases ∨
      (durable.lexical = 0 ∧ recoveredStates durable = ∅) := by
  have hpending : (CheckpointSession.open durable.checkpoint).pending = none := h
  rw [recoveredStates, recoverCheckpoint, preparePendingIngestRecovery, hpending]
  dsimp only
  split
  · rename_i hempty
    exact .inr ⟨hempty.1, rfl⟩
  · exact .inl rfl

theorem mem_owned_of_recovered (h : durable.checkpoint.pending = none) {session path : String}
    (howned : session ∈ ownedSessionIds (recoveredStates durable) path) :
    session ∈ ownedSessionIds durable.checkpoint.opencodeDatabases path := by
  rcases recoveredStates_settled h with heq | ⟨-, heq⟩
  · rw [← heq]
    exact howned
  · rw [heq] at howned
    exact absurd howned (Finset.notMem_empty session)

/-- The sessions a database owns after the refresh. -/
theorem OpencodePlan.owned_installed
    (h : OpencodePlan refresh.inputs durable prepared databases scan) :
    (∀ database ∈ scan.ready, ownedSessionIds prepared.installedOpencodeStates database.path =
        readyOwned (scan.owner (recoveredStates durable)) database) ∧
      ∀ path ∉ scan.ready.map PreparedOpencodeDatabase.path,
        ownedSessionIds prepared.installedOpencodeStates path =
          if path ∈ scan.pathsToDelete (recoveredStates durable) then ∅
          else ownedSessionIds (recoveredStates durable) path := by
  constructor
  · intro database hready
    have hlookup : (readyTable (readyState (scan.owner (recoveredStates durable)))
        scan.ready).lookup database.path = some _ := lookup_readyTable h.scanned.nodup hready
    rw [ownedSessionIds, h.installed,
      Finmap.lookup_union_left (Finmap.mem_of_lookup_eq_some hlookup),
      hlookup]
    rfl
  · intro path hpath
    have hlookup := lookup_readyTable_of_not_ready
      (readyState (scan.owner (recoveredStates durable))) hpath
    rw [ownedSessionIds, h.installed,
      Finmap.lookup_union_right (Finmap.lookup_eq_none.mp hlookup), lookup_eraseAll]
    split
    · rfl
    · rfl

/-- Whoever owns a session after the refresh was chosen as its owner. -/
theorem OpencodePlan.owner_of_installed
    (h : OpencodePlan refresh.inputs durable prepared databases scan)
    (howns : OwnsSessions isDatabase durable) {session path : String}
    (howned : session ∈ ownedSessionIds prepared.installedOpencodeStates path) :
    scan.owner (recoveredStates durable) session = some path := by
  obtain ⟨hready, hother⟩ := h.owned_installed
  by_cases hpath : path ∈ scan.ready.map PreparedOpencodeDatabase.path
  · obtain ⟨database, hdatabase, rfl⟩ := List.mem_map.mp hpath
    rw [hready database hdatabase] at howned
    exact (mem_readyOwned.mp howned).2
  · rw [hother path hpath] at howned
    split at howned
    · exact absurd howned (Finset.notMem_empty session)
    · rename_i hkept
      have hstored : path ∈ (recoveredStates durable).keys := by
        rw [Finmap.mem_keys, ← Finmap.lookup_isSome]
        by_contra hnone
        rw [ownedSessionIds, Option.not_isSome_iff_eq_none.mp hnone] at howned
        exact absurd howned (Finset.notMem_empty session)
      refine OpencodeScan.owner_of_failed ?_ howned fun other howner => ?_
      · have houtcome := h.scanned.outcome path
        rw [if_neg hpath] at houtcome
        rw [houtcome]
        refine if_neg fun habsent => hkept (Finset.mem_filter.mpr ⟨hstored, ?_⟩)
        rw [houtcome, if_pos habsent]
      · exact howns.unique session other path (mem_owned_of_recovered howns.settled howner)
          (mem_owned_of_recovered howns.settled howned)

/-- Records that the refresh leaves under a database are of sessions it owns. -/
theorem OpencodePlan.records_owned
    (h : OpencodePlan refresh.inputs durable prepared databases scan)
    (hsound : refresh.Sound crates isDatabase) (howns : OwnsSessions isDatabase durable)
    (scope : SessionScope) (hdatabase : isDatabase scope.sourcePath) {lexical : Multiset Record}
    (hpublished : ScopePublished durable prepared scope lexical)
    (hrecords : scopeRecords lexical scope ≠ 0) :
    scope.sessionId ∈ ownedSessionIds prepared.installedOpencodeStates scope.sourcePath := by
  obtain ⟨hready, hother⟩ := h.owned_installed
  by_cases hread : ∃ database, ScopeRead durable scan scope database
  · obtain ⟨database, hread⟩ := hread
    have howned := hready database hread.ready
    rw [hread.path] at howned
    rw [howned, mem_readyOwned, hread.path]
    exact ⟨hread.listed, hread.owner⟩
  · rw [hpublished, h.replayed_of_not_read hsound.reads (not_exists.mp hread), add_zero] at hrecords
    split at hrecords
    · exact absurd rfl hrecords
    rename_i hkept
    rw [ScopeDeleted, not_or, h.targets, h.scanned.mem_scopeTargets] at hkept
    obtain ⟨hpath, htarget⟩ := hkept
    obtain ⟨record, hrecord⟩ := Multiset.exists_mem_of_ne_zero hrecords
    obtain ⟨hindexed, hscope⟩ := Multiset.mem_filter.mp hrecord
    have hlexical : durable.lexical ≠ 0 := fun hempty => by
      rw [hempty] at hindexed
      exact absurd hindexed (Multiset.notMem_zero record)
    have hstates : recoveredStates durable = durable.checkpoint.opencodeDatabases := by
      rcases recoveredStates_settled howns.settled with heq | ⟨hempty, -⟩
      · exact heq
      · exact absurd hempty hlexical
    have howned : scope.sessionId ∈ ownedSessionIds (recoveredStates durable) scope.sourcePath := by
      have hrecordOwned := howns.records record hindexed
      rw [← hstates,
        show record.sourcePath = scope.sourcePath from congrArg SessionScope.sourcePath hscope,
        show record.sessionId = scope.sessionId from congrArg SessionScope.sessionId hscope]
        at hrecordOwned
      exact hrecordOwned hdatabase
    by_cases hmem : scope.sourcePath ∈ scan.ready.map PreparedOpencodeDatabase.path
    · obtain ⟨database, hreadyDatabase, hpathEq⟩ := List.mem_map.mp hmem
      have houtcome := h.scanned.outcome_of_ready hreadyDatabase
      rw [hpathEq] at houtcome
      have howner : scan.owner (recoveredStates durable) scope.sessionId =
          some scope.sourcePath := by
        by_contra hne
        exact htarget (.inl ⟨houtcome, howned, hne⟩)
      have hownedReady := hready database hreadyDatabase
      rw [hpathEq] at hownedReady
      rw [hownedReady, mem_readyOwned, hpathEq]
      exact ⟨h.scanned.listed_of_owner hreadyDatabase (hpathEq ▸ howner), howner⟩
    · rw [hother _ hmem, if_neg]
      · exact howned
      · intro hdeleted
        exact hpath ((h.deletes scope.sourcePath (hsound.separate _ hdatabase)
          (howns.untracked _ hdatabase)).mpr (.inr (.inl hdeleted)))

/-- A finished refresh keeps the ownership of sessions. -/
theorem OwnsSessions.finished (howns : OwnsSessions isDatabase durable)
    (hsound : refresh.Sound crates isDatabase)
    (hplan : OpencodePlan refresh.inputs durable prepared databases scan) {final : Durable}
    (hfinal : Finished refresh.inputs durable prepared final) : OwnsSessions isDatabase final := by
  constructor
  · refine hfinal.cleared ?_
    rw [hplan.deferred, howns.settled]
    rfl
  · intro path hdatabase hpath
    rcases hfinal.files path hpath with hstored | hbacked
    · exact howns.untracked path hdatabase hstored
    · exact hsound.separate path hdatabase hbacked
  · intro session path other hpath hother
    rw [hfinal.databases] at hpath hother
    exact Option.some.inj
      ((hplan.owner_of_installed howns hpath).symm.trans (hplan.owner_of_installed howns hother))
  · intro record hrecord hdatabase
    rw [hfinal.databases]
    refine hplan.records_owned hsound howns (Record.scope record) hdatabase
      (hfinal.records _ (hsound.separate _ hdatabase)) fun hempty => ?_
    exact Multiset.notMem_zero record (hempty ▸ Multiset.mem_filter.mpr ⟨hrecord, rfl⟩)

/-- A refresh that aborts leaves the checkpoint and the index alone. -/
theorem ingestSelected_aborted (inputs : RefreshInputs) (durable : Durable)
    (h : preparedRefresh inputs durable = none) :
    (ingestSelected inputs durable).ok = false ∧
      (ingestSelected inputs durable).durable.checkpoint = durable.checkpoint ∧
      (ingestSelected inputs durable).durable.lexical = durable.lexical := by
  obtain ⟨hcheckpoint, hlexical, -⟩ := recoverCheckpoint_frame durable
  rw [preparedRefresh] at h
  rw [ingestSelected]
  dsimp only
  rw [h]
  exact ⟨rfl, hcheckpoint, hlexical⟩

/-- One refresh, finished or aborted, keeps the ownership of sessions. -/
theorem OwnsSessions.ingestSelected (howns : OwnsSessions isDatabase durable)
    (hsound : refresh.Sound crates isDatabase) :
    OwnsSessions isDatabase (ingestSelected refresh.inputs durable).durable := by
  cases hprepare : preparedRefresh refresh.inputs durable with
  | none =>
      obtain ⟨-, hcheckpoint, hlexical⟩ := ingestSelected_aborted refresh.inputs durable hprepare
      constructor
      · rw [hcheckpoint]
        exact howns.settled
      · rw [hcheckpoint]
        exact howns.untracked
      · rw [hcheckpoint]
        exact howns.unique
      · rw [hcheckpoint, hlexical]
        exact howns.records
  | some prepared =>
      have hok := ingestSelected_ok hsound.uninterrupted hsound.parsers hprepare
      obtain ⟨prepared, databases, scan, -, hplan, hfinal⟩ :=
        ingestSelected_finished hsound.reads hok
      exact howns.finished hsound hplan hfinal

/-- A session that its owner lost is taken over: a ready database owns it, has
read it, and the index holds what was read. -/
theorem OpencodePlan.session_taken_over
    (h : OpencodePlan refresh.inputs durable prepared databases scan)
    (hsound : refresh.Sound crates isDatabase) (howns : OwnsSessions isDatabase durable)
    {final : Durable} (hfinal : Finished refresh.inputs durable prepared final)
    {lister : PreparedOpencodeDatabase} (hlister : lister ∈ scan.ready) {session previous : String}
    (hlisted : session ∈ lister.sessionIds)
    (howned : session ∈ ownedSessionIds durable.checkpoint.opencodeDatabases previous)
    (hlost : scan.outcome previous = .confirmedAbsent ∨
      ∃ database ∈ scan.ready, database.path = previous ∧ session ∉ database.sessionIds) :
    ∃ owner ∈ scan.ready,
      session ∈ ownedSessionIds final.checkpoint.opencodeDatabases owner.path ∧
        ∃ content records, (refresh.views owner.path).hydrated = some content ∧
          parseSession crates content owner.path owner.scan session = some records ∧
          (scopeRecords final.lexical ⟨owner.path, session⟩).map Record.body =
            (records.map Record.body : List Record) := by
  have hnotFailed : scan.outcome previous ≠ .failed := by
    rcases hlost with habsent | ⟨database, hready, rfl, -⟩
    · rw [habsent]
      decide
    · rw [h.scanned.outcome_of_ready hready]
      decide
  have honly {other : String} (hother : session ∈ ownedSessionIds (recoveredStates durable) other) :
      other = previous :=
    howns.unique session other previous (mem_owned_of_recovered howns.settled hother) howned
  obtain ⟨path, howner⟩ :=
    OpencodeScan.owner_isSome (recoveredStates durable) hlister hlisted
  obtain ⟨owner, hready, rfl, hsession⟩ : ∃ owner ∈ scan.ready, owner.path = path ∧
      session ∈ owner.scan.sessions.map OpencodeSession.id := by
    rcases OpencodeScan.owner_eq_some howner with ⟨hfailed, hother⟩ | hready
    · exact absurd (honly hother ▸ hfailed) hnotFailed
    · exact hready
  -- the owner did not own the session before, so its scan marked it
  have hnew : session ∉ ownedSessionIds (recoveredStates durable) owner.path := by
    intro hother
    have hpath := honly hother
    rcases hlost with habsent | ⟨database, hdatabase, hprevious, hmissing⟩
    · rw [← hpath, h.scanned.outcome_of_ready hready] at habsent
      cases habsent
    · rw [h.scanned.ready_unique hdatabase hready (hprevious.trans hpath.symm)] at hmissing
      exact hmissing hsession
  have hdirty : session ∈ owner.scan.dirtySessionIds := by
    obtain ⟨-, ⟨-, -, hscan⟩, -⟩ := h.scanned.ready owner hready
    rw [hsound.reads.stores] at hscan
    obtain ⟨content, -, hscan⟩ := Option.bind_eq_some_iff.mp hscan
    exact mem_dirtySessionIds_of_new hscan hsession hnew
  have hread : ScopeRead durable scan ⟨owner.path, session⟩ owner :=
    { ready := hready
      path := rfl
      owner := howner
      listed := hsession
      asked := mem_hydrationSessionIds.mpr (.inl hdirty) }
  refine ⟨owner, hready, ?_, ?_⟩
  · rw [hfinal.databases, h.owned_installed.1 owner hready, mem_readyOwned]
    exact ⟨hsession, howner⟩
  · obtain ⟨content, records, hcontent, hrecords, hbodies⟩ :=
      h.replayed_of_read hsound.reads hread
    refine ⟨content, records, hcontent, hrecords, ?_⟩
    have hdatabase : isDatabase owner.path :=
      hsound.listed _ (h.listed _ (h.scanned.ready owner hready).1)
    have hpublished := hfinal.records ⟨owner.path, session⟩ (hsound.separate _ hdatabase)
    rw [hpublished, if_pos (.inr (h.target_of_read hread)), zero_add, hbodies]

/-- What a full refresh does not find is absent for it. -/
theorem OpencodePlan.outcome_of_absent
    (h : OpencodePlan refresh.inputs durable prepared databases scan)
    (hprepared : preparedRefresh refresh.inputs durable = some prepared) (hready : scan.ready ≠ [])
    {path : String} (habsent : ConfirmedAbsent refresh.inputs durable path) :
    scan.outcome path = .confirmedAbsent := by
  obtain ⟨hfull, hgone⟩ := habsent
  rw [hprepared] at hfull
  obtain ⟨hscan, rfl⟩ := h.full hfull (h.included hready)
  rw [h.scanned.outcome, if_neg, if_pos ⟨hscan, hgone⟩]
  intro hmem
  obtain ⟨database, hdatabase, rfl⟩ := List.mem_map.mp hmem
  obtain ⟨hlisted, hscannable, -⟩ := h.scanned.ready database hdatabase
  exact hgone ⟨hlisted, hscannable.1⟩

end Step

section Runs

variable {crates : Crates} {isDatabase : String → Prop}

theorem runDatabaseRefreshes_concat (refreshes : List DatabaseRefresh) (last : DatabaseRefresh) :
    runDatabaseRefreshes (refreshes ++ [last]) =
      (ingestSelected last.inputs (runDatabaseRefreshes refreshes)).durable := by
  rw [runDatabaseRefreshes, List.map_append, runRefreshes, List.foldl_append]
  rfl

/-- Over a run each session keeps at most one owner. -/
theorem runDatabaseRefreshes_ownsSessions (refreshes : List DatabaseRefresh)
    (hsound : ∀ refresh ∈ refreshes, refresh.Sound crates isDatabase) :
    OwnsSessions isDatabase (runDatabaseRefreshes refreshes) := by
  induction refreshes using List.reverseRecOn with
  | nil => exact OwnsSessions.initial isDatabase
  | append_singleton refreshes last ih =>
      rw [runDatabaseRefreshes_concat]
      have hbefore := ih fun refresh hrefresh => hsound refresh (List.mem_append_left _ hrefresh)
      exact hbefore.ingestSelected (hsound last (by simp))

/-- After any run of refreshes a session has at most one owner and indexed
records of a database are of sessions it owns; a session listed by a ready
database, whose owner is absent or ready without it, is owned and indexed by a
ready database. -/
theorem opencode_session_ownership (crates : Crates) (isDatabase : String → Prop)
    (refreshes : List DatabaseRefresh) (last : DatabaseRefresh)
    (hsound : ∀ refresh ∈ refreshes ++ [last], refresh.Sound crates isDatabase) :
    let before := runDatabaseRefreshes refreshes
    let after := runDatabaseRefreshes (refreshes ++ [last])
    (∀ session path other,
        session ∈ ownedSessionIds after.checkpoint.opencodeDatabases path →
        session ∈ ownedSessionIds after.checkpoint.opencodeDatabases other → path = other) ∧
      (∀ record ∈ after.lexical, isDatabase record.sourcePath →
        record.sessionId ∈
          ownedSessionIds after.checkpoint.opencodeDatabases record.sourcePath) ∧
      ∀ lister ∈ readyDatabases last.inputs before, ∀ session ∈ lister.sessionIds, ∀ previous,
        session ∈ ownedSessionIds before.checkpoint.opencodeDatabases previous →
        (ConfirmedAbsent last.inputs before previous ∨
          ∃ database ∈ readyDatabases last.inputs before, database.path = previous ∧
            session ∉ database.sessionIds) →
        ∃ owner ∈ readyDatabases last.inputs before,
          session ∈ ownedSessionIds after.checkpoint.opencodeDatabases owner.path ∧
            ∃ content records, (last.views owner.path).hydrated = some content ∧
              parseSession crates content owner.path owner.scan session = some records ∧
              (scopeRecords after.lexical ⟨owner.path, session⟩).map Record.body =
                (records.map Record.body : List Record) := by
  intro before after
  have hbefore : OwnsSessions isDatabase before := runDatabaseRefreshes_ownsSessions refreshes
    fun refresh hrefresh => hsound refresh (List.mem_append_left _ hrefresh)
  have hafter : OwnsSessions isDatabase after :=
    runDatabaseRefreshes_ownsSessions (refreshes ++ [last]) hsound
  have hlast : last.Sound crates isDatabase := hsound last (by simp)
  refine ⟨hafter.unique, hafter.records, ?_⟩
  intro lister hlister session hlisted previous howned hlost
  cases hprepare : preparedRefresh last.inputs before with
  | none =>
      rw [readyDatabases, hprepare] at hlister
      cases hlister
  | some prepared =>
      have hok := ingestSelected_ok hlast.uninterrupted hlast.parsers hprepare
      obtain ⟨other, databases, scan, hother, hplan, hfinal⟩ :=
        ingestSelected_finished hlast.reads hok
      obtain rfl : prepared = other := Option.some.inj (hprepare.symm.trans hother)
      have hready : readyDatabases last.inputs before = scan.ready := by
        rw [readyDatabases, hprepare]
        exact hplan.ready
      rw [hready] at hlister hlost ⊢
      have hfound : after = (ingestSelected last.inputs before).durable :=
        runDatabaseRefreshes_concat refreshes last
      rw [hfound]
      refine hplan.session_taken_over hlast hbefore hfinal hlister hlisted howned ?_
      exact hlost.imp_left
        (hplan.outcome_of_absent hprepare (List.ne_nil_of_mem hlister))

end Runs

/-- A v1 database with one session of one message. -/
def singleSession (text : String) : Database where
  session := .holding [{ id := "ses_1" }]
  message := .holding [{ id := "m1", sessionId := "ses_1", data := some (.object []) }]
  part := .holding
    [{ id := "p1"
       messageId := "m1"
       data := some (.object [("type", .string "text"), ("text", .string text)]) }]
  event := .holding []

/-- A full refresh that finds the listed databases. -/
def viewingRefresh (databases : List String) (views : String → DatabaseView) :
    DatabaseRefresh where
  views
  inputs :=
    { inv :=
        { opencodeDatabases := databases
          bobVirtualPath := fun _ _ => "bob"
          opencodeStore := fun path => (views path).store plainCrates path }
      options := { includeOpencode := true }
      narrowing := .none
      execution := { parse := fun _ => .parsed { records := [], offset := 0 } }
      stop := none }

/-- It reads all of them, and nothing is written meanwhile. -/
def readingRefresh (databases : List String) (content : String → Database) : DatabaseRefresh :=
  viewingRefresh databases fun path =>
    { stat := .found { len := 1 }
      scanned := some (content path)
      hydrated := some (content path) }

theorem viewingRefresh_sound {databases paths : List String} (views : String → DatabaseView)
    (hnodup : databases.Nodup) (hpaths : databases ⊆ paths) (hbob : "bob" ∉ paths) :
    (viewingRefresh databases views).Sound plainCrates (· ∈ paths) := by
  constructor
  · constructor
    · exact fun _ => rfl
    · exact ⟨hnodup, fun _ h => absurd h (Option.not_mem_none _)⟩
    · exact fun _ _ h => absurd h List.not_mem_nil
  · rintro path (hlisted | ⟨_, hselected, -⟩)
    · exact hpaths hlisted
    · exact absurd hselected (Option.not_mem_none _)
  · rintro path hpath (hbacked | ⟨_, hselected, -⟩)
    · cases hbacked with
      | transcript file h => exact List.not_mem_nil h
      | projection session _ h => exact List.not_mem_nil h
      | bobTask database id => exact hbob hpath
      | legacy _ h => exact List.not_mem_nil h
    · exact absurd hselected (Option.not_mem_none _)
  · rfl
  · intro task
    rfl

/-- Two databases share a session, then the first one is gone. -/
def ownerGoneRun : List DatabaseRefresh :=
  [readingRefresh ["a.db", "b.db"] singleSession]

/-- The owner of the shared session is gone: the other database takes it over
and its copy is in the index. -/
theorem opencode_session_ownership_owner_gone :
    ∃ owner ∈ readyDatabases (readingRefresh ["b.db"] singleSession).inputs
        (runDatabaseRefreshes ownerGoneRun),
      "ses_1" ∈ ownedSessionIds
          (runDatabaseRefreshes (ownerGoneRun ++
            [readingRefresh ["b.db"] singleSession])).checkpoint.opencodeDatabases owner.path ∧
        ∃ content records,
          ((readingRefresh ["b.db"] singleSession).views owner.path).hydrated = some content ∧
            parseSession plainCrates content owner.path owner.scan "ses_1" = some records ∧
            (scopeRecords (runDatabaseRefreshes (ownerGoneRun ++
                [readingRefresh ["b.db"] singleSession])).lexical
              ⟨owner.path, "ses_1"⟩).map Record.body =
                (records.map Record.body : List Record) := by
  obtain ⟨lister, hlister, hlisted⟩ : ∃ lister ∈ readyDatabases
      (readingRefresh ["b.db"] singleSession).inputs (runDatabaseRefreshes ownerGoneRun),
      "ses_1" ∈ lister.sessionIds := by decide +kernel
  refine (opencode_session_ownership plainCrates (· ∈ ["a.db", "b.db"]) ownerGoneRun
    (readingRefresh ["b.db"] singleSession) ?_).2.2 lister hlister "ses_1" hlisted "a.db"
      (by decide +kernel) (.inl ⟨by decide +kernel, ?_⟩)
  · intro refresh hrefresh
    rcases List.mem_append.mp hrefresh with hmem | hmem
    · rw [List.mem_singleton.mp hmem]
      exact viewingRefresh_sound _ (by decide) (by simp) (by decide)
    · rw [List.mem_singleton.mp hmem]
      exact viewingRefresh_sound _ (by decide) (by simp) (by decide)
  · rintro ⟨hlisted, -⟩
    exact absurd (List.mem_singleton.mp hlisted) (by decide)

end Memex.Ingest
