import Mathlib.Order.Interval.Finset.Nat
import Memex.Ingest.CatalogueRefresh

/-! # The session catalogue agrees with the index

Between refreshes the catalogue agrees with the published index, or the next refresh has a
reason to fill it again: an intent is pending, the catalogue is incomplete, or it has rows and
the index is empty. -/

namespace Memex.Ingest

open Overlay State
open Analytics (Catalogue SessionLookups CatalogueAgrees Counts sessionKey)

/-- Timestamps fit into 63 bits, and what is read from a database is of OpenCode. -/
def Honest (isDatabase : String → Prop) (record : Record) : Prop :=
  record.ts < 2 ^ 63 ∧ (isDatabase record.sourcePath → record.source = .opencode)

theorem honest_body {isDatabase : String → Prop} {record : Record} :
    Honest isDatabase record.body ↔ Honest isDatabase record := Iff.rfl

/-- What a refresh reads: no database is listed twice, databases lie where `isDatabase` says,
and parsers and databases emit honest records. -/
structure CatalogueRefresh.Sound (isDatabase : String → Prop) (refresh : CatalogueRefresh) :
    Prop where
  once : refresh.inputs.DatabasesOnce
  listed : ∀ path, refresh.inputs.ListsDatabase path → isDatabase path
  parsed : ∀ task, ∀ record ∈ (refresh.execution.parse task).emitted, Honest isDatabase record
  hydrated : ∀ path scan sessions,
    ∀ record ∈ ((refresh.inv.opencodeStore path).hydrate scan sessions).records,
      Honest isDatabase record

/-- The id counter of a refresh stays below 2^63. -/
def CatalogueRefresh.Fits (refresh : CatalogueRefresh) (installation : Installation) : Prop :=
  let recovery := recoverCheckpoint installation.durable
  ∀ prepared ∈ prepareRefresh refresh.inv refresh.options recovery.1 recovery.2 refresh.narrowing,
    drawnDocIds prepared refresh.execution < 2 ^ 63

/-- An event that its installation can take: refreshes read what is sound, and their counters
fit. -/
def InstallationEvent.Fits (isDatabase : String → Prop) (installation : Installation) :
    InstallationEvent → Prop
  | .refreshed refresh => refresh.Sound isDatabase ∧ refresh.Fits installation
  | .indexLost => True

/-- Every event of a run fits the installation it meets. -/
def RunFits (isDatabase : String → Prop) : List InstallationEvent → Installation → Prop
  | [], _ => True
  | event :: rest, installation =>
      event.Fits isDatabase installation ∧ RunFits isDatabase rest (event.apply installation)

section Executed

variable {isDatabase : String → Prop} {refresh : CatalogueRefresh} {installation : Installation}
  {prepared : PreparedRefresh} {durable : Durable} {history : List Record}
  {options : IngestOptions} {execution : ExecutionInputs} {analytics : AnalyticsInputs}
  {store : AnalyticsStore} {stop : Option Boundary}

/-- The next refresh has no reason to distrust the catalogue, or it agrees. -/
def Reconcilable (durable : Durable) (store : AnalyticsStore) : Prop :=
  durable.checkpoint.pending.isSome = true ∨ store.outdated durable = true ∨
    CatalogueAgrees store.sessions durable.lexical

/-- An incomplete catalogue without a row agrees with an empty index, and otherwise it is
outdated. -/
theorem reconcilable_of_incomplete (h : store.complete = false) : Reconcilable durable store := by
  by_cases hlexical : durable.lexical = 0
  · by_cases hsessions : store.sessions = ∅
    · refine .inr (.inr ?_)
      rw [hsessions, hlexical]
      exact Analytics.catalogueAgrees_empty
    · refine .inr (.inl ?_)
      rw [AnalyticsStore.outdated, if_pos hlexical, AnalyticsStore.isReady]
      exact decide_eq_true hsessions
  · refine .inr (.inl ?_)
    rw [AnalyticsStore.outdated, if_neg hlexical, AnalyticsStore.isComplete, h]
    rfl

/-- What a refresh relies on when it is executed. -/
structure Executable (isDatabase : String → Prop) (prepared : PreparedRefresh)
    (execution : ExecutionInputs) (durable : Durable) : Prop where
  starts : StartsReserved prepared durable
  fits : drawnDocIds prepared execution < 2 ^ 63
  indexed : durable.lexical.card ≤ reservedDocId durable.checkpoint
  honest : ∀ record ∈ durable.lexical, Honest isDatabase record
  added : ∀ record ∈ addedRecords prepared execution, Honest isDatabase record
  targets : ∀ scope ∈ prepared.opencodeScopeTargets, isDatabase scope.sourcePath

theorem IdsWithin.length_le {low high : Nat} {records : List Record}
    (h : IdsWithin low high records) : records.length ≤ high - low := by
  have hsubset : (records.map Record.docId).toFinset ⊆ Finset.Ico low high := by
    intro id hid
    obtain ⟨record, hrecord, rfl⟩ := List.mem_map.mp (List.mem_toFinset.mp hid)
    exact Finset.mem_Ico.mpr (h.bounds record hrecord)
  calc
    records.length = (records.map Record.docId).toFinset.card := by
      rw [List.toFinset_card_of_nodup h.nodup, List.length_map]
    _ ≤ (Finset.Ico low high).card := Finset.card_le_card hsubset
    _ = high - low := Nat.card_Ico low high

theorem Executable.length_added (h : Executable isDatabase prepared execution durable) :
    (addedRecords prepared execution).length ≤
      drawnDocIds prepared execution - reservedDocId durable.checkpoint := by
  have hfits := h.fits
  have hids : IdsWithin (reservedDocId durable.checkpoint) (drawnDocIds prepared execution)
      (addedRecords prepared execution) :=
    addedRecords_idsWithin h.starts.le h.starts.spools (by rw [docIdLimit]; omega)
  exact hids.length_le

theorem Executable.card_published (h : Executable isDatabase prepared execution durable)
    (options : IngestOptions) :
    (publishedLexical prepared options execution durable).card < 2 ^ 63 := by
  have hadded := h.length_added
  have hindexed := h.indexed
  have hdrawn : reservedDocId durable.checkpoint ≤ drawnDocIds prepared execution :=
    reservedDocId_le_drawn h.starts
  calc
    (publishedLexical prepared options execution durable).card ≤
        (durable.lexical + (addedRecords prepared execution : Multiset Record)).card :=
      Multiset.card_le_card publishedLexical_le
    _ = durable.lexical.card + (addedRecords prepared execution).length := by
      rw [Multiset.card_add, Multiset.coe_card]
    _ ≤ drawnDocIds prepared execution := by omega
    _ < 2 ^ 63 := h.fits

theorem Executable.honest_published (h : Executable isDatabase prepared execution durable)
    (options : IngestOptions) :
    ∀ record ∈ publishedLexical prepared options execution durable, Honest isDatabase record := by
  intro record hrecord
  rcases Multiset.mem_add.mp (Multiset.mem_of_le publishedLexical_le hrecord) with hmem | hmem
  · exact h.honest record hmem
  · exact h.added record (Multiset.mem_coe.mp hmem)

/-- A refresh that needs no intent publishes what is published. -/
theorem Executable.idle (h : Executable isDatabase prepared execution durable)
    (hneeds : needsPublication prepared options execution durable = false) :
    addedRecords prepared execution = [] ∧ prepared.deletePaths = ∅ ∧
      prepared.opencodeScopeTargets = ∅ := by
  have hfits := h.fits
  have hlimit : drawnDocIds prepared execution < docIdLimit := by
    rw [docIdLimit]
    omega
  have hdrawn := drawnDocIds_of_not_needsPublication h.starts hlimit hneeds
  have hids := addedRecords_idsWithin h.starts.le h.starts.spools hlimit.le
  rw [hdrawn] at hids
  refine ⟨hids.eq_nil, ?_, ?_⟩
  · by_contra hpaths
    simp [needsPublication, hpaths] at hneeds
  · by_contra hscopes
    simp [needsPublication, hscopes] at hneeds

/-- The writer's commit carries the agreement over to the index it publishes. -/
theorem Executable.written_agrees (h : Executable isDatabase prepared execution durable)
    (options : IngestOptions) (analytics : AnalyticsInputs)
    (hagrees : CatalogueAgrees store.sessions durable.lexical) :
    CatalogueAgrees (writtenAnalytics prepared options execution analytics durable store).sessions
      (publishedLexical prepared options execution durable) := by
  have hadded := h.length_added
  have hfits := h.fits
  by_cases hskips : skipsPublication prepared options execution durable = true
  · rw [writtenAnalytics, if_pos hskips, publishedLexical, if_pos hskips]
    exact hagrees
  · rw [writtenAnalytics, if_neg hskips, publishedLexical, if_neg hskips]
    have hkept := hagrees.deleteWhere fun key =>
      (key.source = .opencode &&
          decide (⟨key.sourcePath, key.sessionId⟩ ∈ prepared.opencodeScopeTargets)) ||
        decide (key.sourcePath ∈ prepared.deletePaths)
    have hsame : (durable.lexical.filter fun record =>
        ¬ (writerContext prepared options execution durable).Deletes record) =
          durable.lexical.filter fun record =>
            ¬ ((sessionKey record).source = .opencode &&
                decide (⟨(sessionKey record).sourcePath, (sessionKey record).sessionId⟩ ∈
                  prepared.opencodeScopeTargets) ||
              decide ((sessionKey record).sourcePath ∈ prepared.deletePaths)) = true := by
      refine Multiset.filter_congr fun record hrecord => not_congr ?_
      simp only [Bool.or_eq_true, Bool.and_eq_true, decide_eq_true_eq]
      constructor
      · rintro (hpath | hscope)
        · exact .inr hpath
        · exact .inl ⟨(h.honest record hrecord).2 (h.targets _ hscope), hscope⟩
      · rintro (⟨-, hscope⟩ | hpath)
        · exact .inr hscope
        · exact .inl hpath
    rw [WriterContext.publishLexical, hsame]
    refine hkept.mergeRows analytics.lookups (by omega) ?_
    exact fun record hrecord => (h.added record hrecord).1

theorem backfilled_agrees {lexical : Multiset Record} (analytics : AnalyticsInputs)
    (hcard : lexical.card < 2 ^ 63) (hhonest : ∀ record ∈ lexical, Honest isDatabase record) :
    CatalogueAgrees
      (Analytics.backfillFromIndex analytics.lookups (analytics.walk.order lexical)) lexical := by
  have hwalk := analytics.walk.walks lexical
  have h : CatalogueAgrees
      (Analytics.backfillFromIndex analytics.lookups (analytics.walk.order lexical))
      (analytics.walk.order lexical : Multiset Record) := by
    apply Analytics.backfillFromIndex_agrees
    · rwa [← Multiset.coe_card, hwalk]
    · intro record hrecord
      rw [← Multiset.mem_coe, hwalk] at hrecord
      exact (hhonest record hrecord).1
  rwa [hwalk] at h

/-- Either the backfill ran to its end, or it leaves the catalogue incomplete. -/
theorem backfilledAnalytics_cases (analytics : AnalyticsInputs) (stop : Option Boundary)
    (lexical : Multiset Record) (hincomplete : store.complete = false) :
    (backfilledAnalytics analytics stop lexical store).complete = false ∨
      (Boundary.executes stop .markComplete = true ∧
        (backfilledAnalytics analytics stop lexical store).sessions =
          Analytics.backfillFromIndex analytics.lookups (analytics.walk.order lexical)) := by
  rw [backfilledAnalytics]
  split
  · exact .inl hincomplete
  · split
    · exact .inl rfl
    · split
      · exact .inl rfl
      · next hexecutes => exact .inr ⟨by simpa using hexecutes, rfl⟩

theorem agrees_of_trusted (hstarts : StartsReserved prepared durable)
    (hbefore : Reconcilable durable store)
    (hneeds : analyticsNeedsBackfill prepared durable store = false) :
    CatalogueAgrees store.sessions durable.lexical := by
  simp only [analyticsNeedsBackfill, Bool.or_eq_false_iff] at hneeds
  obtain ⟨⟨-, hrecovering⟩, houtdated⟩ := hneeds
  rcases hbefore with hpending | hready | hagrees
  · rw [hstarts.recovering, hpending] at hrecovering
    cases hrecovering
  · rw [houtdated] at hready
    cases hready
  · exact hagrees

/-- A refresh that does not trust the catalogue has marked it, unless it stopped before. -/
theorem begunAnalytics_cases (stop : Option Boundary) (store : AnalyticsStore) :
    (begunAnalytics prepared durable stop store = store ∧
        (analyticsNeedsBackfill prepared durable store = false ∨ stop = some .markIncomplete)) ∨
      (begunAnalytics prepared durable stop store).complete = false := by
  rw [begunAnalytics]
  cases hneeds : analyticsNeedsBackfill prepared durable store with
  | false => exact .inl ⟨rfl, .inl rfl⟩
  | true =>
      by_cases hstop : stop = some .markIncomplete
      · subst hstop
        exact .inl ⟨rfl, .inr rfl⟩
      · right
        have hexecutes : Boundary.executes stop .markIncomplete = true := by
          rcases stop with - | boundary
          · rfl
          · cases boundary with
            | markIncomplete => exact absurd rfl hstop
            | _ => rfl
        rw [hexecutes]
        rfl

/-- A refresh without work for the writer keeps its index. -/
theorem publishedLexical_of_idle (hadded : addedRecords prepared execution = [])
    (hpaths : prepared.deletePaths = ∅) (hscopes : prepared.opencodeScopeTargets = ∅) :
    publishedLexical prepared options execution durable = durable.lexical := by
  have hkept : ∀ record ∈ durable.lexical,
      ¬ (writerContext prepared options execution durable).Deletes record := by
    rintro record - (hpath | hscope)
    · simp [writerContext, hpaths] at hpath
    · simp [writerContext, hscopes] at hscope
  rw [publishedLexical_eq, WriterContext.publishLexical, hadded,
    Multiset.filter_eq_self.mpr hkept]
  simp

/-- A refresh that did not come to the commit of the catalogue has published nothing. -/
theorem publishRefresh_cancelled
    (h : (!parserSucceeded prepared execution || !Boundary.executes stop .analytics) = true) :
    publishRefresh prepared options execution durable (stop.map Boundary.stop) =
        { durable, ok := false } ∨
      stop ≠ some .markIncomplete ∧
        publishRefresh prepared options execution durable (stop.map Boundary.stop) =
          { durable := intendedDurable prepared options execution durable, ok := false } := by
  by_cases hintent : stop.map Boundary.stop = some .intent
  · left
    rw [publishRefresh, if_pos hintent]
  · right
    constructor
    · rintro rfl
      exact hintent rfl
    · rw [publishRefresh, if_neg hintent]
      refine if_pos ?_
      cases hparsed : parserSucceeded prepared execution with
      | false => rfl
      | true =>
          rw [hparsed] at h
          rcases stop with - | boundary
          · cases h
          · cases boundary with
            | markIncomplete => exact absurd rfl hintent
            | intent => exact absurd rfl hintent
            | analytics => rfl
            | _ => cases h

/-- After the commit of the catalogue the index is the old one, or the published one. -/
theorem publishRefresh_written (hparsed : parserSucceeded prepared execution = true)
    (hexecutes : Boundary.executes stop .analytics = true) :
    (Boundary.executes stop .publish = false ∧
        publishRefresh prepared options execution durable (stop.map Boundary.stop) =
          { durable := intendedDurable prepared options execution durable, ok := false }) ∨
      ((publishRefresh prepared options execution durable
        (stop.map Boundary.stop)).durable.lexical =
          publishedLexical prepared options execution durable ∧
        ((publishRefresh prepared options execution durable (stop.map Boundary.stop)).ok = true →
          stop = none)) := by
  rcases stop with - | boundary
  · refine .inr ⟨?_, fun _ => rfl⟩
    rw [publishRefresh, hparsed]
    rfl
  · cases boundary with
    | markIncomplete => cases hexecutes
    | intent => cases hexecutes
    | analytics => cases hexecutes
    | lexical =>
        refine .inl ⟨rfl, ?_⟩
        rw [publishRefresh, hparsed]
        rfl
    | publish =>
        refine .inl ⟨rfl, ?_⟩
        rw [publishRefresh, hparsed]
        rfl
    | _ =>
        right
        rw [publishRefresh, hparsed]
        exact ⟨rfl, fun hok => by cases hok⟩

/-- A refresh with nothing to publish keeps the index, and its checkpoint until the end. -/
theorem commitCheckpointOnly_kept (stop : Option StopPoint) :
    (commitCheckpointOnly prepared execution durable stop).durable.lexical = durable.lexical ∧
      (stop ≠ none →
        commitCheckpointOnly prepared execution durable stop = { durable, ok := false }) := by
  cases stop with
  | none => exact ⟨rfl, fun h => absurd rfl h⟩
  | some step => exact ⟨rfl, fun _ => rfl⟩

/-- Nothing to publish: the catalogue is filled when it has to be. -/
theorem Executable.checkpoint_reconcilable (h : Executable isDatabase prepared execution durable)
    (analytics : AnalyticsInputs) (hbefore : Reconcilable durable store) :
    Reconcilable
        (commitCheckpointOnly prepared execution durable (stop.map Boundary.stop)).durable
        (checkpointAnalytics prepared analytics durable stop store) ∧
      ((commitCheckpointOnly prepared execution durable (stop.map Boundary.stop)).ok = true →
        CatalogueAgrees (checkpointAnalytics prepared analytics durable stop store).sessions
          durable.lexical) := by
  obtain ⟨hlexical, hstopped⟩ := @commitCheckpointOnly_kept prepared durable execution
    (stop.map Boundary.stop)
  have hcard : durable.lexical.card < 2 ^ 63 := by
    have hindexed := h.indexed
    have hdrawn : reservedDocId durable.checkpoint ≤ drawnDocIds prepared execution :=
      reservedDocId_le_drawn h.starts
    have hfits := h.fits
    omega
  have hfilled := backfilled_agrees analytics hcard h.honest
  rw [checkpointAnalytics]
  cases hneeds : analyticsNeedsBackfill prepared durable store with
  | false =>
      have hagrees := agrees_of_trusted h.starts hbefore hneeds
      have hbegun : begunAnalytics prepared durable stop store = store := by
        rw [begunAnalytics, hneeds]
        rfl
      rw [if_neg (by simp), hbegun]
      exact ⟨.inr (.inr (hlexical ▸ hagrees)), fun _ => hagrees⟩
  | true =>
      rw [if_pos rfl]
      rcases begunAnalytics_cases stop store with ⟨hbegun, htrusted | hstop⟩ | hincomplete
      · rw [hneeds] at htrusted
        cases htrusted
      · subst hstop
        rw [hbegun, hstopped (by simp)]
        exact ⟨hbefore, fun hok => by cases hok⟩
      · constructor
        · rcases backfilledAnalytics_cases analytics stop durable.lexical hincomplete with
            hopen | ⟨-, hsessions⟩
          · exact reconcilable_of_incomplete hopen
          · right
            right
            rw [hsessions, hlexical]
            exact hfilled
        · intro hok
          have hnone : stop = none := by
            by_contra hsome
            rw [hstopped (by simpa using hsome)] at hok
            cases hok
          subst hnone
          exact hfilled

/-- Wherever a publishing refresh stops, the next one can reconcile the catalogue; when it
returns, the catalogue agrees. -/
theorem Executable.publish_reconcilable (h : Executable isDatabase prepared execution durable)
    (options : IngestOptions) (analytics : AnalyticsInputs) (hbefore : Reconcilable durable store) :
    Reconcilable
        (publishRefresh prepared options execution durable (stop.map Boundary.stop)).durable
        (publishedAnalytics prepared options execution analytics durable stop store) ∧
      ((publishRefresh prepared options execution durable (stop.map Boundary.stop)).ok = true →
        CatalogueAgrees
          (publishedAnalytics prepared options execution analytics durable stop store).sessions
          (publishRefresh prepared options execution durable
            (stop.map Boundary.stop)).durable.lexical) := by
  have hbegun := @begunAnalytics_cases prepared durable stop store
  have hfilled := backfilled_agrees analytics (h.card_published options)
    (h.honest_published options)
  rw [publishedAnalytics]
  by_cases hcancelled : (!parserSucceeded prepared execution ||
      !Boundary.executes stop .analytics) = true
  · rw [if_pos hcancelled]
    have hcut := @publishRefresh_cancelled prepared durable options execution stop hcancelled
    constructor
    · rcases hbegun with ⟨hbegun, hwhy⟩ | hincomplete
      · rw [hbegun]
        rcases hcut with hcut | ⟨hstop, hcut⟩
        · rw [hcut]
          exact hbefore
        · rw [hcut]
          rcases hwhy with htrusted | hmark
          · have hagrees := agrees_of_trusted h.starts hbefore htrusted
            exact .inr (.inr hagrees)
          · exact absurd hmark hstop
      · exact reconcilable_of_incomplete hincomplete
    · intro hok
      rcases hcut with hcut | ⟨-, hcut⟩
      · rw [hcut] at hok
        cases hok
      · rw [hcut] at hok
        cases hok
  · rw [if_neg hcancelled]
    simp only [Bool.or_eq_true, Bool.not_eq_true', not_or, Bool.not_eq_false] at hcancelled
    obtain ⟨hparsed, hexecutes⟩ := hcancelled
    have hcut := @publishRefresh_written prepared durable options execution stop hparsed hexecutes
    have hmark : stop ≠ some .markIncomplete := by
      rintro rfl
      cases hexecutes
    cases hneeds : analyticsNeedsBackfill prepared durable store with
    | true =>
        rw [if_pos rfl]
        have hincomplete : (writtenAnalytics prepared options execution analytics durable
            (begunAnalytics prepared durable stop store)).complete = false := by
          rcases hbegun with ⟨-, htrusted | hstop⟩ | hincomplete
          · rw [hneeds] at htrusted
            cases htrusted
          · exact absurd hstop hmark
          · rw [writtenAnalytics]
            split
            · exact hincomplete
            · exact hincomplete
        constructor
        · rcases backfilledAnalytics_cases analytics stop
            (publishedLexical prepared options execution durable) hincomplete with
            hopen | ⟨hcomplete, hsessions⟩
          · exact reconcilable_of_incomplete hopen
          · right
            right
            rcases hcut with ⟨hpublish, -⟩ | ⟨hlexical, -⟩
            · have hpublished : Boundary.executes stop .publish = true :=
                Boundary.executes_of_le (by decide) hcomplete
              rw [hpublish] at hpublished
              cases hpublished
            · rw [hsessions, hlexical]
              exact hfilled
        · intro hok
          rcases hcut with ⟨-, hcut⟩ | ⟨hlexical, hreturned⟩
          · rw [hcut] at hok
            cases hok
          · rw [hlexical]
            obtain rfl := hreturned hok
            exact hfilled
    | false =>
        rw [if_neg (by simp)]
        have hsame : begunAnalytics prepared durable stop store = store := by
          rw [begunAnalytics, hneeds]
          rfl
        rw [hsame]
        have hagrees := agrees_of_trusted h.starts hbefore hneeds
        have hwritten := h.written_agrees options analytics hagrees
        have hsessions : (if Boundary.executes stop .markComplete then
              (writtenAnalytics prepared options execution analytics durable store).markComplete
            else writtenAnalytics prepared options execution analytics durable store).sessions =
              (writtenAnalytics prepared options execution analytics durable store).sessions := by
          split
          · rfl
          · rfl
        rw [Reconcilable, hsessions]
        rcases hcut with ⟨-, hcut⟩ | ⟨hlexical, -⟩
        · rw [hcut]
          refine ⟨?_, fun hok => by cases hok⟩
          cases hpublication : needsPublication prepared options execution durable with
          | true =>
              left
              rw [intendedDurable, (intendedSession_store options execution h.starts).1,
                if_pos hpublication]
              rfl
          | false =>
              obtain ⟨hadded, hpaths, hscopes⟩ := h.idle hpublication
              rw [publishedLexical_of_idle hadded hpaths hscopes] at hwritten
              exact .inr (.inr hwritten)
        · rw [hlexical]
          exact ⟨.inr (.inr hwritten), fun _ => hwritten⟩

theorem executeRefresh_lexical (stop : Option StopPoint) :
    (executeRefresh prepared options execution durable stop).durable.lexical = durable.lexical ∨
      (executeRefresh prepared options execution durable stop).durable.lexical =
        publishedLexical prepared options execution durable := by
  rw [executeRefresh]
  split
  · rcases publishRefresh_cases prepared options execution durable stop with heq | heq |
      ⟨heq, -⟩ | ⟨heq, -⟩ | ⟨heq, -⟩
    · exact .inl (by rw [heq])
    · exact .inl (by rw [heq]; rfl)
    · exact .inr (by rw [heq]; rfl)
    · exact .inr (by rw [heq]; rfl)
    · exact .inr (by rw [heq]; rfl)
  · exact .inl (commitCheckpointOnly_kept stop).1

end Executed

section Runs

variable {isDatabase : String → Prop} {refresh : CatalogueRefresh} {installation : Installation}
  {prepared : PreparedRefresh} {history : List Record}

/-- The state of an installation between two events. -/
structure Catalogued (isDatabase : String → Prop) (history : List Record)
    (installation : Installation) : Prop where
  ids : DocIdsReserved history installation.durable
  honest : ∀ record ∈ installation.durable.lexical, Honest isDatabase record
  reconcilable : Reconcilable installation.durable installation.analytics

theorem Catalogued.initial (isDatabase : String → Prop) : Catalogued isDatabase [] {} where
  ids := DocIdsReserved.of_fresh rfl rfl
  honest record hrecord := absurd hrecord (Multiset.notMem_zero record)
  reconcilable := .inr (.inr Analytics.catalogueAgrees_empty)

theorem CatalogueRefresh.Sound.parsed_honest (hsound : refresh.Sound isDatabase) :
    ∀ record ∈ parsedRecords prepared refresh.execution, Honest isDatabase record := by
  intro record hrecord
  have hbody : record.body ∈ (parsedRecords prepared refresh.execution).map Record.body :=
    List.mem_map_of_mem hrecord
  rw [parsedRecords, drawIds_map_body] at hbody
  obtain ⟨other, hother, heq⟩ := List.mem_map.mp hbody
  rw [(refresh.execution.interleaving.perm _).mem_iff] at hother
  obtain ⟨task, -, hemitted⟩ := List.mem_flatMap.mp hother
  rw [← honest_body, ← heq, honest_body]
  exact hsound.parsed task other hemitted

theorem CatalogueRefresh.Sound.replayed_honest (hsound : refresh.Sound isDatabase)
    {durable : Durable} {databases : List String} {scan : OpencodeScan}
    (hplan : OpencodePlan refresh.inputs durable prepared databases scan) :
    ∀ record ∈ replayedRecords prepared, Honest isDatabase record := by
  intro record hrecord
  obtain ⟨database, hdatabase, hmem⟩ := List.mem_flatMap.mp hrecord
  rw [hplan.ready] at hdatabase
  obtain ⟨-, -, -, hspool⟩ := hplan.scanned.ready database hdatabase
  have hbody : record.body ∈ database.spool.map Record.body :=
    List.mem_map_of_mem (List.mem_of_mem_filter hmem)
  rw [hspool] at hbody
  obtain ⟨other, hother, heq⟩ := List.mem_map.mp hbody
  rw [← honest_body, ← heq, honest_body]
  exact hsound.hydrated _ _ _ other hother

/-- What a sound refresh prepares can be executed. -/
theorem Catalogued.executable (h : Catalogued isDatabase history installation)
    (hsound : refresh.Sound isDatabase) (hfits : refresh.Fits installation)
    (hprepare : prepareRefresh refresh.inv refresh.options
      (recoverCheckpoint installation.durable).1 (recoverCheckpoint installation.durable).2
      refresh.narrowing = some prepared) :
    Executable isDatabase prepared refresh.execution
      (recoverCheckpoint installation.durable).1 := by
  obtain ⟨hcheckpoint, hlexical, -⟩ := recoverCheckpoint_frame installation.durable
  obtain ⟨databases, scan, hplan⟩ :=
    @prepareRefresh_plan refresh.inputs installation.durable prepared hsound.once hprepare
  constructor
  · exact prepareRefresh_startsReserved hprepare
  · exact hfits prepared hprepare
  · rw [hcheckpoint, hlexical]
    have hids : IdsWithin 0 (reservedDocId installation.durable.checkpoint) history :=
      ⟨h.ids.nodup, fun record hrecord => ⟨Nat.zero_le _, h.ids.below record hrecord⟩⟩
    calc
      installation.durable.lexical.card ≤ (history : Multiset Record).card :=
        Multiset.card_le_card h.ids.lexical
      _ = history.length := Multiset.coe_card history
      _ ≤ reservedDocId installation.durable.checkpoint := hids.length_le
  · rw [hlexical]
    exact h.honest
  · intro record hrecord
    rcases List.mem_append.mp hrecord with hmem | hmem
    · exact hsound.parsed_honest record hmem
    · exact hsound.replayed_honest hplan record hmem
  · intro scope hscope
    rw [hplan.targets, hplan.scanned.mem_scopeTargets] at hscope
    have hready : scan.outcome scope.sourcePath = .ready := by
      rcases hscope with ⟨hready, -⟩ | ⟨database, hmem, hpath, -⟩ | ⟨-, -, -, hready⟩
      · exact hready
      · rw [← hpath]
        exact hplan.scanned.outcome_of_ready hmem
      · exact hready
    obtain ⟨database, hmem, hpath⟩ := hplan.scanned.ready_of_outcome hready
    rw [← hpath]
    exact hsound.listed _ (hplan.listed _ (hplan.scanned.ready database hmem).1)

/-- A refresh keeps the state of its installation, and a refresh that returns leaves a catalogue
that agrees with the index. -/
theorem Catalogued.run (h : Catalogued isDatabase history installation)
    (hsound : refresh.Sound isDatabase) (hfits : refresh.Fits installation) :
    Catalogued isDatabase (history ++ publishedRecords refresh.inputs installation.durable)
        (refresh.run installation) ∧
      (refresh.ok installation = true →
        CatalogueAgrees (refresh.run installation).analytics.sessions
          (refresh.run installation).durable.lexical) := by
  obtain ⟨hcheckpoint, hlexical, -⟩ := recoverCheckpoint_frame installation.durable
  have hdraws : DrawsBelowLimit refresh.inputs installation.durable := by
    intro prepared hprepared
    exact lt_trans (hfits prepared hprepared) (by rw [docIdLimit]; omega)
  have hids := h.ids.ingestSelected refresh.inputs hdraws
  have hrecovered : Reconcilable (recoverCheckpoint installation.durable).1
      installation.analytics := by
    have hbefore := h.reconcilable
    rw [Reconcilable, AnalyticsStore.outdated] at hbefore ⊢
    rwa [hcheckpoint, hlexical]
  cases hprepare : prepareRefresh refresh.inv refresh.options
      (recoverCheckpoint installation.durable).1 (recoverCheckpoint installation.durable).2
      refresh.narrowing with
  | none =>
      have hresult : ingestSelected refresh.inputs installation.durable =
          { durable := (recoverCheckpoint installation.durable).1, ok := false } := by
        rw [ingestSelected]
        dsimp only [CatalogueRefresh.inputs]
        rw [hprepare]
      have hrun : refresh.run installation =
          { durable := (recoverCheckpoint installation.durable).1
            analytics := installation.analytics } := by
        rw [CatalogueRefresh.run, hresult]
        dsimp only
        rw [hprepare]
      constructor
      · rw [hresult] at hids
        rw [hrun]
        exact
          { ids := hids
            honest := fun record hrecord => h.honest record (hlexical ▸ hrecord)
            reconcilable := hrecovered }
      · intro hok
        rw [CatalogueRefresh.ok, hresult] at hok
        cases hok
  | some prepared =>
      have hexecutable := h.executable hsound hfits hprepare
      have hresult : ingestSelected refresh.inputs installation.durable =
          executeRefresh prepared refresh.options refresh.execution
            (recoverCheckpoint installation.durable).1 (refresh.stop.map Boundary.stop) := by
        rw [ingestSelected]
        dsimp only [CatalogueRefresh.inputs]
        rw [hprepare]
      have hrun : refresh.run installation =
          { durable := (executeRefresh prepared refresh.options refresh.execution
              (recoverCheckpoint installation.durable).1
              (refresh.stop.map Boundary.stop)).durable
            analytics := executedAnalytics prepared refresh.options refresh.execution
              refresh.analytics (recoverCheckpoint installation.durable).1 refresh.stop
              installation.analytics } := by
        rw [CatalogueRefresh.run, hresult]
        rw [hprepare]
      have hstep : Reconcilable (refresh.run installation).durable
            (refresh.run installation).analytics ∧
          (refresh.ok installation = true →
            CatalogueAgrees (refresh.run installation).analytics.sessions
              (refresh.run installation).durable.lexical) := by
        rw [CatalogueRefresh.ok, hresult, hrun, executeRefresh, executedAnalytics]
        by_cases hdecision : refreshDecision prepared refresh.options refresh.execution
            (recoverCheckpoint installation.durable).1 = .publish
        · simp only [if_pos hdecision]
          exact hexecutable.publish_reconcilable refresh.options refresh.analytics hrecovered
        · simp only [if_neg hdecision]
          rw [(commitCheckpointOnly_kept _).1]
          exact hexecutable.checkpoint_reconcilable refresh.analytics hrecovered
      refine ⟨⟨?_, ?_, hstep.1⟩, hstep.2⟩
      · rw [hrun, ← hresult]
        exact hids
      · intro record hrecord
        rw [hrun] at hrecord
        rcases @executeRefresh_lexical prepared (recoverCheckpoint installation.durable).1
          refresh.options refresh.execution (refresh.stop.map Boundary.stop) with hkept | hpublished
        · rw [hkept, hlexical] at hrecord
          exact h.honest record hrecord
        · rw [hpublished] at hrecord
          exact hexecutable.honest_published refresh.options record hrecord

/-- A lost index leaves nothing to agree with. -/
theorem Catalogued.indexLost (h : Catalogued isDatabase history installation) :
    Catalogued isDatabase history (InstallationEvent.indexLost.apply installation) where
  ids := { h.ids with lexical := Multiset.zero_le _ }
  honest record hrecord := absurd hrecord (Multiset.notMem_zero record)
  reconcilable := by
    by_cases hsessions : installation.analytics.sessions = ∅
    · right
      right
      change CatalogueAgrees installation.analytics.sessions 0
      rw [hsessions]
      exact Analytics.catalogueAgrees_empty
    · right
      left
      change installation.analytics.outdated { installation.durable with lexical := 0 } = true
      rw [AnalyticsStore.outdated, if_pos rfl, AnalyticsStore.isReady]
      exact decide_eq_true hsessions

theorem runFits_concat {events : List InstallationEvent} {event : InstallationEvent} :
    RunFits isDatabase (events ++ [event]) installation ↔ RunFits isDatabase events installation ∧
      event.Fits isDatabase (events.foldl InstallationEvent.apply installation) := by
  induction events generalizing installation with
  | nil => simp [RunFits]
  | cons first rest ih => simp [RunFits, ih, and_assoc]

/-- Over a run the catalogue stays reconcilable. -/
theorem Catalogued.events (h : Catalogued isDatabase history installation)
    (events : List InstallationEvent) (hfits : RunFits isDatabase events installation) :
    ∃ longer, Catalogued isDatabase longer
      (events.foldl InstallationEvent.apply installation) := by
  induction events generalizing history installation with
  | nil => exact ⟨history, h⟩
  | cons event rest ih =>
      obtain ⟨hevent, hrest⟩ := hfits
      cases event with
      | refreshed refresh => exact ih (h.run hevent.1 hevent.2).1 hrest
      | indexLost => exact ih h.indexLost hrest

/-- After every run of refreshes, of which any may stop at any boundary, and losses of the index,
a refresh that returns leaves a catalogue that agrees with the published index. -/
theorem catalogue_agrees_with_index (isDatabase : String → Prop)
    (events : List InstallationEvent) (last : CatalogueRefresh)
    (hfits : RunFits isDatabase (events ++ [.refreshed last]) {})
    (hok : last.ok (runInstallation events) = true) :
    CatalogueAgrees (runInstallation (events ++ [.refreshed last])).analytics.sessions
      (runInstallation (events ++ [.refreshed last])).durable.lexical := by
  obtain ⟨hbefore, hsound, hlast⟩ := runFits_concat.mp hfits
  obtain ⟨history, h⟩ := (Catalogued.initial isDatabase).events events hbefore
  have hagrees := (h.run hsound hlast).2 hok
  rw [runInstallation, List.foldl_append]
  exact hagrees

/-- A full refresh that finds one transcript. -/
noncomputable def transcriptRefresh (stop : Option Boundary) : CatalogueRefresh where
  inv := (oneTranscript none).inv
  options := {}
  narrowing := .none
  execution := (oneTranscript none).execution
  analytics :=
    { lookups := Analytics.noLookups
      walk := ⟨Multiset.toList, Multiset.coe_toList⟩ }
  stop

theorem transcriptRefresh_sound (stop : Option Boundary) :
    (transcriptRefresh stop).Sound fun _ => False := by
  constructor
  · exact ⟨List.nodup_nil, fun selection hselection => by cases hselection⟩
  · rintro path (hlisted | ⟨files, hfiles, -⟩)
    · exact List.not_mem_nil hlisted
    · cases hfiles
  · intro task record hrecord
    obtain rfl := List.mem_singleton.mp hrecord
    exact ⟨Nat.two_pow_pos 63, False.elim⟩
  · intro path scan sessions record hrecord
    exact absurd hrecord List.not_mem_nil

/-- The refresh that follows a crash between the commits of the catalogue and of the index. -/
theorem catalogue_agrees_with_index_after_crash :
    CatalogueAgrees
      (runInstallation ([.refreshed (transcriptRefresh (some .lexical)), .indexLost] ++
        [.refreshed (transcriptRefresh none)])).analytics.sessions
      (runInstallation ([.refreshed (transcriptRefresh (some .lexical)), .indexLost] ++
        [.refreshed (transcriptRefresh none)])).durable.lexical := by
  refine catalogue_agrees_with_index (fun _ => False)
    [.refreshed (transcriptRefresh (some .lexical)), .indexLost] (transcriptRefresh none) ?_ ?_
  · refine ⟨⟨transcriptRefresh_sound _, ?_⟩, trivial, ⟨transcriptRefresh_sound _, ?_⟩, trivial⟩
    · intro prepared hprepared
      cases hprepared
      decide
    · intro prepared hprepared
      cases hprepared
      decide
  · decide +kernel

end Runs

end Memex.Ingest
