import Memex.Ingest.Execution

/-! # Document ids over many refreshes

The id counter is stored twice, in the intent and by the final commit, and
recovery continues from the larger value. Over any run of refreshes no id is
used for two published records, as long as the counter does not wrap. -/

namespace Memex.Ingest

open Overlay State

/-- The records a refresh adds to the published lexical generation. -/
def publishedRecords (inputs : RefreshInputs) (durable : Durable) : List Record :=
  let (durable, recovered) := recoverCheckpoint durable
  match prepareRefresh inputs.inv inputs.options durable recovered inputs.narrowing with
  | none => []
  | some prepared =>
      if refreshDecision prepared inputs.options inputs.execution durable = .publish ∧
          inputs.stop ≠ some .intent ∧ inputs.stop ≠ some .lexical ∧
          parserSucceeded prepared inputs.execution then
        addedRecords prepared inputs.execution
      else []

/-- Refreshes one after the other, each on what the one before it left. -/
def runRefreshes (refreshes : List RefreshInputs) (durable : Durable) : Durable :=
  refreshes.foldl (fun durable inputs => (ingestSelected inputs durable).durable) durable

/-- Every record ever added to a published lexical generation, in order. -/
def publishedHistory : List RefreshInputs → Durable → List Record
  | [], _ => []
  | inputs :: rest, durable =>
      publishedRecords inputs durable ++
        publishedHistory rest (ingestSelected inputs durable).durable

/-- The counter of a refresh stays below its limit. -/
def DrawsBelowLimit (inputs : RefreshInputs) (durable : Durable) : Prop :=
  let recovery := recoverCheckpoint durable
  ∀ prepared ∈ prepareRefresh inputs.inv inputs.options recovery.1 recovery.2 inputs.narrowing,
    drawnDocIds prepared inputs.execution < docIdLimit

/-- The counter stays below its limit in each refresh of a run. -/
def RunDrawsBelowLimit : List RefreshInputs → Durable → Prop
  | [], _ => True
  | inputs :: rest, durable =>
      DrawsBelowLimit inputs durable ∧
        RunDrawsBelowLimit rest (ingestSelected inputs durable).durable

/-- The published ids belong to the history of published records, which uses
each id once and stays below the reserved id. -/
structure DocIdsReserved (history : List Record) (durable : Durable) : Prop where
  nodup : (history.map Record.docId).Nodup
  lexical : durable.lexical ≤ (history : Multiset Record)
  vectors : ∀ store ∈ durable.vectors, ∀ id ∈ store.docIds, ∃ record ∈ history, record.docId = id
  below : ∀ record ∈ history, record.docId < reservedDocId durable.checkpoint

section Drawing

variable {prepared : PreparedRefresh} {inputs : ExecutionInputs} {low : Nat}

/-- The records given to the writer carry ids drawn by this refresh: those of
the spools before those of the parsers. -/
theorem addedRecords_idsWithin (hle : low ≤ prepared.nextDocId)
    (hspools : prepared.nextDocId ≤ docIdLimit → IdsWithin low prepared.nextDocId
      (prepared.opencodeReadyDatabases.flatMap PreparedOpencodeDatabase.spool))
    (hlimit : drawnDocIds prepared inputs ≤ docIdLimit) :
    IdsWithin low (drawnDocIds prepared inputs) (addedRecords prepared inputs) := by
  set emitted := prepared.tasks.flatMap fun task => (inputs.parse task).emitted with hemitted
  have hlength : (inputs.interleaving.order emitted).length = emitted.length :=
    (inputs.interleaving.perm emitted).length_eq
  have hdrawn : drawnDocIds prepared inputs = prepared.nextDocId + emitted.length := rfl
  have hparsed : IdsWithin prepared.nextDocId (drawnDocIds prepared inputs)
      (parsedRecords prepared inputs) := by
    rw [hdrawn, ← hlength]
    exact IdsWithin.drawIds (by omega)
  have hreplayed : IdsWithin low prepared.nextDocId (replayedRecords prepared) := by
    refine (hspools (by omega)).sublist ?_
    unfold replayedRecords
    generalize prepared.opencodeReadyDatabases = databases
    induction databases with
    | nil => exact List.Sublist.refl _
    | cons database rest ih =>
        rw [List.flatMap_cons, List.flatMap_cons]
        exact List.filter_sublist.append ih
  refine (hreplayed.append hparsed hle (by omega)).perm ?_
  exact List.perm_append_comm

end Drawing

section Vectors

variable (ctx : WriterContext)

/-- Vectors are staged for published records only. -/
theorem stageVectors_docIds {dimensions : Nat} {vectors : Option VectorStore}
    {lexical published : Multiset Record} {added : List Record} {store : VectorStore}
    (h : ctx.stageVectors dimensions vectors lexical published added = some store)
    {id : Nat} (hid : id ∈ store.docIds) :
    (∃ old ∈ vectors, id ∈ old.docIds) ∨ (∃ record ∈ published, record.docId = id) ∨
      ∃ record ∈ added, record.docId = id := by
  have hembeddable (records : Multiset Record) (hmem : id ∈ WriterContext.embeddableIds records) :
      ∃ record ∈ records, record.docId = id := by
    obtain ⟨record, hrecord, heq⟩ := Multiset.mem_map.mp (Multiset.mem_toFinset.mp hmem)
    exact ⟨record, (Multiset.mem_filter.mp hrecord).1, heq⟩
  simp only [WriterContext.stageVectors, Option.map_eq_some_iff] at h
  obtain ⟨⟨opened, needsBackfill⟩, hopened, rfl⟩ := h
  dsimp only at hid
  have hold (hkept : id ∈ opened.docIds) : ∃ old ∈ vectors, id ∈ old.docIds := by
    simp only [WriterContext.openVectors] at hopened
    split at hopened
    · split at hopened
      · split at hopened
        · cases hopened
          exact ⟨_, rfl, hkept⟩
        · cases hopened
          exact absurd hkept (Finset.notMem_empty id)
      · cases hopened
        exact absurd hkept (Finset.notMem_empty id)
    · split at hopened
      · obtain ⟨old, hsome, heq⟩ := Option.map_eq_some_iff.mp hopened
        cases heq
        exact ⟨_, hsome, hkept⟩
      · cases hopened
  have hretained (live : Finset Nat) (removed : Finset Nat)
      (h : id ∈ if ctx.reconcileVectorIds then (opened.docIds \ removed) ∩ live
        else opened.docIds \ removed) : id ∈ opened.docIds := by
    split at h
    · exact (Finset.mem_sdiff.mp (Finset.mem_inter.mp h).1).1
    · exact (Finset.mem_sdiff.mp h).1
  have hembedded (h : id ∈ (if ctx.reconcileVectorIds then
      (opened.docIds \ ctx.scopedDocIds lexical) ∩ WriterContext.embeddableIds published
        else opened.docIds \ ctx.scopedDocIds lexical) ∪
      (if ctx.embeddings && !ctx.resetVectorStore then
        WriterContext.embeddableIds (added : Multiset Record) else ∅)) :
      (∃ old ∈ vectors, id ∈ old.docIds) ∨ ∃ record ∈ added, record.docId = id := by
    rcases Finset.mem_union.mp h with h | h
    · exact .inl (hold (hretained _ _ h))
    · split at h
      · obtain ⟨record, hrecord, heq⟩ := hembeddable _ h
        exact .inr ⟨record, Multiset.mem_coe.mp hrecord, heq⟩
      · exact absurd h (Finset.notMem_empty id)
  generalize (if ctx.reconcileVectorIds then
      (opened.docIds \ ctx.scopedDocIds lexical) ∩ WriterContext.embeddableIds published
        else opened.docIds \ ctx.scopedDocIds lexical) ∪
      (if ctx.embeddings && !ctx.resetVectorStore then
        WriterContext.embeddableIds (added : Multiset Record) else ∅) = embedded at hid hembedded
  split at hid
  · rcases Finset.mem_union.mp hid with hid | hid
    · rcases hembedded hid with hid | hid
      · exact .inl hid
      · exact .inr (.inr hid)
    · exact .inr (.inl (hembeddable _ hid))
  · rcases hembedded hid with hid | hid
    · exact .inl hid
    · exact .inr (.inr hid)

end Vectors

section Step

variable {history : List Record} {durable : Durable}

namespace DocIdsReserved

theorem of_fresh {start : Durable} (hlexical : start.lexical = 0)
    (hvectors : start.vectors = none) :
    DocIdsReserved [] start where
  nodup := List.nodup_nil
  lexical := by simp [hlexical]
  vectors := by simp [hvectors]
  below := by simp

/-- Dropping vectors, or moving the counter on, keeps the invariant. -/
theorem of_le {other : Durable} (h : DocIdsReserved history durable)
    (hlexical : other.lexical = durable.lexical)
    (hvectors : other.vectors = durable.vectors ∨ other.vectors = none)
    (hreserved : reservedDocId durable.checkpoint ≤ reservedDocId other.checkpoint) :
    DocIdsReserved history other where
  nodup := h.nodup
  lexical := hlexical ▸ h.lexical
  vectors := by
    rcases hvectors with hvectors | hvectors
    · rw [hvectors]
      exact h.vectors
    · simp [hvectors]
  below record hrecord := Nat.lt_of_lt_of_le (h.below record hrecord) hreserved

/-- Publishing records with ids from the reserved one on extends the history by
them. -/
theorem publish {other : Durable} {added : List Record} {high : Nat}
    (h : DocIdsReserved history durable)
    (hadded : IdsWithin (reservedDocId durable.checkpoint) high added)
    (hlexical : other.lexical ≤ durable.lexical + (added : Multiset Record))
    (hvectors : ∀ store ∈ other.vectors, ∀ id ∈ store.docIds,
      (∃ old ∈ durable.vectors, id ∈ old.docIds) ∨
        (∃ record ∈ durable.lexical, record.docId = id) ∨ ∃ record ∈ added, record.docId = id)
    (hreserved : reservedDocId durable.checkpoint ≤ reservedDocId other.checkpoint)
    (hhigh : added ≠ [] → high ≤ reservedDocId other.checkpoint) :
    DocIdsReserved (history ++ added) other where
  nodup := by
    rw [List.map_append]
    refine List.nodup_append.mpr ⟨h.nodup, hadded.nodup, ?_⟩
    rintro id hid id' hid' rfl
    obtain ⟨record, hrecord, rfl⟩ := List.mem_map.mp hid
    obtain ⟨other, hother, heq⟩ := List.mem_map.mp hid'
    have := h.below record hrecord
    have := (hadded.bounds other hother).1
    omega
  lexical := by
    rw [← Multiset.coe_add]
    exact hlexical.trans (Multiset.add_le_add_right h.lexical)
  vectors := by
    intro store hstore id hid
    rcases hvectors store hstore id hid with ⟨old, hold, hid⟩ | ⟨record, hrecord, heq⟩ |
      ⟨record, hrecord, heq⟩
    · obtain ⟨record, hrecord, heq⟩ := h.vectors old hold id hid
      exact ⟨record, List.mem_append_left _ hrecord, heq⟩
    · exact ⟨record, List.mem_append_left _
        (Multiset.mem_coe.mp (Multiset.mem_of_le h.lexical hrecord)), heq⟩
    · exact ⟨record, List.mem_append_right _ hrecord, heq⟩
  below := by
    intro record hrecord
    rcases List.mem_append.mp hrecord with hrecord | hrecord
    · exact Nat.lt_of_lt_of_le (h.below record hrecord) hreserved
    · exact Nat.lt_of_lt_of_le (hadded.bounds record hrecord).2
        (hhigh (List.ne_nil_of_mem hrecord))

end DocIdsReserved

variable {prepared : PreparedRefresh} {options : IngestOptions} {inputs : ExecutionInputs}

/-- A refresh that needs no intent has drawn no id. -/
theorem drawnDocIds_of_not_needsPublication (h : StartsReserved prepared durable)
    (hlimit : drawnDocIds prepared inputs < docIdLimit)
    (hneeds : needsPublication prepared options inputs durable = false) :
    drawnDocIds prepared inputs = reservedDocId durable.checkpoint := by
  have hfinal : finalDocId prepared inputs = prepared.state.nextDocId := by
    unfold needsPublication at hneeds
    by_contra hne
    simp [hne] at hneeds
  rw [← h.next, ← hfinal, finalDocId, loadCounter_of_lt hlimit]

/-- The intent reserves every drawn id. -/
theorem drawnDocIds_le_intended (h : StartsReserved prepared durable)
    (hlimit : drawnDocIds prepared inputs < docIdLimit) :
    drawnDocIds prepared inputs ≤
      reservedDocId (intendedDurable prepared options inputs durable).checkpoint := by
  rw [intendedDurable, (intendedSession_store options inputs h).1]
  cases hneeds : needsPublication prepared options inputs durable with
  | true =>
      rw [if_pos rfl]
      simp only [reservedDocId, Option.map_some, Option.getD_some, pendingIngest, finalDocId,
        loadCounter_of_lt hlimit]
      exact Nat.le_max_right _ _
  | false =>
      rw [if_neg (by simp)]
      exact (drawnDocIds_of_not_needsPublication h hlimit hneeds).le

theorem reservedDocId_le_drawn (h : StartsReserved prepared durable) :
    reservedDocId durable.checkpoint ≤ drawnDocIds prepared inputs :=
  h.le.trans (Nat.le_add_right _ _)

theorem publishedLexical_le :
    publishedLexical prepared options inputs durable ≤
      durable.lexical + (addedRecords prepared inputs : Multiset Record) := by
  unfold publishedLexical
  split
  · exact Multiset.le_add_right _ _
  · exact Multiset.add_le_add_right (Multiset.filter_le _ _)

theorem publishedVectors_docIds :
    ∀ store ∈ publishedVectors prepared options inputs durable, ∀ id ∈ store.docIds,
      (∃ old ∈ durable.vectors, id ∈ old.docIds) ∨
        (∃ record ∈ durable.lexical, record.docId = id) ∨
        ∃ record ∈ addedRecords prepared inputs, record.docId = id := by
  intro store hstore id hid
  simp only [publishedVectors, Option.mem_def, Option.or_eq_some_iff] at hstore
  rcases hstore with hstaged | ⟨-, hold⟩
  · split at hstaged
    · cases hstaged
    · rcases stageVectors_docIds _ hstaged hid with hold | ⟨record, hrecord, heq⟩ | hadded
      · exact .inl hold
      · rcases Multiset.mem_add.mp (Multiset.mem_of_le publishedLexical_le hrecord) with
          hrecord | hrecord
        · exact .inr (.inl ⟨record, hrecord, heq⟩)
        · exact .inr (.inr ⟨record, Multiset.mem_coe.mp hrecord, heq⟩)
      · exact .inr (.inr hadded)
  · exact .inl ⟨store, hold, hid⟩

/-- The final commit stores the counter of its session. -/
theorem commitRefresh_reserved (session : CheckpointSession) {pending : PendingChange}
    (horiginal : session.originalNextDocId = session.store.nextDocId) :
    session.nextDocId ≤
      reservedDocId (commitRefresh prepared inputs durable session pending).durable.checkpoint := by
  have hstored :
    (commitRefresh prepared inputs durable session pending).durable.checkpoint.nextDocId =
        session.nextDocId :=
      (commitRefresh_stored prepared inputs durable session pending horiginal).nextDocId
  unfold reservedDocId
  rw [hstored]
  exact Nat.le_max_left _ _

namespace DocIdsReserved

theorem commitCheckpointOnly (h : DocIdsReserved history durable)
    (hstart : StartsReserved prepared durable) (stop : Option StopPoint) :
    DocIdsReserved history (commitCheckpointOnly prepared inputs durable stop).durable := by
  unfold Ingest.commitCheckpointOnly
  split
  · exact h
  · refine h.of_le rfl (.inl rfl) ?_
    rw [← hstart.next]
    have horiginal : prepared.state.originalNextDocId = prepared.state.store.nextDocId := by
      rw [hstart.original, hstart.store]
    exact commitRefresh_reserved
      { prepared.state with opencodeDatabases := prepared.installedOpencodeStates } horiginal

/-- Whatever step a publishing refresh stops before, the ids it published are
reserved. -/
theorem publishRefresh (h : DocIdsReserved history durable)
    (hstart : StartsReserved prepared durable)
    (hlimit : drawnDocIds prepared inputs < docIdLimit) (stop : Option StopPoint) :
    DocIdsReserved (history ++ if stop ≠ some .intent ∧ stop ≠ some .lexical ∧
        parserSucceeded prepared inputs then addedRecords prepared inputs else [])
      (publishRefresh prepared options inputs durable stop).durable := by
  have hadded := addedRecords_idsWithin hstart.le hstart.spools hlimit.le
  have hdrawn : reservedDocId durable.checkpoint ≤ drawnDocIds prepared inputs :=
    reservedDocId_le_drawn hstart
  have hintended : drawnDocIds prepared inputs ≤
      reservedDocId (intendedDurable prepared options inputs durable).checkpoint :=
    drawnDocIds_le_intended hstart hlimit
  have hcancelled :
      DocIdsReserved history (intendedDurable prepared options inputs durable) :=
    h.of_le rfl (.inl rfl) (hdrawn.trans hintended)
  have hpublish (other : Durable)
      (hlexical : other.lexical = publishedLexical prepared options inputs durable)
      (hvectors : other.vectors = durable.vectors ∨
        other.vectors = publishedVectors prepared options inputs durable)
      (hreserved : drawnDocIds prepared inputs ≤ reservedDocId other.checkpoint) :
      DocIdsReserved (history ++ addedRecords prepared inputs) other := by
    refine h.publish hadded (hlexical ▸ publishedLexical_le) ?_ (hdrawn.trans hreserved)
      fun _ => hreserved
    rcases hvectors with hvectors | hvectors
    · rw [hvectors]
      exact fun store hstore id hid => .inl ⟨store, hstore, hid⟩
    · rw [hvectors]
      exact publishedVectors_docIds
  unfold Ingest.publishRefresh
  by_cases hintent : stop = some .intent
  · simpa [hintent] using h
  · rw [if_neg hintent]
    by_cases hlexical : stop = some .lexical
    · simpa [hlexical] using hcancelled
    · cases hparsed : parserSucceeded prepared inputs with
      | false => simpa [hparsed] using hcancelled
      | true =>
          rw [if_pos ⟨hintent, hlexical, rfl⟩, if_neg (by simp [hlexical])]
          split
          · exact hpublish _ rfl (.inl rfl) hintended
          · split
            · exact hpublish _ rfl (.inr rfl) hintended
            · refine hpublish _ rfl (.inr rfl) ?_
              rw [← loadCounter_of_lt hlimit]
              have hsame := finalSession_sameStore prepared inputs
                (intendedSession prepared options inputs durable)
              refine commitRefresh_reserved (finalSession prepared inputs _) ?_
              rw [hsame.1, hsame.2,
                (intendedSession_store options inputs hstart).2,
                (intendedSession_store options inputs hstart).1]
              split <;> rfl

/-- One refresh extends the history by the records it publishes. -/
theorem ingestSelected (h : DocIdsReserved history durable) (inputs : RefreshInputs)
    (hlimit : DrawsBelowLimit inputs durable) :
    DocIdsReserved (history ++ publishedRecords inputs durable)
      (ingestSelected inputs durable).durable := by
  obtain ⟨hcheckpoint, hlexical, hvectors, -⟩ := recoverCheckpoint_frame durable
  have hrecovered : DocIdsReserved history (recoverCheckpoint durable).1 :=
    h.of_le hlexical hvectors (by rw [hcheckpoint])
  unfold publishedRecords Ingest.ingestSelected
  dsimp only
  cases hprepare : prepareRefresh inputs.inv inputs.options (recoverCheckpoint durable).1
      (recoverCheckpoint durable).2 inputs.narrowing with
  | none => simpa using hrecovered
  | some prepared =>
      have hstart := prepareRefresh_startsReserved hprepare
      have hdraws : drawnDocIds prepared inputs.execution < docIdLimit :=
        hlimit prepared hprepare
      dsimp only
      unfold executeRefresh
      by_cases hdecision : refreshDecision prepared inputs.options inputs.execution
          (recoverCheckpoint durable).1 = .publish
      · simpa [hdecision] using hrecovered.publishRefresh hstart hdraws inputs.stop
      · simpa [hdecision] using hrecovered.commitCheckpointOnly hstart inputs.stop

end DocIdsReserved

end Step

section Runs

/-- Over a run the invariant holds for the whole history. -/
theorem DocIdsReserved.runRefreshes {history : List Record} {durable : Durable}
    (h : DocIdsReserved history durable) (refreshes : List RefreshInputs)
    (hlimit : RunDrawsBelowLimit refreshes durable) :
    DocIdsReserved (history ++ publishedHistory refreshes durable)
      (runRefreshes refreshes durable) := by
  induction refreshes generalizing history durable with
  | nil => simpa [publishedHistory, Ingest.runRefreshes] using h
  | cons inputs rest ih =>
      have hrest := ih (h.ingestSelected inputs hlimit.1) hlimit.2
      rw [List.append_assoc] at hrest
      exact hrest

/-- From a store without published records, no run of refreshes uses an id
twice, and the reserved id stays above every published one. -/
theorem docIds_never_reused (start : Durable) (hlexical : start.lexical = 0)
    (hvectors : start.vectors = none) (refreshes : List RefreshInputs)
    (hlimit : RunDrawsBelowLimit refreshes start) :
    let history := publishedHistory refreshes start
    let final := runRefreshes refreshes start
    (history.map Record.docId).Nodup ∧
      final.lexical ≤ (history : Multiset Record) ∧
      (∀ store ∈ final.vectors, ∀ id ∈ store.docIds, ∃ record ∈ history, record.docId = id) ∧
      ∀ record ∈ history, record.docId < reservedDocId final.checkpoint := by
  have h := (DocIdsReserved.of_fresh hlexical hvectors).runRefreshes refreshes hlimit
  rw [List.nil_append] at h
  exact ⟨h.nodup, h.lexical, h.vectors, h.below⟩

instance (inputs : RefreshInputs) (durable : Durable) :
    Decidable (DrawsBelowLimit inputs durable) :=
  inferInstanceAs (Decidable (∀ prepared ∈ prepareRefresh inputs.inv inputs.options
    (recoverCheckpoint durable).1 (recoverCheckpoint durable).2 inputs.narrowing,
      drawnDocIds prepared inputs.execution < docIdLimit))

/-- A full refresh that finds one transcript with one record in it. -/
def oneTranscript (stop : Option StopPoint) : RefreshInputs where
  inv :=
    { transcripts := [{ source := .claude, path := "a.jsonl" }]
      stat := fun _ => .found { len := 10 }
      sweepStat := fun _ => .found { len := 10 } }
  options := {}
  narrowing := .none
  execution :=
    { parse := fun task => .parsed
        { records := [{ text := "hello", role := "user", sourcePath := task.path }]
          offset := 10 } }
  stop

/-- A refresh that crashes before its final commit, then its retry. -/
theorem docIds_never_reused_after_crash :
    let refreshes := [oneTranscript (some .final), oneTranscript none]
    let history := publishedHistory refreshes {}
    let final := runRefreshes refreshes {}
    (history.map Record.docId).Nodup ∧
      final.lexical ≤ (history : Multiset Record) ∧
      (∀ store ∈ final.vectors, ∀ id ∈ store.docIds, ∃ record ∈ history, record.docId = id) ∧
      ∀ record ∈ history, record.docId < reservedDocId final.checkpoint :=
  docIds_never_reused {} rfl rfl [oneTranscript (some .final), oneTranscript none]
    ⟨by decide, by decide, trivial⟩

/-- The record that takes the last value of the counter is published while the
stored counter has wrapped around to zero. -/
theorem stored_counter_wraps_below_published_id :
    let start : Durable := { checkpoint := { nextDocId := 2 ^ 64 - 1 } }
    let final := (ingestSelected (oneTranscript none) start).durable
    ¬ ∀ record ∈ final.lexical, record.docId < reservedDocId final.checkpoint := by
  decide

end Runs

end Memex.Ingest
