import Memex.Ingest.OpencodeRefresh
import Memex.Sources.Opencode

/-! # Databases as one refresh reads them

Planning reads a snapshot of a database; hydration opens a second connection
later and reads the sessions it was asked for (`prehydrate_opencode_database`
of `ingest/execution.rs`). In between the database may change. -/

namespace Memex.Ingest

open Overlay State Sources Sources.Opencode

/-- What one refresh sees of a database: the answer to stat, the snapshot that
planning reads and the content hydration reads; both reads may fail. -/
structure DatabaseView where
  stat : Stat := .notFound
  scanned : Option Database := none
  hydrated : Option Database := none

/-- The session ids in order. -/
def sortedIds (ids : Finset String) : List String :=
  Quot.liftOn ids.val (fun list => list.insertionSort (· ≤ ·)) fun left right h =>
    ((List.perm_insertionSort _ left).trans
      (h.trans (List.perm_insertionSort _ right).symm)).eq_of_pairwise'
      (List.pairwise_insertionSort _ left) (List.pairwise_insertionSort _ right)

theorem coe_sortedIds (ids : Finset String) : (sortedIds ids : Multiset String) = ids.val := by
  obtain ⟨list, hlist⟩ := Quot.exists_rep ids.val
  rw [sortedIds, ← hlist]
  exact Quot.sound (List.perm_insertionSort _ list)

theorem mem_sortedIds {ids : Finset String} {id : String} : id ∈ sortedIds ids ↔ id ∈ ids := by
  rw [← Multiset.mem_coe, coe_sortedIds, Finset.mem_val]

theorem nodup_sortedIds (ids : Finset String) : (sortedIds ids).Nodup := by
  rw [← Multiset.coe_nodup, coe_sortedIds]
  exact ids.nodup

section Hydrate

variable (crates : Crates) (database : Database) (path : String) (scan : DatabaseScan)

/-- Sessions of the planned projection are read from it, all others from the
v1 tables. -/
def parseSession (sessionId : String) : Option (List Record) :=
  if sessionId ∈ v2SessionIds scan then parseSessionRecordsV2 crates database path sessionId
  else parseSessionRecords database path sessionId

/-- Read one session after the other; an error ends the reading. -/
def hydrateSessions : List String → Hydration
  | [] => ⟨[], true⟩
  | sessionId :: rest =>
      match parseSession crates database path scan sessionId with
      | none => ⟨[], false⟩
      | some records =>
          let others := hydrateSessions rest
          ⟨records ++ others.records, others.complete⟩

/-- `open_database_for_sessions`. -/
def opensForSessions : Bool :=
  database.hasV2Schema || database.requireModernSchema

end Hydrate

/-- The answers a view gives to discovery. -/
def DatabaseView.store (view : DatabaseView) (crates : Crates) (path : String) : OpencodeStore where
  stat := view.stat
  scan previous := view.scanned.bind fun database => scanDatabase database previous
  hydrate scan sessionIds :=
    match view.hydrated with
    | none => ⟨[], false⟩
    | some database =>
        if opensForSessions database then
          hydrateSessions crates database path scan (sortedIds sessionIds)
        else ⟨[], false⟩

section Records

variable {crates : Crates} {database : Database} {path sessionId : String} {scan : DatabaseScan}

theorem emitModernMessages_scope {links : SessionLinks} {messages : List ModernMessage}
    {turnId : Nat} {record : Record}
    (h : record ∈ emitModernMessages path sessionId links messages turnId) :
    record.sourcePath = path ∧ record.sessionId = sessionId := by
  induction messages generalizing turnId with
  | nil => cases h
  | cons message rest ih =>
      rw [emitModernMessages] at h
      split at h
      · exact ih h
      · rcases List.mem_cons.mp h with rfl | h
        · exact ⟨rfl, rfl⟩
        · exact ih h

theorem emitV2Records_scope {links : SessionLinks} {pending : List V2PendingRecord}
    {turnId : Nat} {record : Record}
    (h : record ∈ emitV2Records path sessionId links pending turnId) :
    record.sourcePath = path ∧ record.sessionId = sessionId := by
  induction pending generalizing turnId with
  | nil => cases h
  | cons head rest ih =>
      rcases List.mem_cons.mp h with rfl | h
      · exact ⟨rfl, rfl⟩
      · exact ih h

/-- A session's records carry the path of the database and the session's id. -/
theorem parseSession_scope {records : List Record}
    (h : parseSession crates database path scan sessionId = some records) :
    ∀ record ∈ records, record.sourcePath = path ∧ record.sessionId = sessionId := by
  intro record hrecord
  rw [parseSession] at h
  split at h
  · rw [parseSessionRecordsV2] at h
    split at h
    · cases h
    · split at h
      · cases h
        cases hrecord
      · obtain ⟨rows, -, rfl⟩ := Option.map_eq_some_iff.mp h
        exact emitV2Records_scope hrecord
  · rw [parseSessionRecords] at h
    split at h
    · cases h
    · split at h
      · cases h
        cases hrecord
      · split at h
        · obtain ⟨messages, -, rfl⟩ := Option.map_eq_some_iff.mp h
          exact emitModernMessages_scope hrecord
        · cases h

theorem hydrateSessions_sourcePath {ids : List String} {record : Record}
    (h : record ∈ (hydrateSessions crates database path scan ids).records) :
    record.sourcePath = path := by
  induction ids with
  | nil => cases h
  | cons id rest ih =>
      rw [hydrateSessions] at h
      split at h
      · cases h
      · rename_i records hrecords
        rcases List.mem_append.mp h with h | h
        · exact (parseSession_scope hrecords record h).1
        · exact ih h

/-- Reading that got to its end has read each session it was asked for, and
nothing of any other. -/
theorem hydrateSessions_complete (sessionId : String) {ids : List String} (hnodup : ids.Nodup)
    (h : (hydrateSessions crates database path scan ids).complete = true) :
    (sessionId ∈ ids → ∃ records, parseSession crates database path scan sessionId = some records ∧
        (hydrateSessions crates database path scan ids).records.filter
          (fun record => record.sessionId = sessionId) = records) ∧
      (sessionId ∉ ids → (hydrateSessions crates database path scan ids).records.filter
        (fun record => record.sessionId = sessionId) = []) := by
  induction ids with
  | nil => exact ⟨fun h => absurd h List.not_mem_nil, fun _ => rfl⟩
  | cons id rest ih =>
      rw [List.nodup_cons] at hnodup
      rw [hydrateSessions] at h ⊢
      cases hparse : parseSession crates database path scan id with
      | none =>
          rw [hparse] at h
          cases h
      | some records =>
          rw [hparse] at h
          dsimp only at h ⊢
          obtain ⟨hlisted, hother⟩ := ih hnodup.2 h
          have hown : ∀ record ∈ records, record.sessionId = id :=
            fun record hrecord => (parseSession_scope hparse record hrecord).2
          rw [List.filter_append]
          constructor
          · intro hmem
            rcases List.mem_cons.mp hmem with rfl | hmem
            · refine ⟨records, hparse, ?_⟩
              rw [hother hnodup.1, List.append_nil, List.filter_eq_self]
              exact fun record hrecord => decide_eq_true (hown record hrecord)
            · obtain ⟨found, hfound, hfilter⟩ := hlisted hmem
              refine ⟨found, hfound, ?_⟩
              have hnone : records.filter (fun record => record.sessionId = sessionId) = [] := by
                refine List.filter_eq_nil_iff.mpr fun record hrecord hcase => hnodup.1 ?_
                rw [← hown record hrecord, of_decide_eq_true hcase]
                exact hmem
              rw [hnone, List.nil_append, hfilter]
          · intro hnot
            rw [List.mem_cons, not_or] at hnot
            rw [hother hnot.2, List.append_nil, List.filter_eq_nil_iff]
            intro record hrecord hcase
            exact hnot.1 ((of_decide_eq_true hcase).symm.trans (hown record hrecord))

theorem store_hydrate_sourcePath {view : DatabaseView} {ids : Finset String} {record : Record}
    (h : record ∈ ((view.store crates path).hydrate scan ids).records) :
    record.sourcePath = path := by
  rw [DatabaseView.store] at h
  dsimp only at h
  split at h
  · cases h
  · split at h
    · exact hydrateSessions_sourcePath h
    · cases h

/-- A complete hydration is one of content that could be opened. -/
theorem store_hydrate_complete {view : DatabaseView} {ids : Finset String}
    (h : ((view.store crates path).hydrate scan ids).complete = true) :
    ∃ database, view.hydrated = some database ∧
      (view.store crates path).hydrate scan ids =
        hydrateSessions crates database path scan (sortedIds ids) := by
  rw [DatabaseView.store] at h ⊢
  dsimp only at h ⊢
  split at h
  · cases h
  · rename_i database hdatabase
    split at h
    · rename_i hopens
      exact ⟨database, hdatabase, if_pos hopens⟩
    · cases h

end Records

end Memex.Ingest
