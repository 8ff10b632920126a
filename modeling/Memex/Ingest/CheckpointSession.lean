import Memex.State.Checkpoint

/-! # The checkpoint session of a refresh

`ingest/checkpoint.rs`: a refresh edits checkpoint rows through a session that
reads stored rows on demand and collects its edits in one delta. The session
is compared with a full in-memory copy of the rows to which the same edits are
applied one by one. -/

namespace Memex.Ingest

open Overlay State

/-- One refresh's view of the store, with the edits not committed yet. -/
structure CheckpointSession where
  store : CheckpointStore
  loaded : Table String (Option FileState)
  delta : CheckpointDelta
  originalNextDocId : Nat
  originalOpencodeDatabases : Table String OpencodeDatabaseState
  nextDocId : Nat
  opencodeDatabases : Table String OpencodeDatabaseState
  pending : Option PendingIngest
  scanCache : ScanCache
  directoryStamps : Option DirectoryStampUpdate
  journalCursor : Option JournalCursorUpdate

namespace CheckpointSession

def «open» (store : CheckpointStore) : CheckpointSession :=
  let header := store.header
  { store
    loaded := ∅
    delta := {}
    originalNextDocId := header.nextDocId
    originalOpencodeDatabases := header.opencodeDatabases
    nextDocId := header.nextDocId
    opencodeDatabases := header.opencodeDatabases
    pending := header.pending
    scanCache := header.scanCache
    directoryStamps := none
    journalCursor := none }

variable (session : CheckpointSession)

def clearsFiles : Bool :=
  session.delta.files.clears

/-- Load the rows of the paths not loaded yet. A read error (`readFails`)
leaves the session as it was. -/
def preload (paths : List String) (scope : FileLoadScope) (readFails : Bool) :
    CheckpointSession :=
  let missing := (paths.filter fun path => path ∉ session.loaded).dedup
  if session.delta.files.clears then
    { session with loaded := insertAll (fun _ => none) missing session.loaded }
  else if missing = [] ∨ readFails then session
  else { session with loaded := session.store.loadFiles missing scope ∪ session.loaded }

/-- The row of a loaded path; asking for any other path panics. -/
def file (path : String) : Except String (Option FileState) :=
  match session.loaded.lookup path with
  | some row => .ok row
  | none => .error "checkpoint path must be preloaded"

def containsFile (path : String) : Bool :=
  match session.loaded.lookup path with
  | some row => row.isSome
  | none => if session.delta.files.clears then false else session.store.containsFile path

def fileKeys : Finset String :=
  let keys := if session.delta.files.clears then ∅ else session.store.fileKeys
  (keys.filter fun key => key ∉ session.delta.files.deletes) ∪ session.delta.files.upserts.keys

def hasFiles : Bool :=
  if session.delta.files.upserts ≠ ∅ then true
  else if session.delta.files.clears then false
  else session.store.hasFilesExcluding session.delta.files.deletes

def deleteFile (path : String) : CheckpointSession :=
  { session with
    loaded := session.loaded.insert path none
    delta := { session.delta with files := session.delta.files.remove path } }

def clearFiles : CheckpointSession :=
  { session with
    loaded := ∅
    delta := { session.delta with files := session.delta.files.clear } }

/-- A row that is already loaded with the same value is not written again. -/
def upsertFile (path : String) (file : FileState) : CheckpointSession :=
  if session.loaded.lookup path = some (some file) then session
  else
    { session with
      loaded := session.loaded.insert path (some file)
      delta := { session.delta with files := session.delta.files.put path file } }

theorem deleteFile_comm (path other : String) :
    (session.deleteFile path).deleteFile other = (session.deleteFile other).deleteFile path := by
  by_cases h : path = other
  · rw [h]
  · unfold deleteFile
    simp only [Finmap.insert_insert_of_ne _ h, session.delta.files.remove_comm path other]

instance : LeftCommutative fun (path : String) (session : CheckpointSession) =>
    session.deleteFile path where
  left_comm path other session := session.deleteFile_comm other path

/-- Delete each of a set of paths. -/
def deleteFiles (paths : Finset String) : CheckpointSession :=
  paths.val.foldr (fun path session => session.deleteFile path) session

def commitIntent (pending : PendingIngest) (fault : Option Nat) : CheckpointSession × Bool :=
  match session.store.commitIntent pending fault with
  | (store, true) => ({ session with store, pending := some pending }, true)
  | (store, false) => ({ session with store }, false)

/-- The delta `commit_final` sends to the writer. -/
def finalDelta (cache : Option ScanCache) (pending : PendingChange) : CheckpointDelta :=
  { session.delta with
    scanCache := cache
    pending
    directoryStamps := session.directoryStamps
    journalCursor := session.journalCursor
    nextDocId :=
      if session.nextDocId ≠ session.originalNextDocId then some session.nextDocId else none
    opencodeDatabases :=
      if session.opencodeDatabases ≠ session.originalOpencodeDatabases then
        some session.opencodeDatabases
      else none }

/-- A failed commit keeps the edits, so that they are still visible and can be
committed again. -/
def commitFinal (cache : Option ScanCache) (pending : PendingChange) (fault : Option Nat) :
    CheckpointSession × CommitOutcome :=
  match session.store.commitDelta (session.finalDelta cache pending) fault with
  | (store, .failed) =>
      ({ session with
          store
          delta := session.finalDelta cache pending
          directoryStamps := none
          journalCursor := none }, .failed)
  | (store, .committed changed) =>
      ({ session with
          store
          delta := {}
          originalNextDocId := session.nextDocId
          originalOpencodeDatabases := session.opencodeDatabases
          pending := pending.apply session.pending
          scanCache := cache.getD session.scanCache
          directoryStamps := none
          journalCursor := none }, .committed changed)

end CheckpointSession

/-- What a final commit without a fault stores, table by table. -/
structure StoredBy (session : CheckpointSession) (pending : PendingChange)
    (store : CheckpointStore) : Prop where
  files : store.files = session.delta.files.apply session.store.files
  nextDocId : store.nextDocId = session.nextDocId
  pending : store.pending = pending.apply session.store.pending

/-- A final commit without a fault succeeds and stores the session. -/
theorem CheckpointSession.commitFinal_of_no_fault (session : CheckpointSession)
    (cache : Option ScanCache) (pending : PendingChange)
    (horiginal : session.originalNextDocId = session.store.nextDocId) :
    StoredBy session pending (session.commitFinal cache pending none).1.store ∧
      (session.commitFinal cache pending none).2 ≠ .failed := by
  have hnext : (session.finalDelta cache pending).nextDocId.getD session.store.nextDocId =
      session.nextDocId := by
    unfold CheckpointSession.finalDelta
    by_cases h : session.nextDocId = session.originalNextDocId
    · simp [h, horiginal]
    · simp [h]
  have hcommit : session.store.commitDelta (session.finalDelta cache pending) none =
      if (session.finalDelta cache pending).Idle then (session.store, .committed false)
      else ((session.finalDelta cache pending).applyTo session.store, .committed true) := by
    unfold CheckpointStore.commitDelta
    rw [Transaction.commit_none]
    rfl
  unfold CheckpointSession.commitFinal
  rw [hcommit]
  by_cases hidle : (session.finalDelta cache pending).Idle
  · rw [if_pos hidle]
    obtain ⟨hfiles, hnone, -, hpending, -⟩ := hidle
    refine ⟨⟨(Patch.apply_of_isEmpty _ _ hfiles).symm, ?_, ?_⟩, by simp⟩
    · rw [← hnext, hnone]
      rfl
    · rw [show pending = .keep from hpending]
      rfl
  · rw [if_neg hidle, CheckpointDelta.applyTo_eq]
    exact ⟨⟨rfl, hnext, rfl⟩, by simp⟩

/-- Two sessions that differ at most in their rows, their stamps and their scan
cache: discovery edits nothing else. -/
structure SameBase (session other : CheckpointSession) : Prop where
  store : other.store = session.store
  nextDocId : other.nextDocId = session.nextDocId
  opencodeDatabases : other.opencodeDatabases = session.opencodeDatabases
  pending : other.pending = session.pending
  originalNextDocId : other.originalNextDocId = session.originalNextDocId
  originalOpencodeDatabases :
    other.originalOpencodeDatabases = session.originalOpencodeDatabases

namespace SameBase

variable {session other third : CheckpointSession}

theorem refl (session : CheckpointSession) : SameBase session session :=
  ⟨rfl, rfl, rfl, rfl, rfl, rfl⟩

theorem trans (h : SameBase session other) (h' : SameBase other third) :
    SameBase session third :=
  ⟨h'.store.trans h.store, h'.nextDocId.trans h.nextDocId,
    h'.opencodeDatabases.trans h.opencodeDatabases, h'.pending.trans h.pending,
    h'.originalNextDocId.trans h.originalNextDocId,
    h'.originalOpencodeDatabases.trans h.originalOpencodeDatabases⟩

theorem preload (session : CheckpointSession) (paths : List String) (scope : FileLoadScope)
    (readFails : Bool) : SameBase session (session.preload paths scope readFails) := by
  simp only [CheckpointSession.preload]
  split
  · exact ⟨rfl, rfl, rfl, rfl, rfl, rfl⟩
  · split
    · exact refl session
    · exact ⟨rfl, rfl, rfl, rfl, rfl, rfl⟩

theorem deleteFile (session : CheckpointSession) (path : String) :
    SameBase session (session.deleteFile path) :=
  ⟨rfl, rfl, rfl, rfl, rfl, rfl⟩

theorem upsertFile (session : CheckpointSession) (path : String) (file : FileState) :
    SameBase session (session.upsertFile path file) := by
  unfold CheckpointSession.upsertFile
  split
  · exact refl session
  · exact ⟨rfl, rfl, rfl, rfl, rfl, rfl⟩

theorem deleteFiles (session : CheckpointSession) (paths : Finset String) :
    SameBase session (session.deleteFiles paths) := by
  unfold CheckpointSession.deleteFiles
  induction paths.val using Multiset.induction_on with
  | empty => exact refl session
  | cons path rest ih =>
      rw [Multiset.foldr_cons]
      exact ih.trans (SameBase.deleteFile _ path)

end SameBase

/-- A step of a session: an edit, a read that loads rows, an assignment to the
session's public fields, or a commit with an injected fault. -/
inductive SessionStep where
  | preload (paths : List String) (scope : FileLoadScope) (readFails : Bool)
  | upsertFile (path : String) (file : FileState)
  | deleteFile (path : String)
  | clearFiles
  | assign (nextDocId : Nat) (databases : Table String OpencodeDatabaseState)
      (stamps : Option DirectoryStampUpdate) (journal : Option JournalCursorUpdate)
  | commitIntent (pending : PendingIngest) (fault : Option Nat)
  | commitFinal (cache : Option ScanCache) (pending : PendingChange) (fault : Option Nat)

namespace SessionStep

/-- Perform a step on a session. -/
def run (session : CheckpointSession) : SessionStep → CheckpointSession
  | preload paths scope readFails => session.preload paths scope readFails
  | upsertFile path file => session.upsertFile path file
  | deleteFile path => session.deleteFile path
  | clearFiles => session.clearFiles
  | assign nextDocId databases stamps journal =>
      { session with
        nextDocId, opencodeDatabases := databases
        directoryStamps := stamps, journalCursor := journal }
  | commitIntent pending fault => (session.commitIntent pending fault).1
  | commitFinal cache pending fault => (session.commitFinal cache pending fault).1

def runAll (session : CheckpointSession) (steps : List SessionStep) : CheckpointSession :=
  steps.foldl run session

/-- The edit a step makes to a full copy of the rows, if it is one. -/
def edit : SessionStep → Option (Edit String FileState)
  | upsertFile path file => some (.put path file)
  | deleteFile path => some (.remove path)
  | clearFiles => some .clear
  | _ => none

/-- The full in-memory copy after the edits of the steps, in order. -/
def fullCopy (rows : Table String FileState) (steps : List SessionStep) :
    Table String FileState :=
  applyAll (steps.filterMap edit) rows

/-- The loaded paths after a step: those preloaded, upserted or deleted since
the session was opened or last cleared. A preload needs no read once the rows
are cleared. -/
def touch (session : CheckpointSession) (touched : Finset String) : SessionStep → Finset String
  | preload paths _ readFails =>
      if readFails ∧ session.clearsFiles = false then touched else touched ∪ paths.toFinset
  | upsertFile path _ => insert path touched
  | deleteFile path => insert path touched
  | clearFiles => ∅
  | _ => touched

/-- The loaded paths after a list of steps. -/
def touchedPaths (session : CheckpointSession) (touched : Finset String) :
    List SessionStep → Finset String
  | [] => touched
  | step :: rest => touchedPaths (step.run session) (step.touch session touched) rest

end SessionStep

/-- The session stands for a full copy of the rows: its patch over the stored
rows gives the copy, what it has loaded is what the copy holds, and every edit
of a single path has loaded that path. -/
structure Represents (session : CheckpointSession) (rows : Table String FileState)
    (touched : Finset String) : Prop where
  patched : session.delta.files.apply session.store.files = rows
  cached : Caches session.loaded rows
  keys : session.loaded.keys = touched
  edited : ∀ path, path ∈ session.delta.files.upserts ∨ path ∈ session.delta.files.deletes →
    path ∈ session.loaded

namespace Represents

variable {session : CheckpointSession} {rows : Table String FileState} {touched : Finset String}

theorem of_open (store : CheckpointStore) :
    Represents (CheckpointSession.open store) store.files ∅ where
  patched := Patch.apply_empty store.files
  cached := Caches.empty store.files
  keys := Finmap.keys_empty
  edited := by
    rintro path (h | h)
    · exact absurd h Finmap.notMem_empty
    · exact absurd h (Finset.notMem_empty path)

/-- The copy's row of a path that is not loaded is the stored one, unless the
rows were cleared. -/
theorem lookup_of_not_loaded (h : Represents session rows touched) {path : String}
    (hpath : path ∉ session.loaded) :
    rows.lookup path =
      if session.delta.files.clears = true then none else session.store.files.lookup path := by
  have hupsert : path ∉ session.delta.files.upserts := fun hmem => hpath (h.edited path (.inl hmem))
  have hdelete : path ∉ session.delta.files.deletes := fun hmem => hpath (h.edited path (.inr hmem))
  rw [← h.patched, Patch.lookup_apply, Finmap.lookup_eq_none.mpr hupsert]
  simp [hdelete]

/-- Loading rows of the copy for further paths keeps the representation. -/
private theorem load (h : Represents session rows touched)
    {loaded : Table String (Option FileState)}
    (hcached : Caches loaded rows) {more : Finset String} (hkeys : loaded.keys = touched ∪ more) :
    Represents { session with loaded } rows (touched ∪ more) where
  patched := h.patched
  cached := hcached
  keys := hkeys
  edited path hpath := by
    have hmem := Finmap.mem_keys.mpr (h.edited path hpath)
    rw [h.keys] at hmem
    rw [← Finmap.mem_keys, hkeys]
    exact Finset.mem_union_left _ hmem

private theorem missing_union (h : Represents session rows touched) (paths : List String) :
    ((paths.filter fun path => path ∉ session.loaded).dedup).toFinset ∪ touched =
      touched ∪ paths.toFinset := by
  ext path
  rw [← h.keys]
  by_cases hpath : path ∈ session.loaded <;> simp [hpath, Finmap.mem_keys]

theorem preload (h : Represents session rows touched) (paths : List String)
    (scope : FileLoadScope) (readFails : Bool) :
    Represents (session.preload paths scope readFails) rows
      ((SessionStep.preload paths scope readFails).touch session touched) := by
  have hunion := h.missing_union paths
  have htouch (hload : readFails = false ∨ session.delta.files.clears = true) :
      (SessionStep.preload paths scope readFails).touch session touched =
        touched ∪ paths.toFinset := by
    rcases hload with hload | hload <;>
      simp [SessionStep.touch, CheckpointSession.clearsFiles, hload]
  simp only [CheckpointSession.preload]
  set missing := (paths.filter fun path => path ∉ session.loaded).dedup with hmissing
  have hfresh : ∀ path ∈ missing, path ∉ session.loaded := by
    intro path hpath
    simpa using (List.mem_filter.mp (List.mem_dedup.mp hpath)).2
  by_cases hclear : session.delta.files.clears = true
  · rw [if_pos hclear, htouch (.inr hclear)]
    refine h.load ?_ ?_
    · intro path row hrow
      rw [lookup_insertAll] at hrow
      split at hrow
      · rename_i hpath
        rw [h.lookup_of_not_loaded (hfresh path hpath), if_pos hclear]
        exact Option.some.inj hrow
      · exact h.cached path row hrow
    · rw [keys_insertAll, h.keys, hunion]
  · rw [if_neg hclear]
    cases readFails with
    | true => simpa [SessionStep.touch, CheckpointSession.clearsFiles, hclear] using h
    | false =>
        rw [htouch (.inl rfl)]
        by_cases hnil : missing = []
        · rw [if_pos (.inl hnil), ← hunion, hnil]
          simpa using h
        · rw [if_neg (by simp [hnil])]
          refine h.load (Caches.union ?_ h.cached) ?_
          · intro path row hrow
            rw [lookup_loadFiles] at hrow
            split at hrow
            · rename_i hpath
              rw [h.lookup_of_not_loaded (hfresh path hpath), if_neg hclear]
              exact Option.some.inj hrow
            · cases hrow
          · rw [Finmap.keys_union, h.keys, ← hunion]
            congr 1
            ext path
            rw [Finmap.mem_keys, ← Finmap.lookup_isSome, lookup_loadFiles]
            by_cases hpath : path ∈ missing <;> simp [hpath]

theorem upsertFile (h : Represents session rows touched) (path : String) (file : FileState) :
    Represents (session.upsertFile path file) (rows.insert path file) (insert path touched) := by
  unfold CheckpointSession.upsertFile
  split
  · rename_i hloaded
    have hrow : rows.lookup path = some file := h.cached path (some file) hloaded
    have hrows : rows.insert path file = rows := by
      refine Finmap.ext_lookup fun other => ?_
      rw [lookup_insert_ite]
      split
      · subst other
        exact hrow.symm
      · rfl
    have hmem : path ∈ touched := by
      rw [← h.keys, Finmap.mem_keys]
      exact Finmap.mem_of_lookup_eq_some hloaded
    rw [hrows, Finset.insert_eq_of_mem hmem]
    exact h
  · exact
      { patched := by rw [Patch.apply_put, h.patched]
        cached := h.cached.put path file
        keys := by
          ext other
          rw [Finmap.mem_keys, Finmap.mem_insert, ← Finmap.mem_keys, h.keys, Finset.mem_insert]
        edited := by
          intro other hother
          rw [Finmap.mem_insert]
          rcases hother with hother | hother
          · rcases Finmap.mem_insert.mp hother with heq | hother
            · exact .inl heq
            · exact .inr (h.edited other (.inl hother))
          · exact .inr (h.edited other (.inr (Finset.mem_of_mem_erase hother))) }

theorem deleteFile (h : Represents session rows touched) (path : String) :
    Represents (session.deleteFile path) (rows.erase path) (insert path touched) where
  patched := by
    rw [← h.patched]
    exact Patch.apply_remove _ _ path
  cached := h.cached.remove path
  keys := by
    ext other
    rw [Finmap.mem_keys, CheckpointSession.deleteFile, Finmap.mem_insert, ← Finmap.mem_keys, h.keys,
      Finset.mem_insert]
  edited := by
    intro other hother
    refine Finmap.mem_insert.mpr ?_
    rcases hother with hother | hother
    · exact .inr (h.edited other (.inl (Finmap.mem_erase.mp hother).2))
    · change other ∈ (if session.delta.files.clears then session.delta.files.deletes
        else insert path session.delta.files.deletes) at hother
      split at hother
      · exact .inr (h.edited other (.inr hother))
      · rcases Finset.mem_insert.mp hother with heq | hother
        · exact .inl heq
        · exact .inr (h.edited other (.inr hother))

theorem clearFiles : Represents session.clearFiles ∅ ∅ where
  patched := session.delta.files.apply_clear session.store.files
  cached := Caches.empty ∅
  keys := Finmap.keys_empty
  edited := by
    rintro path (h | h)
    · exact absurd h Finmap.notMem_empty
    · exact absurd h (Finset.notMem_empty path)

/-- A commit leaves the copy the session stands for as it is, whether it
succeeds, fails or has nothing to write. -/
theorem commitFinal (h : Represents session rows touched) (cache : Option ScanCache)
    (pending : PendingChange) (fault : Option Nat) :
    Represents (session.commitFinal cache pending fault).1 rows touched := by
  have hfiles : (session.finalDelta cache pending).files = session.delta.files := rfl
  have hempty (store : CheckpointStore) (hstore : store.files = rows) :
      ({} : CheckpointDelta).files.apply store.files = rows := by
    rw [← hstore]
    exact Patch.apply_empty store.files
  have hnone (path : String) (hpath : path ∈ ({} : CheckpointDelta).files.upserts ∨
      path ∈ ({} : CheckpointDelta).files.deletes) : path ∈ session.loaded := by
    rcases hpath with hpath | hpath
    · exact absurd hpath Finmap.notMem_empty
    · exact absurd hpath (Finset.notMem_empty path)
  unfold CheckpointSession.commitFinal
  rcases session.store.commitDelta_cases (session.finalDelta cache pending) fault with
    ⟨hidle, heq⟩ | ⟨-, heq⟩ | ⟨-, heq⟩
  · have hstore : session.store.files = rows := by
      rw [← h.patched, ← hfiles, Patch.apply_of_isEmpty _ _ hidle.1]
    rw [heq]
    exact ⟨hempty _ hstore, h.cached, h.keys, hnone⟩
  · have hstore : ((session.finalDelta cache pending).applyTo session.store).files = rows := by
      rw [CheckpointDelta.applyTo_eq, hfiles]
      exact h.patched
    rw [heq]
    exact ⟨hempty _ hstore, h.cached, h.keys, hnone⟩
  · rw [heq]
    exact ⟨h.patched, h.cached, h.keys, h.edited⟩

/-- Each step edits the represented copy and nothing else. -/
theorem run (h : Represents session rows touched) (step : SessionStep) :
    Represents (step.run session) (applyAll step.edit.toList rows)
      (step.touch session touched) := by
  cases step with
  | preload paths scope readFails => exact h.preload paths scope readFails
  | upsertFile path file => exact h.upsertFile path file
  | deleteFile path => exact h.deleteFile path
  | clearFiles => exact clearFiles
  | assign nextDocId databases stamps journal =>
      exact ⟨h.patched, h.cached, h.keys, h.edited⟩
  | commitIntent pending fault =>
      have hfiles := session.store.commitIntent_files pending fault
      change Represents (session.commitIntent pending fault).1 rows touched
      unfold CheckpointSession.commitIntent
      cases hcommit : session.store.commitIntent pending fault with
      | mk store committed =>
          rw [hcommit] at hfiles
          cases committed <;>
            exact ⟨by rw [← h.patched, ← hfiles], h.cached, h.keys, h.edited⟩
  | commitFinal cache pending fault => exact h.commitFinal cache pending fault

/-- Along any list of steps the session stands for the copy to which the same
edits were made in order. -/
theorem runAll (h : Represents session rows touched) (steps : List SessionStep) :
    Represents (SessionStep.runAll session steps) (SessionStep.fullCopy rows steps)
      (SessionStep.touchedPaths session touched steps) := by
  induction steps generalizing session rows touched with
  | nil => exact h
  | cons step rest ih =>
      have hcopy : SessionStep.fullCopy rows (step :: rest) =
          SessionStep.fullCopy (applyAll step.edit.toList rows) rest := by
        unfold SessionStep.fullCopy
        cases hedit : step.edit with
        | none => rw [List.filterMap_cons_none hedit]; rfl
        | some edit => rw [List.filterMap_cons_some hedit]; rfl
      rw [hcopy]
      exact ih (h.run step)

theorem file_eq (h : Represents session rows touched) (path : String) :
    session.file path =
      if path ∈ touched then .ok (rows.lookup path)
      else .error "checkpoint path must be preloaded" := by
  have hkeys : path ∈ touched ↔ path ∈ session.loaded := by rw [← h.keys, Finmap.mem_keys]
  unfold CheckpointSession.file
  cases hloaded : session.loaded.lookup path with
  | some row =>
      rw [if_pos (hkeys.mpr (Finmap.mem_of_lookup_eq_some hloaded)), h.cached path row hloaded]
  | none => rw [if_neg (hkeys.not.mpr (Finmap.lookup_eq_none.mp hloaded))]

theorem containsFile_eq (h : Represents session rows touched) (path : String) :
    session.containsFile path = decide (path ∈ rows) := by
  rw [Bool.eq_iff_iff, decide_eq_true_iff, ← Finmap.lookup_isSome]
  unfold CheckpointSession.containsFile
  cases hloaded : session.loaded.lookup path with
  | some row => rw [h.cached path row hloaded]
  | none =>
      rw [h.lookup_of_not_loaded (Finmap.lookup_eq_none.mp hloaded)]
      by_cases hclear : session.delta.files.clears = true
      · simp [hclear]
      · simp [hclear, CheckpointStore.containsFile, Finmap.lookup_isSome]

theorem fileKeys_eq (h : Represents session rows touched) : session.fileKeys = rows.keys := by
  rw [← h.patched, Patch.keys_apply, CheckpointSession.fileKeys, Finset.filter_notMem_eq_sdiff]
  rfl

theorem hasFiles_eq (h : Represents session rows touched) :
    session.hasFiles = decide (rows ≠ ∅) := by
  rw [Bool.eq_iff_iff, decide_eq_true_iff, ← h.patched, Patch.apply_ne_empty_iff]
  unfold CheckpointSession.hasFiles CheckpointStore.hasFilesExcluding
  by_cases hupserts : session.delta.files.upserts = ∅
  · by_cases hclear : session.delta.files.clears = true <;> simp [hupserts, hclear]
  · simp [hupserts]

end Represents

section FullCopy

variable (store : CheckpointStore) (steps : List SessionStep)

/-- The session after some steps on a freshly opened store. -/
def sessionAfter : CheckpointSession :=
  SessionStep.runAll (CheckpointSession.open store) steps

theorem represents_sessionAfter :
    Represents (sessionAfter store steps) (SessionStep.fullCopy store.files steps)
      (SessionStep.touchedPaths (CheckpointSession.open store) ∅ steps) :=
  (Represents.of_open store).runAll steps

/-- Every query of a session is answered as by the full copy, a row being
readable only for a loaded path. A commit that succeeds stores the copy, and
one that fails leaves the whole store as it was. -/
theorem session_faithful_overlay (store : CheckpointStore) (steps : List SessionStep) :
    let session := sessionAfter store steps
    let copy := SessionStep.fullCopy store.files steps
    let touched := SessionStep.touchedPaths (CheckpointSession.open store) ∅ steps
    (∀ path, session.containsFile path = decide (path ∈ copy)) ∧
      session.fileKeys = copy.keys ∧
      session.hasFiles = decide (copy ≠ ∅) ∧
      (∀ path ∈ touched, session.file path = .ok (copy.lookup path)) ∧
      (∀ path ∉ touched, session.file path = .error "checkpoint path must be preloaded") ∧
      ∀ cache pending fault,
        ((session.commitFinal cache pending fault).2 ≠ .failed →
          (session.commitFinal cache pending fault).1.store.files = copy) ∧
        ((session.commitFinal cache pending fault).2 = .failed →
          (session.commitFinal cache pending fault).1.store = session.store) := by
  intro session copy touched
  have h : Represents session copy touched := represents_sessionAfter store steps
  refine ⟨h.containsFile_eq, h.fileKeys_eq, h.hasFiles_eq, ?_, ?_, ?_⟩
  · intro path hpath
    rw [h.file_eq, if_pos hpath]
  · intro path hpath
    rw [h.file_eq, if_neg hpath]
  · intro cache pending fault
    unfold CheckpointSession.commitFinal
    have hfiles : (session.finalDelta cache pending).files = session.delta.files := rfl
    rcases session.store.commitDelta_cases (session.finalDelta cache pending) fault with
      ⟨hidle, heq⟩ | ⟨-, heq⟩ | ⟨-, heq⟩
    · have hstore : session.store.files = copy := by
        rw [← h.patched, ← hfiles, Patch.apply_of_isEmpty _ _ hidle.1]
      simp [heq, hstore]
    · have hstore : ((session.finalDelta cache pending).applyTo session.store).files = copy := by
        rw [CheckpointDelta.applyTo_eq, hfiles]
        exact h.patched
      simp [heq, hstore]
    · simp [heq]

/-- A path that was never loaded panics where the full copy answers. -/
theorem file_panics_where_copy_answers :
    (sessionAfter {} []).file "a.jsonl" ≠
      .ok ((SessionStep.fullCopy ({} : CheckpointStore).files []).lookup "a.jsonl") := by
  decide

end FullCopy

end Memex.Ingest
