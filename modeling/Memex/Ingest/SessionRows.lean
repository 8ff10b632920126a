import Memex.Ingest.CheckpointSession

/-! # The rows a session stands for

Discovery only ever drops rows. Each of its stages is described by the set of
paths it drops from the full copy of the rows that the session stands for. -/

namespace Memex.Ingest

open Overlay State

namespace CheckpointSession

/-- The full copy of the rows the session stands for. -/
def rows (session : CheckpointSession) : Table String FileState :=
  session.delta.files.apply session.store.files

/-- The session reads back the rows it stands for. -/
def Coherent (session : CheckpointSession) : Prop :=
  Represents session session.rows session.loaded.keys

/-- The row read for a path that was preloaded. -/
def row (session : CheckpointSession) (path : String) : Option FileState :=
  match session.file path with
  | .ok row => row
  | .error _ => none

end CheckpointSession

open CheckpointSession

variable {session other third : CheckpointSession}

theorem Represents.rows_eq {rows : Table String FileState} {touched : Finset String}
    (h : Represents session rows touched) : session.rows = rows :=
  h.patched

theorem Represents.coherent {rows : Table String FileState} {touched : Finset String}
    (h : Represents session rows touched) : session.Coherent := by
  have hrows := h.rows_eq
  have hkeys := h.keys
  subst hrows hkeys
  exact h

namespace CheckpointSession.Coherent

theorem of_open (store : CheckpointStore) : (CheckpointSession.open store).Coherent :=
  (Represents.of_open store).coherent

theorem fileKeys_eq (h : session.Coherent) : session.fileKeys = session.rows.keys :=
  Represents.fileKeys_eq h

theorem containsFile_iff (h : session.Coherent) (path : String) :
    session.containsFile path = true ↔ path ∈ session.rows.keys := by
  rw [Represents.containsFile_eq h, decide_eq_true_iff, Finmap.mem_keys]

/-- Reading a loaded path gives its row. -/
theorem row_eq (h : session.Coherent) {path : String} (hloaded : path ∈ session.loaded.keys) :
    session.row path = session.rows.lookup path := by
  have hfile := Represents.file_eq h path
  rw [if_pos hloaded] at hfile
  rw [CheckpointSession.row, hfile]

/-- A row that can be read is one of the rows. -/
theorem mem_rows_of_row (h : session.Coherent) {path : String}
    (hrow : (session.row path).isSome = true) : path ∈ session.rows.keys := by
  unfold CheckpointSession.row at hrow
  have hfile := Represents.file_eq h path
  split at hfile
  · rw [hfile] at hrow
    rw [Finmap.mem_keys, ← Finmap.lookup_isSome]
    exact hrow
  · rw [hfile] at hrow
    cases hrow

/-- A change of the session's other fields does not touch its rows. -/
theorem congr (h : session.Coherent) (hstore : other.store.files = session.store.files)
    (hloaded : other.loaded = session.loaded) (hdelta : other.delta.files = session.delta.files) :
    other.Coherent := by
  have hrows : other.rows = session.rows := by
    unfold CheckpointSession.rows
    rw [hstore, hdelta]
  exact
    { patched := rfl
      cached := by
        rw [hloaded, hrows]
        exact h.cached
      keys := rfl
      edited := by
        rw [hloaded, hdelta]
        exact h.edited }

end CheckpointSession.Coherent

/-- The second session stands for the rows of the first one without the removed
paths, and has loaded at least as many rows. -/
structure Drops (session other : CheckpointSession) (removed : Finset String) : Prop where
  coherent : other.Coherent
  rows : other.rows = eraseAll removed session.rows
  loaded : session.loaded.keys ⊆ other.loaded.keys

namespace Drops

variable {removed removed' : Finset String}

theorem refl (h : session.Coherent) : Drops session session ∅ where
  coherent := h
  rows := (eraseAll_empty _).symm
  loaded := Finset.Subset.refl _

theorem trans (h : Drops session other removed) (h' : Drops other third removed') :
    Drops session third (removed ∪ removed') where
  coherent := h'.coherent
  rows := by rw [h'.rows, h.rows, eraseAll_union]
  loaded := h.loaded.trans h'.loaded

theorem keys (h : Drops session other removed) :
    other.rows.keys = session.rows.keys \ removed := by
  rw [h.rows, keys_eraseAll]

theorem deleteFile (h : session.Coherent) (path : String) :
    Drops session (session.deleteFile path) {path} := by
  have hdeleted := Represents.deleteFile h path
  refine ⟨hdeleted.coherent, ?_, ?_⟩
  · rw [hdeleted.rows_eq]
    refine Finmap.ext_lookup fun key => ?_
    simp [lookup_erase_ite]
  · rw [hdeleted.keys]
    exact Finset.subset_insert _ _

theorem deleteFiles (h : session.Coherent) (paths : Finset String) :
    Drops session (session.deleteFiles paths) paths := by
  have hfold (keys : Multiset String) :
      Drops session (keys.foldr (fun path session => session.deleteFile path) session)
        keys.toFinset := by
    induction keys using Multiset.induction_on with
    | empty => exact refl h
    | cons path rest ih =>
        rw [Multiset.foldr_cons, Multiset.toFinset_cons, Finset.insert_eq, Finset.union_comm]
        exact ih.trans (deleteFile ih.coherent path)
  have hpaths := hfold paths.val
  rwa [Finset.val_toFinset] at hpaths

theorem preload (h : session.Coherent) (paths : List String) (scope : FileLoadScope) :
    Drops session (session.preload paths scope false) ∅ ∧
      ∀ path ∈ paths, path ∈ (session.preload paths scope false).loaded.keys := by
  have hloaded := Represents.preload h paths scope false
  have hkeys : (session.preload paths scope false).loaded.keys =
      session.loaded.keys ∪ paths.toFinset := by
    rw [hloaded.keys]
    simp [SessionStep.touch]
  refine ⟨⟨hloaded.coherent, ?_, ?_⟩, ?_⟩
  · rw [hloaded.rows_eq, eraseAll_empty]
  · rw [hkeys]
    exact Finset.subset_union_left
  · intro path hpath
    rw [hkeys]
    exact Finset.mem_union_right _ (List.mem_toFinset.mpr hpath)

/-- A change of the session's other fields drops nothing. -/
theorem congr (h : session.Coherent) (hstore : other.store = session.store)
    (hloaded : other.loaded = session.loaded) (hdelta : other.delta = session.delta) :
    Drops session other ∅ where
  coherent := h.congr (by rw [hstore]) hloaded (by rw [hdelta])
  rows := by
    rw [eraseAll_empty]
    unfold CheckpointSession.rows
    rw [hstore, hdelta]
  loaded := by rw [hloaded]

end Drops

end Memex.Ingest
