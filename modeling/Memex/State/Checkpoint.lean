import Memex.Lib.Transaction
import Memex.State.Types

/-! # The checkpoint store

The version 2 checkpoint store of `state/checkpoint.rs`: typed rows in one
SQLite database, read by `CheckpointReader` and changed by one transaction of
`CheckpointWriter.commit_delta`. Unknown JSON keys that the codec carries along
with a payload are not part of a typed row. -/

namespace Memex.State

open Overlay

/-- The stamp of one walked directory. -/
structure DirectoryStamp where
  device : Nat
  inode : Nat
  mtimeSecs : Int
  mtimeNanos : Int
  ctimeSecs : Int
  ctimeNanos : Int
  deriving DecidableEq, Repr, Inhabited

/-- A directory path by its components, the innermost first. -/
abbrev DirectoryPath := List String

/-- Stamp rows to persist with the refresh that observed them. -/
structure DirectoryStampUpdate where
  fingerprint : String
  upserts : List (DirectoryPath × DirectoryStamp)
  deletes : List DirectoryPath
  deriving DecidableEq, Repr, Inhabited

/-- Position in the filesystem event journal. -/
structure JournalCursor where
  deviceUuid : String
  eventId : Nat
  deriving DecidableEq, Repr, Inhabited

/-- The single journal row, with the configuration it was taken under. -/
structure JournalCursorUpdate where
  fingerprint : String
  cursor : JournalCursor
  deriving DecidableEq, Repr, Inhabited

/-- The tables of a version 2 store. -/
structure CheckpointStore where
  files : Table String FileState := ∅
  nextDocId : Nat := 1
  opencodeDatabases : Table String OpencodeDatabaseState := ∅
  pending : Option PendingIngest := none
  scanCache : Option ScanCache := none
  directories : Table DirectoryPath (String × DirectoryStamp) := ∅
  journal : Option JournalCursorUpdate := none
  deriving DecidableEq

/-- What a refresh reads from the metadata row. -/
structure CheckpointHeader where
  nextDocId : Nat
  opencodeDatabases : Table String OpencodeDatabaseState
  pending : Option PendingIngest
  scanCache : ScanCache
  deriving DecidableEq

/-- How `loadFiles` may read the files table. -/
inductive FileLoadScope where
  | targeted
  | bulk
  deriving DecidableEq, Repr

namespace CheckpointStore

/-- Read the metadata row; an unreadable scan cache is the default one. -/
def header (store : CheckpointStore) : CheckpointHeader where
  nextDocId := store.nextDocId
  opencodeDatabases := store.opencodeDatabases
  pending := store.pending
  scanCache := store.scanCache.getD {}

/-- Point lookups of the targeted scope, one result entry for each path. -/
def loadTargeted (store : CheckpointStore) (paths : List String) :
    Table String (Option FileState) :=
  insertAll store.files.lookup paths ∅

/-- Full-table scan of the bulk scope: wanted rows first, then an absent entry
for every wanted path the scan did not meet. -/
def loadBulk (store : CheckpointStore) (paths : List String) :
    Table String (Option FileState) :=
  let met := paths.filter fun path => path ∈ store.files
  paths.foldl (fun result path => if path ∈ result then result else result.insert path none)
    (insertAll store.files.lookup met ∅)

/-- Read the rows of some paths, present or absent. -/
def loadFiles (store : CheckpointStore) (paths : List String) :
    FileLoadScope → Table String (Option FileState)
  | .targeted => store.loadTargeted paths
  | .bulk => store.loadBulk paths

def containsFile (store : CheckpointStore) (path : String) : Bool :=
  path ∈ store.files

def fileKeys (store : CheckpointStore) : Finset String :=
  store.files.keys

/-- Whether a row outside the excluded paths exists. -/
def hasFilesExcluding (store : CheckpointStore) (excluded : Finset String) : Bool :=
  decide (∃ path ∈ store.files.keys, path ∉ excluded)

/-- The stamps persisted under one configuration fingerprint. -/
def loadDirectoryStamps (store : CheckpointStore) (fingerprint : String)
    (path : DirectoryPath) : Option DirectoryStamp :=
  match store.directories.lookup path with
  | some (owner, stamp) => if owner = fingerprint then some stamp else none
  | none => none

end CheckpointStore

/-- What a commit does to the pending intent. -/
inductive PendingChange where
  | keep
  | replace (pending : PendingIngest)
  | clear
  deriving DecidableEq

/-- `replace_pending`: the pending column after a change. -/
def PendingChange.apply : PendingChange → Option PendingIngest → Option PendingIngest
  | .keep, old => old
  | .replace pending, _ => some pending
  | .clear, _ => none

/-- The row operations and column updates of one commit. `files` holds the
upserts, the deletes and the clear flag of the files table. -/
structure CheckpointDelta where
  files : Patch String FileState := Patch.empty
  nextDocId : Option Nat := none
  opencodeDatabases : Option (Table String OpencodeDatabaseState) := none
  pending : PendingChange := .keep
  scanCache : Option ScanCache := none
  directoryStamps : Option DirectoryStampUpdate := none
  journalCursor : Option JournalCursorUpdate := none

namespace CheckpointDelta

/-- Stamps that touch no row. -/
def stampsIdle : Option DirectoryStampUpdate → Prop
  | none => True
  | some stamps => stamps.upserts = [] ∧ stamps.deletes = []

instance : DecidablePred stampsIdle
  | none => isTrue trivial
  | some stamps => inferInstanceAs (Decidable (stamps.upserts = [] ∧ stamps.deletes = []))

/-- A delta with nothing to write, for which no transaction is opened. -/
def Idle (delta : CheckpointDelta) : Prop :=
  delta.files.IsEmpty ∧ delta.nextDocId = none ∧ delta.opencodeDatabases = none ∧
    delta.pending = .keep ∧ delta.scanCache = none ∧ stampsIdle delta.directoryStamps ∧
    delta.journalCursor = none

instance : DecidablePred Idle :=
  fun delta => inferInstanceAs (Decidable (delta.files.IsEmpty ∧ delta.nextDocId = none ∧
    delta.opencodeDatabases = none ∧ delta.pending = .keep ∧ delta.scanCache = none ∧
    stampsIdle delta.directoryStamps ∧ delta.journalCursor = none))

/-- Drop the stamps of other configurations, then delete and upsert rows. -/
def writeStamps (stamps : DirectoryStampUpdate)
    (rows : Table DirectoryPath (String × DirectoryStamp)) :
    Table DirectoryPath (String × DirectoryStamp) :=
  let foreign := rows.keys.filter fun path =>
    (rows.lookup path).map Prod.fst ≠ some stamps.fingerprint
  let kept := stamps.deletes.foldl (fun rows path => rows.erase path) (eraseAll foreign rows)
  stamps.upserts.foldl (fun rows row => rows.insert row.1 (stamps.fingerprint, row.2)) kept

/-- The statements of the commit transaction, in the order they run. -/
def statements (delta : CheckpointDelta) : List (CheckpointStore → CheckpointStore) :=
  [ fun store => if delta.files.clears then { store with files := ∅ } else store,
    fun store => { store with files := eraseAll delta.files.deletes store.files },
    fun store => { store with files := delta.files.upserts ∪ store.files },
    fun store => { store with nextDocId := delta.nextDocId.getD store.nextDocId },
    fun store =>
      { store with opencodeDatabases := delta.opencodeDatabases.getD store.opencodeDatabases },
    fun store => { store with pending := delta.pending.apply store.pending },
    fun store => match delta.directoryStamps with
      | none => store
      | some stamps => { store with directories := writeStamps stamps store.directories },
    fun store => { store with journal := delta.journalCursor.or store.journal },
    fun store => { store with scanCache := delta.scanCache.or store.scanCache } ]

/-- The store a committed delta leaves behind. -/
def applyTo (delta : CheckpointDelta) (store : CheckpointStore) : CheckpointStore :=
  delta.statements.foldl (fun store statement => statement store) store

end CheckpointDelta

/-- What a commit reports: an error, or whether anything was written. -/
inductive CommitOutcome where
  | failed
  | committed (changed : Bool)
  deriving DecidableEq, Repr

namespace CheckpointStore

/-- `CheckpointWriter::commit_intent`: replace the pending intent on its own. -/
def commitIntent (store : CheckpointStore) (pending : PendingIngest) (fault : Option Nat) :
    CheckpointStore × Bool :=
  Transaction.commit
    [fun store => { store with pending := (PendingChange.replace pending).apply store.pending }]
    fault store

/-- `CheckpointWriter::commit_delta`: nothing for an idle delta, else one
transaction that a fault rolls back. -/
def commitDelta (store : CheckpointStore) (delta : CheckpointDelta) (fault : Option Nat) :
    CheckpointStore × CommitOutcome :=
  if delta.Idle then (store, .committed false)
  else
    match Transaction.commit delta.statements fault store with
    | (store, true) => (store, .committed true)
    | (store, false) => (store, .failed)

end CheckpointStore

section Reading

variable (store : CheckpointStore) (paths : List String)

private theorem lookup_foldl_absent (result : Table String (Option FileState)) (path : String) :
    (paths.foldl (fun result path => if path ∈ result then result else result.insert path none)
      result).lookup path =
      (result.lookup path).or (if path ∈ paths then some none else none) := by
  induction paths generalizing result with
  | nil => simp
  | cons head rest ih =>
      rw [List.foldl_cons, ih]
      by_cases hmem : head ∈ result
      · obtain ⟨row, hrow⟩ := Finmap.mem_iff.mp hmem
        rw [if_pos hmem]
        by_cases hhead : path = head
        · subst hhead
          simp [hrow]
        · simp [hhead]
      · rw [if_neg hmem, lookup_insert_ite]
        by_cases hhead : path = head
        · subst hhead
          simp [Finmap.lookup_eq_none.mpr hmem]
        · simp [hhead]

/-- Both scopes read the stored row of every requested path and nothing else. -/
theorem lookup_loadFiles (scope : FileLoadScope) (path : String) :
    (store.loadFiles paths scope).lookup path =
      if path ∈ paths then some (store.files.lookup path) else none := by
  cases scope with
  | targeted =>
      simp [CheckpointStore.loadFiles, CheckpointStore.loadTargeted]
  | bulk =>
      simp only [CheckpointStore.loadFiles, CheckpointStore.loadBulk, lookup_foldl_absent,
        lookup_insertAll, Finmap.lookup_empty]
      by_cases hpath : path ∈ paths
      · by_cases hrow : path ∈ store.files
        · simp [hpath, hrow]
        · simp [hpath, hrow, Finmap.lookup_eq_none.mpr hrow]
      · simp [hpath]

end Reading

section Committing

variable {store : CheckpointStore} {delta : CheckpointDelta} {fault : Option Nat}

/-- The statements together, one table at a time. -/
theorem CheckpointDelta.applyTo_eq :
    delta.applyTo store =
      { files := delta.files.apply store.files
        nextDocId := delta.nextDocId.getD store.nextDocId
        opencodeDatabases := delta.opencodeDatabases.getD store.opencodeDatabases
        pending := delta.pending.apply store.pending
        scanCache := delta.scanCache.or store.scanCache
        directories := match delta.directoryStamps with
          | none => store.directories
          | some stamps => writeStamps stamps store.directories
        journal := delta.journalCursor.or store.journal } := by
  unfold CheckpointDelta.applyTo CheckpointDelta.statements Patch.apply
  cases hclear : delta.files.clears <;> cases hstamps : delta.directoryStamps <;> simp

/-- A commit writes nothing, writes the whole delta, or fails and writes
nothing. -/
theorem CheckpointStore.commitDelta_cases (store : CheckpointStore) (delta : CheckpointDelta)
    (fault : Option Nat) :
    (delta.Idle ∧ store.commitDelta delta fault = (store, .committed false)) ∨
      (¬ delta.Idle ∧ store.commitDelta delta fault = (delta.applyTo store, .committed true)) ∨
      (¬ delta.Idle ∧ store.commitDelta delta fault = (store, .failed)) := by
  unfold CheckpointStore.commitDelta
  by_cases hidle : delta.Idle
  · exact .inl ⟨hidle, if_pos hidle⟩
  · rw [if_neg hidle]
    cases hcommit : (Transaction.commit delta.statements fault store).2 with
    | true =>
        have hsplit : Transaction.commit delta.statements fault store =
            (delta.applyTo store, true) :=
          Prod.ext (Transaction.commit_of_committed hcommit) hcommit
        exact .inr (.inl ⟨hidle, by rw [hsplit]⟩)
    | false =>
        have hsplit : Transaction.commit delta.statements fault store = (store, false) :=
          Prod.ext (Transaction.commit_of_failed hcommit) hcommit
        exact .inr (.inr ⟨hidle, by rw [hsplit]⟩)

/-- Committing an intent changes the pending column only, or nothing. -/
theorem CheckpointStore.commitIntent_files (store : CheckpointStore) (pending : PendingIngest)
    (fault : Option Nat) : (store.commitIntent pending fault).1.files = store.files := by
  unfold CheckpointStore.commitIntent
  cases hcommit : (Transaction.commit [fun store : CheckpointStore =>
      { store with pending := (PendingChange.replace pending).apply store.pending }]
        fault store).2 with
  | true => rw [Transaction.commit_of_committed hcommit]; rfl
  | false => rw [Transaction.commit_of_failed hcommit]

end Committing

end Memex.State
