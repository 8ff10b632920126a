import Mathlib.Data.List.AList
import Memex.Lib.Worklist
import Memex.State.Checkpoint

/-! # The stamped walk

`StampedWalk` of `ingest/directories.rs`: a full discovery enumerates only the
directories whose stamp moved since the last successful refresh, and rebuilds
the others from the persisted stamps and the tracked files. -/

namespace Memex.Ingest

open State

inductive EntryKind where
  | directory
  | file
  /-- A symlink or a special file. -/
  | other
  deriving DecidableEq, Repr

/-- A name in a directory, with its kind. -/
abbrev DirectoryEntry := String × EntryKind

/-- The tree as it stands during one walk. A directory is known by the path that
leads to it, so that a symlinked root has entries of its own. -/
structure Tree where
  /-- What stands at a path. -/
  kind : DirectoryPath → Option EntryKind
  /-- What a path leads to when symlinks are followed. -/
  target : DirectoryPath → Option EntryKind
  stamp : DirectoryPath → DirectoryStamp
  entries : DirectoryPath → List DirectoryEntry
  depth : Nat
  mem_entries : ∀ directory name kind',
    (name, kind') ∈ entries directory ↔ kind (name :: directory) = some kind'
  bounded : ∀ path, kind path = some .directory → path.length ≤ depth

/-- What `read_dir` and the iteration over its entries give. -/
inductive ReadDir where
  | failed
  | listed (entries : List DirectoryEntry) (complete : Bool)
  deriving DecidableEq

/-- What one walk gets to see of the tree: any stat call and any read may
fail, and a read may lose entries. -/
structure Access (tree : Tree) where
  statFails : DirectoryPath → Bool
  readDir : DirectoryPath → ReadDir
  mem_of_listed : ∀ directory entries complete, readDir directory = .listed entries complete →
    ∀ entry ∈ entries, entry ∈ tree.entries directory
  mem_of_complete : ∀ directory entries, readDir directory = .listed entries true →
    ∀ entry ∈ tree.entries directory, entry ∈ entries

/-- The part of `fs::Metadata` that the walk looks at. -/
structure PathMetadata where
  kind : EntryKind
  stamp : DirectoryStamp
  deriving DecidableEq

/-- `fs::metadata`: follows symlinks. -/
def Access.metadata {tree : Tree} (access : Access tree) (path : DirectoryPath) :
    Option PathMetadata :=
  if access.statFails path then none
  else (tree.target path).map fun kind => ⟨kind, tree.stamp path⟩

/-- `fs::symlink_metadata`. -/
def Access.symlinkMetadata {tree : Tree} (access : Access tree) (path : DirectoryPath) :
    Option PathMetadata :=
  if access.statFails path then none
  else (tree.kind path).map fun kind => ⟨kind, tree.stamp path⟩

/-- Directory stamps by path. -/
abbrev Stamps := AList fun _ : DirectoryPath => DirectoryStamp

structure StampedWalk where
  previous : Stamps
  known : List DirectoryPath
  next : Stamps
  roots : List DirectoryPath

/-- `Path::parent`. -/
def parentDirectory : DirectoryPath → Option DirectoryPath
  | [] => none
  | _ :: path => some path

/-- A directory on the stack, with its metadata when it is the root. -/
abbrev PendingDirectory := DirectoryPath × Option PathMetadata

namespace StampedWalk

/-- A walk from the stamps of the last successful refresh and the tracked
files. -/
def new (previous : Stamps) (known : List DirectoryPath) : StampedWalk where
  previous
  known
  next := ∅
  roots := []

variable (walk : StampedWalk)

def childDirectories (directory : DirectoryPath) : List DirectoryPath :=
  walk.previous.keys.filter fun child => parentDirectory child = some directory

def knownFiles (directory : DirectoryPath) : List DirectoryPath :=
  walk.known.filter fun file => parentDirectory file = some directory

/-- Drop every stamp on the way from a root down to the directory. -/
def forgetAncestors (previous : Stamps) : DirectoryPath → Stamps → Stamps
  | [], next => next
  | _ :: path, next =>
      if next.lookup path = none ∧ previous.lookup path = none then next
      else forgetAncestors previous path (next.erase path)

/-- The paths of the listed entries of one kind. -/
def entryPaths (directory : DirectoryPath) (kind : EntryKind) (entries : List DirectoryEntry) :
    List DirectoryPath :=
  (entries.filter fun entry => entry.2 = kind).map fun entry => entry.1 :: directory

/-- One turn of the loop: the files found so far and the stamps to keep, and the
directories to push. -/
def visit {tree : Tree} (access : Access tree) (item : PendingDirectory)
    (state : List DirectoryPath × Stamps) :
    (List DirectoryPath × Stamps) × List PendingDirectory :=
  let (directory, metadata) := item
  let (files, next) := state
  match metadata.or (access.symlinkMetadata directory) with
  | none => ((files, forgetAncestors walk.previous directory next), [])
  | some metadata =>
      if metadata.kind ≠ .directory then (state, [])
      else if walk.previous.lookup directory = some metadata.stamp then
        ((files ++ walk.knownFiles directory, next.insert directory metadata.stamp),
          (walk.childDirectories directory).map fun child => (child, none))
      else
        match access.readDir directory with
        | .failed => ((files, forgetAncestors walk.previous directory next), [])
        | .listed entries complete =>
            ((files ++ entryPaths directory .file entries,
                if complete then next.insert directory metadata.stamp
                else forgetAncestors walk.previous directory next),
              (entryPaths directory .directory entries).map fun child => (child, none))

/-- `StampedWalk::files`: the files below a root, with at most the given number
of turns. -/
def files {tree : Tree} (access : Access tree) (fuel : Nat) (root : DirectoryPath) :
    Option (StampedWalk × List DirectoryPath) :=
  match access.metadata root with
  | none => some (walk, [])
  | some metadata =>
      match metadata.kind with
      | .file => some (walk, [root])
      | .other => some (walk, [])
      | .directory =>
          (Worklist.run (walk.visit access) fuel [(root, some metadata)] ([], walk.next)).map
            fun (files, next) => ({ walk with next, roots := walk.roots ++ [root] }, files)

/-- Whether a directory lies under a walked root. -/
def underRoots (path : DirectoryPath) : Bool :=
  walk.roots.any fun root => root <:+ path

/-- The stamps that moved, and the previous ones under the walked roots that were
not observed again. -/
def finish (fingerprint : String) : DirectoryStampUpdate where
  fingerprint
  upserts := (walk.next.entries.map fun row => (row.1, row.2)).filter fun row =>
    walk.previous.lookup row.1 ≠ some row.2
  deletes := walk.previous.keys.filter fun directory =>
    walk.underRoots directory && (walk.next.lookup directory).isNone

section Forget

variable {previous next : Stamps} {directory path : DirectoryPath}

theorem lookup_of_forgetAncestors {stamp : DirectoryStamp}
    (h : (forgetAncestors previous directory next).lookup path = some stamp) :
    next.lookup path = some stamp := by
  induction directory generalizing next with
  | nil => exact h
  | cons name above ih =>
      unfold forgetAncestors at h
      split at h
      · exact h
      · have herased := ih h
        by_cases hpath : path = above
        · subst hpath
          rw [AList.lookup_erase] at herased
          cases herased
        · rwa [AList.lookup_erase_ne hpath] at herased

theorem forgetAncestors_parent (name : String) :
    (forgetAncestors previous (name :: path) next).lookup path = none := by
  unfold forgetAncestors
  split
  · rename_i hnone
    exact hnone.1
  · cases hlookup : (forgetAncestors previous path (next.erase path)).lookup path with
    | none => rfl
    | some stamp =>
        have herased := lookup_of_forgetAncestors hlookup
        rw [AList.lookup_erase] at herased
        cases herased

/-- A stamp that is dropped takes the stamp of its parent with it. -/
theorem forgetAncestors_closed {name : String} (hkept : (next.lookup (name :: path)).isSome)
    (hforgotten : (forgetAncestors previous directory next).lookup (name :: path) = none) :
    (forgetAncestors previous directory next).lookup path = none := by
  induction directory generalizing next with
  | nil =>
      rw [forgetAncestors] at hforgotten
      rw [hforgotten] at hkept
      cases hkept
  | cons inner above ih =>
      unfold forgetAncestors at hforgotten ⊢
      split at hforgotten
      · rw [hforgotten] at hkept
        cases hkept
      · rename_i hcase
        rw [if_neg hcase]
        by_cases habove : name :: path = above
        · subst habove
          exact forgetAncestors_parent name
        · refine ih ?_ hforgotten
          rwa [AList.lookup_erase_ne habove]

end Forget

section Visit

variable {tree : Tree} (access : Access tree)

/-- Whether the stamp of a directory is the one of the last refresh. -/
def Unchanged (tree : Tree) (directory : DirectoryPath) : Prop :=
  walk.previous.lookup directory = some (tree.stamp directory)

instance (directory : DirectoryPath) : Decidable (walk.Unchanged tree directory) :=
  inferInstanceAs (Decidable (_ = _))

/-- A directory on the stack whose stat call succeeds. -/
def Opened (item : PendingDirectory) : Prop :=
  access.statFails item.1 = false ∧
    ((item.2 = none ∧ tree.kind item.1 = some .directory) ∨
      (item.2 = some ⟨.directory, tree.stamp item.1⟩ ∧ tree.target item.1 = some .directory))

/-- What one turn of the loop can do. -/
inductive Visit (item : PendingDirectory) (files : List DirectoryPath) (next : Stamps) :
    (List DirectoryPath × Stamps) × List PendingDirectory → Prop
  | lost (hclosed : ¬ Opened access item) (hbelow : item.2 = none) :
      Visit item files next ((files, forgetAncestors walk.previous item.1 next), [])
  | passed (hclosed : ¬ Opened access item) (hbelow : item.2 = none)
      (hkind : tree.kind item.1 ≠ some .directory) : Visit item files next ((files, next), [])
  | reused (hopened : Opened access item) (hunchanged : walk.Unchanged tree item.1) :
      Visit item files next
        ((files ++ walk.knownFiles item.1, next.insert item.1 (tree.stamp item.1)),
          (walk.childDirectories item.1).map fun child => (child, none))
  | unread (hopened : Opened access item) (hchanged : ¬ walk.Unchanged tree item.1)
      (hread : access.readDir item.1 = .failed) :
      Visit item files next ((files, forgetAncestors walk.previous item.1 next), [])
  | listed (entries : List DirectoryEntry) (complete : Bool) (hopened : Opened access item)
      (hchanged : ¬ walk.Unchanged tree item.1)
      (hread : access.readDir item.1 = .listed entries complete) :
      Visit item files next
        ((files ++ entryPaths item.1 .file entries,
            if complete then next.insert item.1 (tree.stamp item.1)
            else forgetAncestors walk.previous item.1 next),
          (entryPaths item.1 .directory entries).map fun child => (child, none))

variable {walk access}

theorem visit_cases {item : PendingDirectory} {files : List DirectoryPath} {next : Stamps}
    (hitem : item.2 = none ∨ Opened access item) :
    Visit walk access item files next (walk.visit access item (files, next)) := by
  obtain ⟨directory, metadata⟩ := item
  by_cases hopened : Opened access (directory, metadata)
  · have hmetadata : metadata.or (access.symlinkMetadata directory) =
        some ⟨.directory, tree.stamp directory⟩ := by
      obtain ⟨hstat, ⟨hnone, hkind⟩ | ⟨hsome, -⟩⟩ := hopened
      · dsimp only at hnone hstat hkind
        rw [hnone, Option.none_or, Access.symlinkMetadata, hstat, hkind]
        rfl
      · dsimp only at hsome
        rw [hsome, Option.some_or]
    unfold visit
    dsimp only
    rw [hmetadata]
    dsimp only
    rw [if_neg (by simp)]
    split
    · rename_i hunchanged
      exact .reused hopened hunchanged
    · rename_i hchanged
      split
      · rename_i hread
        exact .unread hopened hchanged hread
      · rename_i entries complete hread
        exact .listed entries complete hopened hchanged hread
  · have hnone : metadata = none := by
      rcases hitem with hnone | hopen
      · exact hnone
      · exact absurd hopen hopened
    subst hnone
    unfold visit
    dsimp only
    rw [Option.none_or]
    cases hmetadata : access.symlinkMetadata directory with
    | none => exact .lost hopened rfl
    | some metadata =>
        have hkind : tree.kind directory = some metadata.kind ∧
            access.statFails directory = false := by
          unfold Access.symlinkMetadata at hmetadata
          split at hmetadata
          · cases hmetadata
          · rename_i hstat
            obtain ⟨kind, hkind, rfl⟩ := Option.map_eq_some_iff.mp hmetadata
            exact ⟨hkind, by simpa using hstat⟩
        have hother : metadata.kind ≠ .directory := by
          intro hdirectory
          exact hopened ⟨hkind.2, .inl ⟨rfl, by rw [hkind.1, hdirectory]⟩⟩
        dsimp only
        rw [if_pos hother]
        refine .passed hopened rfl ?_
        rw [hkind.1]
        exact fun hdirectory => hother (Option.some.inj hdirectory)

end Visit

end StampedWalk

end Memex.Ingest
