import Mathlib.Algebra.Order.Ring.Int
import Mathlib.Data.Int.ConditionallyCompleteOrder
import Mathlib.Data.String.Basic
import Mathlib.Order.Lattice.Nat
import Memex.Ingest.DirectoryWalk

/-! # Runs of stamped walks

Every full discovery walks from the stamps that the last committed one
persisted. The persisted stamps certify their directories: what they hold is
stamped or tracked itself, as long as a stamp determines the entries of its
directory and the tracked transcripts are known. -/

namespace Memex.Ingest

open Overlay State

section Persist

variable {rows : Table DirectoryPath (String × DirectoryStamp)} {fingerprint : String}

private theorem lookup_foldl_insert_of_notMem (upserts : List (DirectoryPath × DirectoryStamp))
    {path : DirectoryPath} (h : ∀ stamp, (path, stamp) ∉ upserts) :
    (upserts.foldl (fun rows row => rows.insert row.1 (fingerprint, row.2)) rows).lookup path =
      rows.lookup path := by
  induction upserts generalizing rows with
  | nil => rfl
  | cons row upserts ih =>
      rw [List.foldl_cons, ih fun stamp hmem => h stamp (List.mem_cons_of_mem _ hmem)]
      refine Finmap.lookup_insert_of_ne rows fun heq => ?_
      exact h row.2 (heq ▸ List.mem_cons_self)

private theorem lookup_foldl_insert_of_mem (upserts : List (DirectoryPath × DirectoryStamp))
    (hnodup : (upserts.map Prod.fst).Nodup) {path : DirectoryPath} {stamp : DirectoryStamp}
    (h : (path, stamp) ∈ upserts) :
    (upserts.foldl (fun rows row => rows.insert row.1 (fingerprint, row.2)) rows).lookup path =
      some (fingerprint, stamp) := by
  induction upserts generalizing rows with
  | nil => exact absurd h List.not_mem_nil
  | cons row upserts ih =>
      rw [List.map_cons, List.nodup_cons] at hnodup
      rw [List.foldl_cons]
      rcases List.mem_cons.mp h with rfl | h
      · rw [lookup_foldl_insert_of_notMem upserts fun other hmem =>
          hnodup.1 (List.mem_map.mpr ⟨_, hmem, rfl⟩)]
        exact Finmap.lookup_insert rows
      · exact ih hnodup.2 h

private theorem lookup_foldl_erase (deletes : List DirectoryPath) (path : DirectoryPath) :
    (deletes.foldl (fun rows path => rows.erase path) rows).lookup path =
      if path ∈ deletes then none else rows.lookup path := by
  induction deletes generalizing rows with
  | nil => simp
  | cons other deletes ih =>
      rw [List.foldl_cons, ih, lookup_erase_ite]
      by_cases hpath : path = other
      · simp [hpath]
      · simp [hpath]

variable {walk : StampedWalk}

theorem mem_finish_upserts {path : DirectoryPath} {stamp : DirectoryStamp} :
    (path, stamp) ∈ (walk.finish fingerprint).upserts ↔
      walk.next.lookup path = some stamp ∧ walk.previous.lookup path ≠ some stamp := by
  unfold StampedWalk.finish
  rw [List.mem_filter, List.mem_map]
  constructor
  · rintro ⟨⟨row, hrow, heq⟩, hmoved⟩
    obtain ⟨key, value⟩ := row
    cases heq
    exact ⟨AList.mem_lookup_iff.mpr hrow, by simpa using hmoved⟩
  · rintro ⟨hnext, hmoved⟩
    exact ⟨⟨⟨path, stamp⟩, AList.mem_lookup_iff.mp hnext, rfl⟩, by simpa using hmoved⟩

theorem mem_finish_deletes {path : DirectoryPath} :
    path ∈ (walk.finish fingerprint).deletes ↔
      (walk.previous.lookup path).isSome ∧ walk.underRoots path = true ∧
        walk.next.lookup path = none := by
  unfold StampedWalk.finish
  rw [List.mem_filter, ← AList.mem_keys, ← AList.lookup_isSome]
  simp

theorem nodup_finish_upserts : ((walk.finish fingerprint).upserts.map Prod.fst).Nodup := by
  unfold StampedWalk.finish
  refine List.Nodup.sublist (List.Sublist.map _ List.filter_sublist) ?_
  rw [List.map_map]
  exact walk.next.nodupKeys

/-- The stamps stored after a commit. -/
theorem lookup_writeStamps_finish
    (hstored : ∀ path stamp, walk.previous.lookup path = some stamp →
      rows.lookup path = some (fingerprint, stamp)) (path : DirectoryPath) :
    (CheckpointDelta.writeStamps (walk.finish fingerprint) rows).lookup path =
      match walk.next.lookup path with
      | some stamp => some (fingerprint, stamp)
      | none =>
          if (walk.previous.lookup path).isSome ∧ walk.underRoots path = true then none
          else (rows.lookup path).filter fun row => row.1 = fingerprint := by
  have howned : (eraseAll (rows.keys.filter fun path =>
      (rows.lookup path).map Prod.fst ≠ some fingerprint) rows).lookup path =
        (rows.lookup path).filter fun row => row.1 = fingerprint := by
    have hmem : path ∈ rows.keys ↔ (rows.lookup path).isSome = true := by
      rw [Finmap.mem_keys, Finmap.lookup_isSome]
    rw [lookup_eraseAll]
    cases hrow : rows.lookup path with
    | none => simp
    | some row =>
        by_cases hfingerprint : row.1 = fingerprint
        · rw [if_neg (by simp [hrow, hfingerprint]), Option.filter_some,
            if_pos (by simpa using hfingerprint)]
        · rw [if_pos (by simp [hmem, hrow, hfingerprint]), Option.filter_some,
            if_neg (by simpa using hfingerprint)]
  unfold CheckpointDelta.writeStamps
  dsimp only
  cases hnext : walk.next.lookup path with
  | some stamp =>
      dsimp only
      by_cases hprevious : walk.previous.lookup path = some stamp
      · -- an unchanged stamp is neither written nor deleted
        rw [lookup_foldl_insert_of_notMem, lookup_foldl_erase, if_neg]
        · change (eraseAll (rows.keys.filter fun path =>
            (rows.lookup path).map Prod.fst ≠ some fingerprint) rows).lookup path = _
          rw [howned, hstored path stamp hprevious]
          simp
        · rw [mem_finish_deletes, hnext]
          simp
        · intro other hmem
          obtain ⟨hother, hmoved⟩ := mem_finish_upserts.mp hmem
          rw [hnext] at hother
          cases hother
          exact hmoved hprevious
      · exact lookup_foldl_insert_of_mem _ nodup_finish_upserts
          (mem_finish_upserts.mpr ⟨hnext, hprevious⟩)
  | none =>
      rw [lookup_foldl_insert_of_notMem, lookup_foldl_erase]
      · simp only [mem_finish_deletes, hnext, and_true]
        split
        · rfl
        · exact howned
      · intro other hmem
        rw [(mem_finish_upserts.mp hmem).1] at hnext
        cases hnext

end Persist

/-- What a full discovery walks: the tree, the calls that fail in it, the roots
and the tracked files, and the stamps it starts from. -/
structure DirectoryPass where
  tree : Tree
  access : Access tree
  fingerprint : String
  roots : List DirectoryPath
  known : List DirectoryPath
  previous : Stamps

namespace DirectoryPass

variable (pass : DirectoryPass)

def start : StampedWalk :=
  .new pass.previous pass.known

def walk (fuel : Nat) : Option (StampedWalk × List (List DirectoryPath)) :=
  StampedWalk.walkRoots pass.access fuel pass.roots pass.start

/-- Every number of turns that is large enough ends the walk with this result. -/
def Ends (ended : StampedWalk) (yields : List (List DirectoryPath)) : Prop :=
  ∃ steps, ∀ fuel, pass.walk (steps + fuel) = some (ended, yields)

/-- The store after the refresh of the walk is committed. -/
def commit (ended : StampedWalk) (store : CheckpointStore) : CheckpointStore :=
  { store with
    directories := CheckpointDelta.writeStamps (ended.finish pass.fingerprint) store.directories }

variable {pass}

theorem Ends.unique {ended ended' : StampedWalk} {yields yields' : List (List DirectoryPath)}
    (h : pass.Ends ended yields) (h' : pass.Ends ended' yields') :
    ended = ended' ∧ yields = yields' := by
  obtain ⟨steps, hsteps⟩ := h
  obtain ⟨steps', hsteps'⟩ := h'
  have heq := hsteps steps'
  rw [Nat.add_comm, hsteps' steps] at heq
  cases heq
  exact ⟨rfl, rfl⟩

end DirectoryPass

section Runs

variable (content : DirectoryPath → DirectoryStamp → List DirectoryEntry)
  (transcript roots : DirectoryPath → Prop)

/-- A walk that may follow in a run: the stamp of a directory determines its
entries, the stored stamps are loaded, and every transcript that an earlier walk
yielded and that is still there is known. -/
structure DirectoryPass.Follows (pass : DirectoryPass) (store : CheckpointStore)
    (tracked : DirectoryPath → Prop) : Prop where
  certified : ∀ directory, pass.tree.IsDirectory directory → ∀ entry,
    entry ∈ pass.tree.entries directory ↔ entry ∈ content directory (pass.tree.stamp directory)
  roots : ∀ root ∈ pass.roots, roots root
  loaded : ∀ path,
    pass.previous.lookup path = store.loadDirectoryStamps pass.fingerprint path
  known : ∀ file, tracked file → transcript file → pass.tree.kind file = some .file →
    file ∈ pass.known

/-- The stores that a run of committed walks leads to, with the files the walks
yielded. -/
inductive Walks : CheckpointStore → (DirectoryPath → Prop) → Prop
  | start (store : CheckpointStore) (hempty : store.directories = ∅) : Walks store fun _ => False
  | commit {store : CheckpointStore} {tracked : DirectoryPath → Prop} (pass : DirectoryPass)
      (ended : StampedWalk) (yields : List (List DirectoryPath)) :
      Walks store tracked → pass.Follows content transcript roots store tracked →
        pass.Ends ended yields →
          Walks (pass.commit ended store) fun file => tracked file ∨ file ∈ yields.flatten

/-- What the stored stamps stand for. -/
structure StampsStand (store : CheckpointStore) (tracked : DirectoryPath → Prop) : Prop where
  rooted : ∀ path row, store.directories.lookup path = some row → ∃ root, roots root ∧ root <:+ path
  directories : ∀ path row, store.directories.lookup path = some row →
    ∀ name, (name, .directory) ∈ content path row.2 →
      ∃ child, store.directories.lookup (name :: path) = some child ∧ child.1 = row.1
  files : ∀ path row, store.directories.lookup path = some row →
    ∀ name, (name, .file) ∈ content path row.2 → transcript (name :: path) →
      tracked (name :: path)

variable {content transcript roots} {pass : DirectoryPass} {store : CheckpointStore}
  {tracked : DirectoryPath → Prop}

theorem stored_of_previous (hpass : pass.Follows content transcript roots store tracked)
    {path : DirectoryPath} {stamp : DirectoryStamp} :
    pass.previous.lookup path = some stamp ↔
      store.directories.lookup path = some (pass.fingerprint, stamp) := by
  rw [hpass.loaded, CheckpointStore.loadDirectoryStamps]
  cases hrow : store.directories.lookup path with
  | none => simp
  | some row =>
      obtain ⟨fingerprint, other⟩ := row
      by_cases hfingerprint : fingerprint = pass.fingerprint
      · simp [hfingerprint]
      · simp [hfingerprint]

/-- The loaded stamps certify their directories. -/
theorem certified_of_stand (hstand : StampsStand content transcript roots store tracked)
    (hpass : pass.Follows content transcript roots store tracked) :
    Certified pass.tree pass.start transcript := by
  constructor
  · intro directory hdirectory hunchanged name hmem
    have hrow := (stored_of_previous hpass).mp hunchanged
    rw [hpass.certified directory hdirectory] at hmem
    obtain ⟨child, hchild, hfingerprint⟩ := hstand.directories directory _ hrow name hmem
    obtain ⟨fingerprint, stamp⟩ := child
    obtain rfl : fingerprint = pass.fingerprint := hfingerprint
    have hprevious := (stored_of_previous hpass).mpr hchild
    change (pass.previous.lookup (name :: directory)).isSome
    rw [hprevious]
    rfl
  · intro directory hdirectory hunchanged name hmem htranscript
    have hrow := (stored_of_previous hpass).mp hunchanged
    have hkind := (pass.tree.mem_entries directory name .file).mp hmem
    rw [hpass.certified directory hdirectory] at hmem
    exact hpass.known _ (hstand.files directory _ hrow name hmem htranscript) htranscript hkind

/-- Whether a path lies under a root of the walk. -/
def DirectoryPass.Under (pass : DirectoryPass) (path : DirectoryPath) : Prop :=
  ∃ root ∈ pass.roots, root <:+ path

/-- One walk: it ends, its yields are the enumeration, and its stamps stand for
what was read. -/
theorem DirectoryPass.spec (hstand : StampsStand content transcript roots store tracked)
    (hpass : pass.Follows content transcript roots store tracked) :
    ∃ after yields,
      pass.Ends { pass.start with
        next := after, roots := pass.roots.filter (Walked pass.access) } yields ∧
      List.Forall₂ (YieldsEnumerated pass.access pass.start transcript) pass.roots yields ∧
      Kept pass.access pass.start transcript pass.Under [] yields.flatten after := by
  have hempty : Kept pass.access pass.start transcript pass.Under [] [] (∅ : Stamps) := by
    constructor
    · intro directory hsome
      cases hsome
    · intro directory stamp hlookup
      cases hlookup
    · intro directory hsome
      cases hsome
    · intro directory hsome
      cases hsome
  have hunder : ∀ root ∈ pass.roots, ∀ path, root <:+ path → pass.Under path :=
    fun root hroot path hsuffix => ⟨root, hroot, hsuffix⟩
  obtain ⟨steps, yields, after, hends, hyields, hkept⟩ :=
    walkRoots_spec (certified_of_stand hstand hpass) pass.roots [] [] ∅ hunder hempty
  rw [List.nil_append] at hkept
  exact ⟨after, yields, ⟨steps, hends⟩, hyields, hkept⟩

/-- The stored stamps after a committed walk. -/
theorem DirectoryPass.lookup_commit (hpass : pass.Follows content transcript roots store tracked)
    (ended : StampedWalk) (hprevious : ended.previous = pass.previous) (path : DirectoryPath) :
    (pass.commit ended store).directories.lookup path =
      match ended.next.lookup path with
      | some stamp => some (pass.fingerprint, stamp)
      | none =>
          if ended.underRoots path = true then none
          else (store.directories.lookup path).filter fun row => row.1 = pass.fingerprint := by
  have hstored : ∀ path stamp, ended.previous.lookup path = some stamp →
      store.directories.lookup path = some (pass.fingerprint, stamp) := by
    intro path stamp hlookup
    rw [hprevious] at hlookup
    exact (stored_of_previous hpass).mp hlookup
  change (CheckpointDelta.writeStamps (ended.finish pass.fingerprint) store.directories).lookup
    path = _
  rw [lookup_writeStamps_finish hstored]
  cases ended.next.lookup path with
  | some stamp => rfl
  | none =>
      dsimp only
      by_cases hunder : ended.underRoots path = true
      · rw [if_pos hunder]
        split
        · rfl
        · rename_i hnot
          have hnone : ended.previous.lookup path = none := by
            simpa [hunder] using hnot
          rw [hprevious] at hnone
          -- no row of this configuration was loaded
          cases hrow : store.directories.lookup path with
          | none => rfl
          | some row =>
              refine Option.filter_eq_none_iff.mpr fun other hother hfingerprint => ?_
              cases hother
              have hfingerprint : row.1 = pass.fingerprint := by simpa using hfingerprint
              have hloaded : pass.previous.lookup path = some row.2 := by
                rw [stored_of_previous hpass, hrow, ← hfingerprint]
              rw [hnone] at hloaded
              cases hloaded
      · rw [if_neg hunder, if_neg fun h => hunder h.2]

theorem underRoots_iff {walk : StampedWalk} {path : DirectoryPath} :
    walk.underRoots path = true ↔ ∃ root ∈ walk.roots, root <:+ path := by
  simp [StampedWalk.underRoots]

/-- A committed walk leaves stamps that stand again. -/
theorem StampsStand.commit (hroots : ∀ root below, roots root → roots below → root <:+ below →
      root = below)
    (hstand : StampsStand content transcript roots store tracked)
    (hpass : pass.Follows content transcript roots store tracked) {ended : StampedWalk}
    {yields : List (List DirectoryPath)} (hends : pass.Ends ended yields) :
    StampsStand content transcript roots (pass.commit ended store)
      fun file => tracked file ∨ file ∈ yields.flatten := by
  obtain ⟨after, found, hspec, -, hkept⟩ := DirectoryPass.spec hstand hpass
  obtain ⟨rfl, rfl⟩ := hends.unique hspec
  set ended : StampedWalk := { pass.start with
    next := after, roots := pass.roots.filter (Walked pass.access) } with hended
  have hlookup := DirectoryPass.lookup_commit hpass ended rfl
  have hrow : ∀ path row, (pass.commit ended store).directories.lookup path = some row →
      (∃ stamp, after.lookup path = some stamp ∧ row = (pass.fingerprint, stamp)) ∨
        (after.lookup path = none ∧ ended.underRoots path = false ∧
          store.directories.lookup path = some row ∧ row.1 = pass.fingerprint) := by
    intro path row hstored
    rw [hlookup] at hstored
    change (match after.lookup path with | some stamp => _ | none => _) = _ at hstored
    cases hafter : after.lookup path with
    | some stamp =>
        rw [hafter] at hstored
        cases hstored
        exact .inl ⟨stamp, rfl, rfl⟩
    | none =>
        rw [hafter] at hstored
        dsimp only at hstored
        split at hstored
        · cases hstored
        · rename_i hunder
          obtain ⟨hkeep, hfingerprint⟩ := Option.filter_eq_some_iff.mp hstored
          exact .inr ⟨rfl, by simpa using hunder, hkeep, by simpa using hfingerprint⟩
  refine ⟨fun path row hstored => ?_, fun path row hstored name hmem => ?_,
    fun path row hstored name hmem htranscript => ?_⟩
  · rcases hrow path row hstored with ⟨stamp, hafter, -⟩ | ⟨-, -, hkeep, -⟩
    · obtain ⟨root, hroot, hsuffix⟩ := hkept.under path (by rw [hafter]; rfl)
      exact ⟨root, hpass.roots root hroot, hsuffix⟩
    · exact hstand.rooted path row hkeep
  · rcases hrow path row hstored with ⟨stamp, hafter, rfl⟩ | ⟨-, hunder, hkeep, hfingerprint⟩
    · obtain ⟨rfl, hdirectory, -⟩ := hkept.observed path stamp hafter
      rw [← hpass.certified path hdirectory] at hmem
      rcases hkept.closed path (by rw [hafter]; rfl) name hmem with hchild | hpending
      · obtain ⟨child, hchild⟩ := Option.isSome_iff_exists.mp hchild
        refine ⟨(pass.fingerprint, child), ?_, rfl⟩
        rw [hlookup]
        change (match after.lookup (name :: path) with | some stamp => _ | none => _) = _
        rw [hchild]
      · exact absurd hpending List.not_mem_nil
    · obtain ⟨child, hchild, hsame⟩ := hstand.directories path row hkeep name hmem
      have hnew := hlookup (name :: path)
      change _ = (match after.lookup (name :: path) with | some stamp => _ | none => _) at hnew
      cases hafter : after.lookup (name :: path) with
      | some stamp =>
          rw [hafter] at hnew
          exact ⟨(pass.fingerprint, stamp), hnew, hfingerprint.symm⟩
      | none =>
          rw [hafter] at hnew
          dsimp only at hnew
          have houtside : ended.underRoots (name :: path) = false := by
            by_contra hinside
            obtain ⟨root, hroot, hsuffix⟩ :=
              underRoots_iff.mp (Bool.not_eq_false _ ▸ hinside : ended.underRoots _ = true)
            rcases List.suffix_cons_iff.mp hsuffix with heq | hsuffix
            · -- a walked root below a stored stamp lies inside another root
              obtain ⟨outer, houter, habove⟩ := hstand.rooted path row hkeep
              have hwalked : roots root :=
                hpass.roots root (List.mem_of_mem_filter hroot)
              have hbelow : outer <:+ root := heq ▸ habove.trans (List.suffix_cons _ _)
              obtain rfl := hroots outer root houter hwalked hbelow
              have hlength := habove.length_le
              rw [heq] at hlength
              exact absurd hlength (by simp)
            · rw [underRoots_iff.mpr ⟨root, hroot, hsuffix⟩] at hunder
              cases hunder
          rw [houtside, if_neg Bool.false_ne_true, hchild, Option.filter_some,
            if_pos (by simp [hsame, hfingerprint])] at hnew
          exact ⟨child, hnew, hsame⟩
  · rcases hrow path row hstored with ⟨stamp, hafter, rfl⟩ | ⟨-, -, hkeep, -⟩
    · obtain ⟨rfl, hdirectory, -⟩ := hkept.observed path stamp hafter
      rw [← hpass.certified path hdirectory] at hmem
      exact .inr (hkept.found path (by rw [hafter]; rfl) name hmem htranscript)
    · exact .inl (hstand.files path row hkeep name hmem htranscript)

/-- The stamps stored in any run stand for what they certify. -/
theorem Walks.stand (hroots : ∀ root below, roots root → roots below → root <:+ below →
      root = below) (h : Walks content transcript roots store tracked) :
    StampsStand content transcript roots store tracked := by
  induction h with
  | start store hempty =>
      have hnone (path : DirectoryPath) (row : String × DirectoryStamp) :
          store.directories.lookup path ≠ some row := by
        rw [hempty]
        simp
      constructor
      · exact fun path row hrow => absurd hrow (hnone path row)
      · exact fun path row hrow => absurd hrow (hnone path row)
      · exact fun path row hrow => absurd hrow (hnone path row)
  | commit pass ended yields _ hpass hends ih => exact ih.commit hroots hpass hends

end Runs

/-- After any run of committed walks the next walk ends, yields the transcripts
of a fresh enumeration of the readable tree, and its commit keeps no stamp of a
directory that was not read, nor of one above it. -/
theorem stamped_walk_equals_enumeration
    (content : DirectoryPath → DirectoryStamp → List DirectoryEntry)
    (transcript roots : DirectoryPath → Prop) (store : CheckpointStore)
    (tracked : DirectoryPath → Prop) (pass : DirectoryPass)
    (hroots : ∀ root below, roots root → roots below → root <:+ below → root = below)
    (hruns : Walks content transcript roots store tracked)
    (hpass : pass.Follows content transcript roots store tracked) :
    ∃ ended yields, pass.Ends ended yields ∧
      List.Forall₂ (YieldsEnumerated pass.access pass.start transcript) pass.roots yields ∧
      ∀ root ∈ pass.roots, Walked pass.access root → ∀ directory, root <:+ directory →
        Hides pass.access pass.start directory →
          (pass.commit ended store).directories.lookup directory = none := by
  obtain ⟨after, yields, hends, hyields, hkept⟩ := DirectoryPass.spec (hruns.stand hroots) hpass
  refine ⟨_, yields, hends, hyields, fun root hroot hwalked directory hsuffix hhides => ?_⟩
  have hunder : StampedWalk.underRoots { pass.start with
      next := after, roots := pass.roots.filter (Walked pass.access) } directory = true :=
    underRoots_iff.mpr ⟨root, List.mem_filter.mpr ⟨hroot, by simpa using hwalked⟩, hsuffix⟩
  rw [DirectoryPass.lookup_commit hpass _ rfl, hunder]
  dsimp only
  rw [hkept.not_hides hhides]
  rfl

section Trees

theorem le_foldr_max {lengths : List Nat} {length : Nat} (h : length ∈ lengths) :
    length ≤ lengths.foldr max 0 := by
  induction lengths with
  | nil => exact absurd h List.not_mem_nil
  | cons first lengths ih =>
      rw [List.foldr_cons]
      obtain rfl | hlater := List.mem_cons.mp h
      · exact le_max_left _ _
      · exact (ih hlater).trans (le_max_right _ _)

/-- The tree with the given items and no symlinks. -/
def Tree.ofItems (items : AList fun _ : DirectoryPath => EntryKind)
    (stamp : DirectoryPath → DirectoryStamp) : Tree where
  kind path := items.lookup path
  target path := items.lookup path
  stamp
  entries directory := items.entries.filterMap fun item =>
    match item.1 with
    | [] => none
    | name :: above => if above = directory then some (name, item.2) else none
  depth := (items.keys.map List.length).foldr max 0
  mem_entries directory name kind := by
    rw [List.mem_filterMap, ← Option.mem_def, AList.mem_lookup_iff]
    constructor
    · rintro ⟨⟨path, found⟩, hitem, heq⟩
      cases path with
      | nil => cases heq
      | cons other above =>
          dsimp only at heq
          split at heq
          · rename_i habove
            cases heq
            exact habove ▸ hitem
          · cases heq
    · intro hitem
      exact ⟨_, hitem, by simp⟩
  bounded path hkind := by
    have hkey : path ∈ items.keys := by
      rw [← AList.mem_keys, ← AList.lookup_isSome, hkind]
      rfl
    exact le_foldr_max (List.mem_map.mpr ⟨path, hkey, rfl⟩)

/-- Access to a tree in which some stat calls and some reads fail. -/
def Access.failing (tree : Tree) (closed unreadable : List DirectoryPath) : Access tree where
  statFails path := decide (path ∈ closed)
  readDir directory :=
    if directory ∈ unreadable then .failed else .listed (tree.entries directory) true
  mem_of_listed directory entries complete hread entry hentry := by
    split at hread
    · cases hread
    · cases hread
      exact hentry
  mem_of_complete directory entries hread entry hentry := by
    split at hread
    · cases hread
    · cases hread
      exact hentry

/-- The directory `projects/a`. -/
def projectDirectory : DirectoryPath :=
  ["a", "projects"]

def projectTranscript : DirectoryPath :=
  "one.jsonl" :: projectDirectory

/-- A root with one directory that holds the given files. -/
def projectTree (files : List String) (stamp : DirectoryStamp) : Tree :=
  .ofItems (files.foldl (fun items name => items.insert (name :: projectDirectory) .file)
      ((AList.singleton projectDirectory EntryKind.directory).insert ["projects"] .directory))
    fun path => if path = projectDirectory then stamp else default

/-- The stamps after a walk of the tree. -/
def projectStamps : Stamps :=
  (AList.singleton projectDirectory default).insert ["projects"] default

def projectStore : CheckpointStore where
  directories := (Finmap.singleton projectDirectory ("", default)).insert ["projects"] ("", default)

/-- A walk of the tree in which some calls fail. -/
def projectPass (tree : Tree) (closed unreadable roots known : List DirectoryPath)
    (previous : Stamps) : DirectoryPass where
  tree
  access := .failing tree closed unreadable
  fingerprint := ""
  roots
  known
  previous

/-- The directory `projects/b`. -/
def otherProject : DirectoryPath :=
  ["b", "projects"]

/-- A root with two directories, of which the second holds the given files. -/
def twoProjects (files : List String) (stamp : DirectoryStamp) : Tree :=
  .ofItems (files.foldl (fun items name => items.insert (name :: otherProject) .file)
      ((((AList.singleton projectDirectory EntryKind.directory).insert
        projectTranscript .file).insert otherProject .directory).insert ["projects"] .directory))
    fun path => if path = otherProject then stamp else default

/-- The stamp of the second directory once a file was added. -/
def movedStamp : DirectoryStamp :=
  { (default : DirectoryStamp) with inode := 1 }

/-- The first walk reads both directories. -/
def firstPass : DirectoryPass :=
  projectPass (twoProjects ["two.jsonl"] default) [] [] [["projects"]] [] ∅

def firstEnd : StampedWalk :=
  { firstPass.start with
    next := (((∅ : Stamps).insert ["projects"] default).insert projectDirectory default).insert
      otherProject default
    roots := [["projects"]] }

def firstYields : List (List DirectoryPath) :=
  [[projectTranscript, "two.jsonl" :: otherProject]]

/-- In the second walk the directory a file was added to cannot be read, and nothing else moved. -/
def secondPass : DirectoryPass :=
  projectPass (twoProjects ["two.jsonl", "three.jsonl"] movedStamp) [] [otherProject]
    [["projects"]] firstYields.flatten firstEnd.next

/-- What the directories hold, by their stamps. -/
def projectContent (directory : DirectoryPath) (stamp : DirectoryStamp) : List DirectoryEntry :=
  if directory = otherProject ∧ stamp = movedStamp then secondPass.tree.entries directory
  else firstPass.tree.entries directory

theorem firstPass_ends : firstPass.Ends firstEnd firstYields := by
  refine ⟨3, fun fuel => ?_⟩
  rw [Nat.add_comm]
  cases fuel with
  | zero => rfl
  | succ fuel => rfl

theorem firstPass_follows :
    firstPass.Follows projectContent (fun _ => True) (fun root => root = ["projects"]) {}
      fun _ => False := by
  have hstamp : ∀ directory, firstPass.tree.stamp directory = default := fun _ => ite_self _
  constructor
  · intro directory _ entry
    rw [projectContent, if_neg]
    rintro ⟨-, hmoved⟩
    rw [hstamp] at hmoved
    revert hmoved
    decide
  · exact fun root hroot => List.mem_singleton.mp hroot
  · exact fun _ => rfl
  · exact fun _ hfile => hfile.elim

theorem secondPass_follows :
    secondPass.Follows projectContent (fun _ => True) (fun root => root = ["projects"])
      (firstPass.commit firstEnd {}) fun file => False ∨ file ∈ firstYields.flatten := by
  constructor
  · intro directory _ entry
    by_cases hdirectory : directory = otherProject
    · have hstamp : secondPass.tree.stamp directory = movedStamp := if_pos hdirectory
      rw [projectContent, if_pos ⟨hdirectory, hstamp⟩]
    · rw [projectContent, if_neg fun h => hdirectory h.1]
      -- the added file is not in this directory
      obtain ⟨name, kind⟩ := entry
      rw [secondPass.tree.mem_entries, firstPass.tree.mem_entries]
      have hadded : name :: directory ≠ "three.jsonl" :: otherProject := by
        intro heq
        exact hdirectory (List.cons.inj heq).2
      have hlookup : secondPass.tree.kind (name :: directory) =
          firstPass.tree.kind (name :: directory) := AList.lookup_insert_ne hadded
      rw [hlookup]
  · exact fun root hroot => List.mem_singleton.mp hroot
  · intro path
    have hcommit := DirectoryPass.lookup_commit firstPass_follows firstEnd rfl path
    rw [CheckpointStore.loadDirectoryStamps, hcommit]
    change firstEnd.next.lookup path = _
    cases firstEnd.next.lookup path with
    | some stamp => rfl
    | none =>
        have hstored : ({} : CheckpointStore).directories.lookup path = none :=
          Finmap.lookup_empty path
        dsimp only
        rw [hstored, Option.filter_none, ite_self]
  · rintro file (hfile | hfile) - -
    · exact hfile.elim
    · exact hfile

/-- The second walk yields the transcript of the directory it does not read again, and drops the
stamp of the one it could not read with the stamp of the root above it. -/
theorem second_walk_equals_enumeration :
    (secondPass.start.Unchanged secondPass.tree projectDirectory ∧
      Unreadable secondPass.access secondPass.start otherProject) ∧
    ∃ ended yields, secondPass.Ends ended yields ∧
      List.Forall₂ (YieldsEnumerated secondPass.access secondPass.start fun _ => True)
        secondPass.roots yields ∧
      Enumerated secondPass.access secondPass.start ["projects"] projectTranscript ∧
      ∀ directory ∈ [otherProject, ["projects"]],
        (firstPass.commit firstEnd {}).directories.lookup directory = some ("", default) ∧
          (secondPass.commit ended (firstPass.commit firstEnd {})).directories.lookup directory =
            none := by
  have hruns : Walks projectContent (fun _ => True) (fun root => root = ["projects"])
      (firstPass.commit firstEnd {}) fun file => False ∨ file ∈ firstYields.flatten :=
    .commit firstPass firstEnd firstYields (.start {} rfl) firstPass_follows firstPass_ends
  have hroots : ∀ root below : DirectoryPath, root = ["projects"] → below = ["projects"] →
      root <:+ below → root = below := by
    rintro root below rfl rfl -
    rfl
  obtain ⟨ended, yields, hends, hyields, hdropped⟩ := stamped_walk_equals_enumeration projectContent
    (fun _ => True) (fun root => root = ["projects"]) _ _ secondPass hroots hruns secondPass_follows
  have hunread : Unreadable secondPass.access secondPass.start otherProject :=
    .inr ⟨by decide, fun entries hread => by cases hread⟩
  have hhides : Hides secondPass.access secondPass.start ["projects"] :=
    .inside (show ("b", EntryKind.directory) ∈ _ by decide) (.unreadable hunread)
  refine ⟨⟨by decide, hunread⟩, ended, yields, hends, hyields, ?_, fun directory hmem => ?_⟩
  · exact ⟨rfl, .inr ⟨by decide, _, _, rfl, .child .root (by decide) rfl, by decide⟩⟩
  · obtain rfl | hmem := List.mem_cons.mp hmem
    · refine ⟨by decide, hdropped ["projects"] List.mem_cons_self ?_ _ ?_ (.unreadable hunread)⟩
      · decide
      · decide
    · obtain rfl := List.mem_singleton.mp hmem
      refine ⟨by decide, hdropped ["projects"] List.mem_cons_self ?_ _ ?_ hhides⟩
      · decide
      · decide

/-- Where a stamped walk is not a fresh enumeration: it yields a tracked
transcript that is gone; it does not notice a failing read below an unchanged
stamp; it keeps the stamps under a root it cannot stat; with the file rows
cleared it keeps the stamp of a directory it could not read, and the next walk
misses the transcript there; and a root inside another root that cannot be
stat-ed leaves the outer stamps without it. -/
theorem stamped_walk_misses_enumeration :
    let tree := projectTree ["one.jsonl"] default
    let gone := projectPass (projectTree [] default) [] [] [["projects"]] [projectTranscript]
      projectStamps
    let unread := projectPass tree [] [projectDirectory] [["projects"]] [projectTranscript]
      projectStamps
    let closed := projectPass tree [["projects"]] [] [["projects"]] [projectTranscript]
      projectStamps
    let cleared := projectPass tree [] [projectDirectory] [["projects"]] [] ∅
    let next := projectPass tree [] [] [["projects"]] [] projectStamps
    let moved := projectTree ["one.jsonl"] { (default : DirectoryStamp) with inode := 1 }
    let nested := projectPass moved [["projects"]] [projectDirectory]
      [["projects"], projectDirectory] [projectTranscript] projectStamps
    let outer := projectPass moved [] [] [["projects"], projectDirectory] [projectTranscript]
      (AList.singleton ["projects"] default)
    ((gone.walk 2).map Prod.snd = some [[projectTranscript]] ∧
      gone.tree.kind projectTranscript = none) ∧
    ((unread.walk 2).map Prod.snd = some [[projectTranscript]] ∧
      ¬ Enumerated unread.access (.new ∅ []) ["projects"] projectTranscript) ∧
    (closed.walk 2).map (fun result =>
      (closed.commit result.1 projectStore).directories.lookup ["projects"]) =
        some (some ("", default)) ∧
    ((cleared.walk 2).map (fun result =>
        (cleared.commit result.1 projectStore).directories.lookup projectDirectory) =
          some (some ("", default)) ∧
      (next.walk 2).map Prod.snd = some [[]] ∧
      Enumerated next.access (.new ∅ []) ["projects"] projectTranscript) ∧
    ((nested.walk 2).map (fun result =>
        (nested.commit result.1 projectStore).directories.lookup projectDirectory) = some none ∧
      (nested.walk 2).map (fun result =>
        (nested.commit result.1 projectStore).directories.lookup ["projects"]) =
          some (some ("", default)) ∧
      (outer.walk 2).map Prod.snd = some [[], [projectTranscript]] ∧
      Enumerated outer.access (.new ∅ []) ["projects"] projectTranscript) := by
  refine ⟨⟨by decide, by decide⟩, ⟨by decide, ?_⟩, by decide, ⟨by decide, by decide, ?_⟩,
    by decide, by decide, by decide, ?_⟩
  · rintro ⟨-, ⟨hfile, -⟩ | ⟨-, name, directory, heq, -, hmem⟩⟩
    · revert hfile
      decide
    · cases heq
      revert hmem
      decide
  · exact ⟨rfl, .inr ⟨by decide, _, _, rfl, .child .root (by decide) rfl, by decide⟩⟩
  · exact ⟨rfl, .inr ⟨by decide, _, _, rfl, .child .root (by decide) rfl, by decide⟩⟩

end Trees

end Memex.Ingest
