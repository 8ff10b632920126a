import Memex.Ingest.Directories

/-! # One stamped walk

A walk whose previous stamps certify the entries of their directories yields
the transcripts of a recursive enumeration of what it can read, and keeps a
stamp only where everything below was read too. -/

namespace Memex.Ingest

open State

/-- The directories that a recursive enumeration gets to, by the entries it sees
in each and the directories it can open. -/
inductive Reachable (entries : DirectoryPath → List DirectoryEntry)
    (opens : DirectoryPath → Prop) (root : DirectoryPath) : DirectoryPath → Prop
  | root : Reachable entries opens root root
  | child {directory : DirectoryPath} {name : String} :
      Reachable entries opens root directory → (name, .directory) ∈ entries directory →
        opens (name :: directory) → Reachable entries opens root (name :: directory)

namespace Reachable

variable {entries : DirectoryPath → List DirectoryEntry} {opens : DirectoryPath → Prop}
  {root directory path : DirectoryPath}

theorem root_suffix (h : Reachable entries opens root directory) : root <:+ directory := by
  induction h with
  | root => exact List.suffix_refl root
  | child _ _ _ ih => exact ih.trans (List.suffix_cons _ _)

/-- Every directory on the way from the root was reached. -/
theorem of_suffix (h : Reachable entries opens root directory) (hroot : root <:+ path)
    (hpath : path <:+ directory) : Reachable entries opens root path := by
  induction h with
  | root =>
      obtain rfl : path = root := (hpath.eq_of_length_le hroot.length_le)
      exact .root
  | @child above name hreach hmem hopens ih =>
      rcases List.suffix_cons_iff.mp hpath with rfl | hpath
      · exact .child hreach hmem hopens
      · exact ih hpath

/-- The way down from a reached directory to one below it starts with one of its
entries. -/
theorem next_of_suffix (h : Reachable entries opens root directory)
    (hpath : Reachable entries opens root path) (hsuffix : path <:+ directory) :
    path = directory ∨
      ∃ name, (name, .directory) ∈ entries path ∧ name :: path <:+ directory := by
  induction h with
  | root => exact .inl (hsuffix.eq_of_length_le hpath.root_suffix.length_le)
  | @child above name hreach hmem hopens ih =>
      rcases List.suffix_cons_iff.mp hsuffix with rfl | hsuffix
      · exact .inl rfl
      · rcases ih hsuffix with rfl | ⟨inner, hinner, hbelow⟩
        · exact .inr ⟨name, hmem, List.suffix_refl _⟩
        · exact .inr ⟨inner, hinner, hbelow.trans (List.suffix_cons _ _)⟩

theorem inv_child {name : String} (h : Reachable entries opens root (name :: directory))
    (hroot : root <:+ directory) : (name, .directory) ∈ entries directory ∧
      opens (name :: directory) := by
  cases h with
  | root => exact absurd hroot.length_le (by simp)
  | child _ hmem hopens => exact ⟨hmem, hopens⟩

end Reachable

variable {tree : Tree} (access : Access tree) (walk : StampedWalk)

/-- The entries of a directory that can be read: all of them where the stamp is
unchanged, since no read is made there. -/
def readableEntries (directory : DirectoryPath) : List DirectoryEntry :=
  if walk.Unchanged tree directory then tree.entries directory
  else match access.readDir directory with
    | .failed => []
    | .listed entries _ => entries

/-- Directories of the readable tree below a root. -/
def Readable (root : DirectoryPath) : DirectoryPath → Prop :=
  Reachable (readableEntries access walk) (fun path => access.statFails path = false) root

/-- The files that a fresh recursive enumeration of the readable tree finds. -/
def Enumerated (root file : DirectoryPath) : Prop :=
  access.statFails root = false ∧
    ((tree.target root = some .file ∧ file = root) ∨
      (tree.target root = some .directory ∧ ∃ name directory, file = name :: directory ∧
        Readable access walk root directory ∧
          (name, .file) ∈ readableEntries access walk directory))

/-- A directory whose entries were not all seen. -/
def Unreadable (directory : DirectoryPath) : Prop :=
  access.statFails directory = true ∨
    (¬ walk.Unchanged tree directory ∧
      ∀ entries, access.readDir directory ≠ .listed entries true)

/-- An unreadable directory, or one with a way down to an unreadable one. -/
inductive Hides : DirectoryPath → Prop
  | unreadable {directory : DirectoryPath} : Unreadable access walk directory → Hides directory
  | inside {directory : DirectoryPath} {name : String} :
      (name, .directory) ∈ readableEntries access walk directory → Hides (name :: directory) →
        Hides directory

def Tree.IsDirectory (tree : Tree) (path : DirectoryPath) : Prop :=
  tree.kind path = some .directory ∨ tree.target path = some .directory

variable (tree) (transcript : DirectoryPath → Prop) in
/-- The previous stamps that are unchanged certify their directories: the
subdirectories are stamped and the transcripts are tracked. -/
structure Certified : Prop where
  directories : ∀ directory, tree.IsDirectory directory → walk.Unchanged tree directory →
    ∀ name, (name, .directory) ∈ tree.entries directory →
      (walk.previous.lookup (name :: directory)).isSome
  files : ∀ directory, tree.IsDirectory directory → walk.Unchanged tree directory →
    ∀ name, (name, .file) ∈ tree.entries directory → transcript (name :: directory) →
      name :: directory ∈ walk.known

variable {access walk}

theorem mem_tree_of_readable {directory : DirectoryPath} {entry : DirectoryEntry}
    (h : entry ∈ readableEntries access walk directory) : entry ∈ tree.entries directory := by
  unfold readableEntries at h
  split at h
  · exact h
  · split at h
    · exact absurd h List.not_mem_nil
    · rename_i entries complete hread
      exact access.mem_of_listed directory entries complete hread entry h

theorem mem_entryPaths {directory path : DirectoryPath} {kind : EntryKind}
    {entries : List DirectoryEntry} : path ∈ StampedWalk.entryPaths directory kind entries ↔
      ∃ name, path = name :: directory ∧ (name, kind) ∈ entries := by
  unfold StampedWalk.entryPaths
  rw [List.mem_map]
  constructor
  · rintro ⟨⟨name, found⟩, hentry, rfl⟩
    obtain ⟨hmem, hkind⟩ := List.mem_filter.mp hentry
    obtain rfl : found = kind := by simpa using hkind
    exact ⟨name, rfl, hmem⟩
  · rintro ⟨name, rfl, hmem⟩
    exact ⟨(name, kind), List.mem_filter.mpr ⟨hmem, by simp⟩, rfl⟩

theorem mem_childDirectories {directory path : DirectoryPath} :
    path ∈ walk.childDirectories directory ↔
      (walk.previous.lookup path).isSome ∧ parentDirectory path = some directory := by
  unfold StampedWalk.childDirectories
  rw [List.mem_filter, ← AList.mem_keys, AList.lookup_isSome]
  simp

theorem mem_knownFiles {directory path : DirectoryPath} :
    path ∈ walk.knownFiles directory ↔
      path ∈ walk.known ∧ parentDirectory path = some directory := by
  unfold StampedWalk.knownFiles
  rw [List.mem_filter]
  simp

theorem eq_cons_of_parentDirectory {path directory : DirectoryPath}
    (h : parentDirectory path = some directory) : ∃ name, path = name :: directory := by
  cases path with
  | nil => cases h
  | cons name above =>
      cases h
      exact ⟨name, rfl⟩

theorem isDirectory_of_opened {item : PendingDirectory}
    (h : StampedWalk.Opened access item) : tree.IsDirectory item.1 := by
  obtain ⟨-, ⟨-, hkind⟩ | ⟨-, htarget⟩⟩ := h
  · exact .inl hkind
  · exact .inr htarget

section Loop

variable (access walk) (transcript walked : DirectoryPath → Prop) (root : DirectoryPath)

/-- What stands on the stack: the root, or an entry of a reached directory. -/
def Pushed (item : PendingDirectory) : Prop :=
  (item.1 = root ∧ StampedWalk.Opened access item) ∨
    (item.2 = none ∧ ∃ name directory, item.1 = name :: directory ∧
      Readable access walk root directory ∧
      (tree.kind item.1 = some .directory →
        (name, .directory) ∈ readableEntries access walk directory))

/-- What the loop has found so far, up to what stands on the stack. -/
structure Found (pending : List PendingDirectory) (files : List DirectoryPath) : Prop where
  pushed : ∀ item ∈ pending, Pushed access walk root item
  sound : ∀ file ∈ files, ∃ name directory, file = name :: directory ∧
    Readable access walk root directory ∧
    (tree.kind file = some .file → (name, .file) ∈ readableEntries access walk directory)
  complete : ∀ directory, Readable access walk root directory →
    (∃ item ∈ pending, item.1 <:+ directory) ∨
      ∀ name, (name, .file) ∈ readableEntries access walk directory →
        transcript (name :: directory) → name :: directory ∈ files

/-- What the stamps to keep stand for, up to what stands on the stack. -/
structure Kept (pending : List PendingDirectory) (files : List DirectoryPath) (next : Stamps) :
    Prop where
  under : ∀ directory, (next.lookup directory).isSome → walked directory
  observed : ∀ directory stamp, next.lookup directory = some stamp →
    stamp = tree.stamp directory ∧ tree.IsDirectory directory ∧
      ¬ Unreadable access walk directory
  closed : ∀ directory, (next.lookup directory).isSome →
    ∀ name, (name, .directory) ∈ tree.entries directory →
      (next.lookup (name :: directory)).isSome ∨ (name :: directory, none) ∈ pending
  found : ∀ directory, (next.lookup directory).isSome →
    ∀ name, (name, .file) ∈ tree.entries directory → transcript (name :: directory) →
      name :: directory ∈ files

variable {access walk transcript walked root} {pending : List PendingDirectory}
  {item : PendingDirectory} {files : List DirectoryPath} {next : Stamps}

theorem readableEntries_of_unchanged {directory : DirectoryPath}
    (h : walk.Unchanged tree directory) :
    readableEntries access walk directory = tree.entries directory := by
  unfold readableEntries
  rw [if_pos h]

theorem readableEntries_of_failed {directory : DirectoryPath}
    (h : ¬ walk.Unchanged tree directory) (hread : access.readDir directory = .failed) :
    readableEntries access walk directory = [] := by
  unfold readableEntries
  rw [if_neg h, hread]

theorem readableEntries_of_listed {directory : DirectoryPath} {entries : List DirectoryEntry}
    {complete : Bool} (h : ¬ walk.Unchanged tree directory)
    (hread : access.readDir directory = .listed entries complete) :
    readableEntries access walk directory = entries := by
  unfold readableEntries
  rw [if_neg h, hread]

/-- A directory on the stack that opens was reached. -/
theorem Pushed.readable (h : Pushed access walk root item)
    (hopened : StampedWalk.Opened access item) : Readable access walk root item.1 := by
  rcases h with ⟨hroot, -⟩ | ⟨hnone, name, directory, hpath, hreach, hkind⟩
  · rw [hroot]
    exact .root
  · obtain ⟨hstat, ⟨-, hdirectory⟩ | ⟨hsome, -⟩⟩ := hopened
    · have hmem := hkind hdirectory
      rw [hpath] at hstat ⊢
      exact .child hreach hmem hstat
    · rw [hnone] at hsome
      cases hsome

/-- A directory on the stack that does not open leads to no readable one. -/
theorem Pushed.closed (h : Pushed access walk root item)
    (hclosed : ¬ StampedWalk.Opened access item) {directory : DirectoryPath}
    (hreach : Readable access walk root directory) : ¬ item.1 <:+ directory := by
  intro hsuffix
  rcases h with ⟨-, hopened⟩ | ⟨hnone, name, above, hpath, habove, -⟩
  · exact hclosed hopened
  · have hroot : root <:+ name :: above := habove.root_suffix.trans (List.suffix_cons _ _)
    rw [hpath] at hsuffix
    obtain ⟨hmem, hstat⟩ := (hreach.of_suffix hroot hsuffix).inv_child habove.root_suffix
    have hkind : tree.kind (name :: above) = some .directory :=
      (tree.mem_entries above name .directory).mp (mem_tree_of_readable hmem)
    refine hclosed ⟨?_, .inl ⟨hnone, ?_⟩⟩
    · rw [hpath]
      exact hstat
    · rw [hpath]
      exact hkind

/-- The paths that a turn of the loop pushes for the entries it saw. -/
private theorem pushed_entry {children : List DirectoryPath}
    (hreach : Readable access walk root item.1)
    (hchildren : ∀ child ∈ children, ∃ name, child = name :: item.1 ∧
      (tree.kind child = some .directory →
        (name, .directory) ∈ readableEntries access walk item.1)) :
    ∀ pushed ∈ children.map fun child => (child, (none : Option PathMetadata)),
      Pushed access walk root pushed := by
  intro pushed hpushed
  obtain ⟨child, hchild, rfl⟩ := List.mem_map.mp hpushed
  obtain ⟨name, hname, hkind⟩ := hchildren child hchild
  exact .inr ⟨rfl, name, item.1, hname, hreach, hkind⟩

/-- What is found stays found when the item led nowhere. -/
theorem Found.skip (h : Found access walk transcript root (item :: pending) files)
    (hskip : ∀ directory, Readable access walk root directory → item.1 <:+ directory →
      directory = item.1 ∧ readableEntries access walk directory = []) :
    Found access walk transcript root pending files := by
  refine ⟨fun other hother => h.pushed other (List.mem_cons_of_mem _ hother), h.sound,
    fun directory hreach => ?_⟩
  rcases h.complete directory hreach with ⟨other, hother, hsuffix⟩ | hall
  · rcases List.mem_cons.mp hother with rfl | hother
    · right
      intro name hmem
      rw [(hskip directory hreach hsuffix).2] at hmem
      exact absurd hmem List.not_mem_nil
    · exact .inl ⟨other, hother, hsuffix⟩
  · exact .inr hall

/-- An opened directory adds its files and pushes its subdirectories. -/
theorem Found.open (h : Found access walk transcript root (item :: pending) files)
    (hopened : StampedWalk.Opened access item) {added children : List DirectoryPath}
    (hadded : ∀ file ∈ added, ∃ name, file = name :: item.1 ∧
      (tree.kind file = some .file → (name, .file) ∈ readableEntries access walk item.1))
    (hall : ∀ name, (name, .file) ∈ readableEntries access walk item.1 →
      transcript (name :: item.1) → name :: item.1 ∈ added)
    (hchildren : ∀ child ∈ children, ∃ name, child = name :: item.1 ∧
      (tree.kind child = some .directory →
        (name, .directory) ∈ readableEntries access walk item.1))
    (hbelow : ∀ name, (name, .directory) ∈ readableEntries access walk item.1 →
      name :: item.1 ∈ children) :
    Found access walk transcript root
      ((children.map fun child => (child, none)).reverse ++ pending) (files ++ added) := by
  have hitem := h.pushed item List.mem_cons_self
  have hreach : Readable access walk root item.1 := hitem.readable hopened
  refine ⟨fun other hother => ?_, fun file hfile => ?_, fun directory hdirectory => ?_⟩
  · rcases List.mem_append.mp hother with hother | hother
    · exact pushed_entry hreach hchildren other (List.mem_reverse.mp hother)
    · exact h.pushed other (List.mem_cons_of_mem _ hother)
  · rcases List.mem_append.mp hfile with hfile | hfile
    · exact h.sound file hfile
    · obtain ⟨name, rfl, hkind⟩ := hadded file hfile
      exact ⟨name, item.1, rfl, hreach, hkind⟩
  · rcases h.complete directory hdirectory with ⟨other, hother, hsuffix⟩ | hfound
    · rcases List.mem_cons.mp hother with rfl | hother
      · rcases hdirectory.next_of_suffix hreach hsuffix with heq | ⟨name, hmem, hsuffix⟩
        · right
          intro name hmem htranscript
          rw [← heq] at hmem htranscript ⊢
          exact List.mem_append_right _ (hall name hmem htranscript)
        · left
          refine ⟨(name :: other.1, none), ?_, hsuffix⟩
          refine List.mem_append_left _ (List.mem_reverse.mpr ?_)
          exact List.mem_map.mpr ⟨_, hbelow name hmem, rfl⟩
      · exact .inl ⟨other, List.mem_append_right _ hother, hsuffix⟩
    · exact .inr fun name hmem htranscript =>
        List.mem_append_left _ (hfound name hmem htranscript)

theorem Pushed.metadata (h : Pushed access walk root item) :
    item.2 = none ∨ StampedWalk.Opened access item := by
  rcases h with ⟨-, hopened⟩ | ⟨hnone, -⟩
  · exact .inr hopened
  · exact .inl hnone

/-- The files of an unchanged directory come from the tracked ones. -/
private theorem added_of_unchanged (hunchanged : walk.Unchanged tree item.1) :
    ∀ file ∈ walk.knownFiles item.1, ∃ name, file = name :: item.1 ∧
      (tree.kind file = some .file → (name, .file) ∈ readableEntries access walk item.1) := by
  intro file hfile
  obtain ⟨name, rfl⟩ := eq_cons_of_parentDirectory (mem_knownFiles.mp hfile).2
  refine ⟨name, rfl, fun hkind => ?_⟩
  rw [readableEntries_of_unchanged hunchanged]
  exact (tree.mem_entries item.1 name .file).mpr hkind

private theorem children_of_unchanged (hunchanged : walk.Unchanged tree item.1) :
    ∀ child ∈ walk.childDirectories item.1, ∃ name, child = name :: item.1 ∧
      (tree.kind child = some .directory →
        (name, .directory) ∈ readableEntries access walk item.1) := by
  intro child hchild
  obtain ⟨name, rfl⟩ := eq_cons_of_parentDirectory (mem_childDirectories.mp hchild).2
  refine ⟨name, rfl, fun hkind => ?_⟩
  rw [readableEntries_of_unchanged hunchanged]
  exact (tree.mem_entries item.1 name .directory).mpr hkind

/-- A certified directory that is unchanged shows its transcripts and its
subdirectories. -/
private theorem shown_of_unchanged (hcertified : Certified tree walk transcript)
    (hdirectory : tree.IsDirectory item.1) (hunchanged : walk.Unchanged tree item.1)
    (name : String) :
    ((name, .file) ∈ tree.entries item.1 → transcript (name :: item.1) →
      name :: item.1 ∈ walk.knownFiles item.1) ∧
    ((name, .directory) ∈ tree.entries item.1 → name :: item.1 ∈ walk.childDirectories item.1) := by
  constructor
  · intro hmem htranscript
    have hknown := hcertified.files item.1 hdirectory hunchanged name hmem htranscript
    exact mem_knownFiles.mpr ⟨hknown, rfl⟩
  · intro hmem
    have hstamped := hcertified.directories item.1 hdirectory hunchanged name hmem
    exact mem_childDirectories.mpr ⟨hstamped, rfl⟩

/-- A turn of the loop keeps what is found. -/
theorem Found.visit (hcertified : Certified tree walk transcript)
    (h : Found access walk transcript root (item :: pending) files) :
    Found access walk transcript root
      ((walk.visit access item (files, next)).2.reverse ++ pending)
      (walk.visit access item (files, next)).1.1 := by
  have hitem := h.pushed item List.mem_cons_self
  have hvisit : StampedWalk.Visit walk access item files next
      (walk.visit access item (files, next)) := StampedWalk.visit_cases hitem.metadata
  generalize walk.visit access item (files, next) = result at hvisit ⊢
  cases hvisit with
  | lost hclosed =>
      exact h.skip fun directory hreach hsuffix => absurd hsuffix (hitem.closed hclosed hreach)
  | passed hclosed =>
      exact h.skip fun directory hreach hsuffix => absurd hsuffix (hitem.closed hclosed hreach)
  | reused hopened hunchanged =>
      have hshown := shown_of_unchanged hcertified (isDirectory_of_opened hopened) hunchanged
      have hentries : readableEntries access walk item.1 = tree.entries item.1 :=
        readableEntries_of_unchanged hunchanged
      refine h.open hopened (added_of_unchanged hunchanged) (fun name hmem htranscript => ?_)
        (children_of_unchanged hunchanged) fun name hmem => ?_
      · rw [hentries] at hmem
        exact (hshown name).1 hmem htranscript
      · rw [hentries] at hmem
        exact (hshown name).2 hmem
  | unread hopened hchanged hread =>
      have hnone := readableEntries_of_failed hchanged hread
      refine h.skip fun directory hreach hsuffix => ?_
      rcases hreach.next_of_suffix (hitem.readable hopened) hsuffix with heq | ⟨name, hmem, -⟩
      · exact ⟨heq.symm, heq ▸ hnone⟩
      · rw [hnone] at hmem
        exact absurd hmem List.not_mem_nil
  | listed entries complete hopened hchanged hread =>
      have hentries := readableEntries_of_listed hchanged hread
      refine h.open hopened (fun file hfile => ?_) (fun name hmem _ => ?_) (fun child hchild => ?_)
        fun name hmem => ?_
      · obtain ⟨name, rfl, hmem⟩ := mem_entryPaths.mp hfile
        exact ⟨name, rfl, fun _ => hentries ▸ hmem⟩
      · rw [hentries] at hmem
        exact mem_entryPaths.mpr ⟨name, rfl, hmem⟩
      · obtain ⟨name, rfl, hmem⟩ := mem_entryPaths.mp hchild
        exact ⟨name, rfl, fun _ => hentries ▸ hmem⟩
      · rw [hentries] at hmem
        exact mem_entryPaths.mpr ⟨name, rfl, hmem⟩

/-- Forgetting the ancestors of a directory makes up for its loss. -/
theorem Kept.forget (h : Kept access walk transcript walked (item :: pending) files next)
    {pushed : List PendingDirectory} {added : List DirectoryPath} :
    Kept access walk transcript walked (pushed ++ pending) (files ++ added)
      (StampedWalk.forgetAncestors walk.previous item.1 next) := by
  have hearlier {directory : DirectoryPath}
      (hsome : ((StampedWalk.forgetAncestors walk.previous item.1 next).lookup directory).isSome) :
      (next.lookup directory).isSome := by
    obtain ⟨stamp, hstamp⟩ := Option.isSome_iff_exists.mp hsome
    rw [StampedWalk.lookup_of_forgetAncestors hstamp]
    rfl
  refine ⟨fun directory hsome => h.under directory (hearlier hsome),
    fun directory stamp hstamp => ?_, fun directory hsome name hmem => ?_,
    fun directory hsome name hmem htranscript => ?_⟩
  · exact h.observed directory stamp (StampedWalk.lookup_of_forgetAncestors hstamp)
  · rcases h.closed directory (hearlier hsome) name hmem with hkept | hpending
    · cases hlookup : (StampedWalk.forgetAncestors walk.previous item.1 next).lookup
          (name :: directory) with
      | some stamp => exact .inl rfl
      | none =>
          rw [StampedWalk.forgetAncestors_closed hkept hlookup] at hsome
          cases hsome
    · rcases List.mem_cons.mp hpending with rfl | hpending
      · rw [StampedWalk.forgetAncestors_parent] at hsome
        cases hsome
      · exact .inr (List.mem_append_right _ hpending)
  · exact List.mem_append_left _ (h.found directory (hearlier hsome) name hmem htranscript)

/-- A directory that was seen in full is stamped. -/
theorem Kept.stamp (h : Kept access walk transcript walked (item :: pending) files next)
    (hunder : walked item.1) (hdirectory : tree.IsDirectory item.1)
    (hread : ¬ Unreadable access walk item.1) {children added : List DirectoryPath}
    (hfiles : ∀ name, (name, .file) ∈ tree.entries item.1 → transcript (name :: item.1) →
      name :: item.1 ∈ added)
    (hbelow : ∀ name, (name, .directory) ∈ tree.entries item.1 → name :: item.1 ∈ children) :
    Kept access walk transcript walked
      ((children.map fun child => (child, none)).reverse ++ pending)
      (files ++ added) (next.insert item.1 (tree.stamp item.1)) := by
  have hinsert {directory : DirectoryPath} (hsome : (next.lookup directory).isSome) :
      ((next.insert item.1 (tree.stamp item.1)).lookup directory).isSome := by
    by_cases heq : directory = item.1
    · rw [heq, AList.lookup_insert]
      rfl
    · rwa [AList.lookup_insert_ne heq]
  refine ⟨fun directory hsome => ?_, fun directory stamp hstamp => ?_,
    fun directory hsome name hmem => ?_, fun directory hsome name hmem htranscript => ?_⟩
  · by_cases heq : directory = item.1
    · rw [heq]
      exact hunder
    · rw [AList.lookup_insert_ne heq] at hsome
      exact h.under directory hsome
  · by_cases heq : directory = item.1
    · subst heq
      rw [AList.lookup_insert] at hstamp
      cases hstamp
      exact ⟨rfl, hdirectory, hread⟩
    · rw [AList.lookup_insert_ne heq] at hstamp
      exact h.observed directory stamp hstamp
  · by_cases heq : directory = item.1
    · subst heq
      right
      refine List.mem_append_left _ (List.mem_reverse.mpr ?_)
      exact List.mem_map.mpr ⟨_, hbelow name hmem, rfl⟩
    · rw [AList.lookup_insert_ne heq] at hsome
      rcases h.closed directory hsome name hmem with hkept | hpending
      · exact .inl (hinsert hkept)
      · rcases List.mem_cons.mp hpending with rfl | hpending
        · left
          rw [AList.lookup_insert]
          rfl
        · exact .inr (List.mem_append_right _ hpending)
  · by_cases heq : directory = item.1
    · subst heq
      exact List.mem_append_right _ (hfiles name hmem htranscript)
    · rw [AList.lookup_insert_ne heq] at hsome
      exact List.mem_append_left _ (h.found directory hsome name hmem htranscript)

/-- A turn of the loop keeps what the stamps stand for. -/
theorem Kept.visit (hcertified : Certified tree walk transcript)
    (hitem : Pushed access walk root item) (hunder : ∀ path, root <:+ path → walked path)
    {earlier : List DirectoryPath}
    (h : Kept access walk transcript walked (item :: pending) (earlier ++ files) next) :
    Kept access walk transcript walked
      ((walk.visit access item (files, next)).2.reverse ++ pending)
      (earlier ++ (walk.visit access item (files, next)).1.1)
      (walk.visit access item (files, next)).1.2 := by
  have hvisit : StampedWalk.Visit walk access item files next
      (walk.visit access item (files, next)) := StampedWalk.visit_cases hitem.metadata
  have hbelow : StampedWalk.Opened access item → walked item.1 :=
    fun hopened => hunder item.1 (hitem.readable hopened).root_suffix
  generalize walk.visit access item (files, next) = result at hvisit ⊢
  cases hvisit with
  | lost =>
      have hforget : Kept access walk transcript walked ([] ++ pending) (earlier ++ files ++ [])
        (StampedWalk.forgetAncestors walk.previous item.1 next) := h.forget
      rwa [List.append_nil] at hforget
  | passed hclosed hnone hkind =>
      refine ⟨h.under, h.observed, fun directory hsome name hmem => ?_, h.found⟩
      rcases h.closed directory hsome name hmem with hkept | hpending
      · exact .inl hkept
      · rcases List.mem_cons.mp hpending with rfl | hpending
        · exact absurd ((tree.mem_entries directory name .directory).mp hmem) hkind
        · exact .inr hpending
  | reused hopened hunchanged =>
      have hdirectory := isDirectory_of_opened hopened
      have hshown := shown_of_unchanged hcertified hdirectory hunchanged
      rw [← List.append_assoc]
      refine h.stamp (hbelow hopened) hdirectory ?_ (fun name => (hshown name).1)
        fun name => (hshown name).2
      rintro (hstat | ⟨hchanged, -⟩)
      · rw [hopened.1] at hstat
        cases hstat
      · exact hchanged hunchanged
  | unread =>
      have hforget : Kept access walk transcript walked ([] ++ pending) (earlier ++ files ++ [])
        (StampedWalk.forgetAncestors walk.previous item.1 next) := h.forget
      rwa [List.append_nil] at hforget
  | listed entries complete hopened hchanged hread =>
      rw [← List.append_assoc]
      cases complete with
      | false => exact h.forget
      | true =>
          have hall := access.mem_of_complete item.1 entries hread
          refine h.stamp (hbelow hopened) (isDirectory_of_opened hopened) ?_ (fun name hmem _ => ?_)
            fun name hmem => ?_
          · rintro (hstat | ⟨-, hincomplete⟩)
            · rw [hopened.1] at hstat
              cases hstat
            · exact hincomplete entries hread
          · exact mem_entryPaths.mpr ⟨name, rfl, hall _ hmem⟩
          · exact mem_entryPaths.mpr ⟨name, rfl, hall _ hmem⟩

end Loop

/-- Below a kept stamp nothing was unreadable. -/
theorem Kept.not_hides {transcript walked : DirectoryPath → Prop} {files : List DirectoryPath}
    {next : Stamps} (h : Kept access walk transcript walked [] files next)
    {directory : DirectoryPath}
    (hhides : Hides access walk directory) : next.lookup directory = none := by
  induction hhides with
  | @unreadable directory hunreadable =>
      cases hlookup : next.lookup directory with
      | none => rfl
      | some stamp => exact absurd hunreadable (h.observed directory stamp hlookup).2.2
  | @inside directory name hmem _ ih =>
      cases hlookup : next.lookup directory with
      | none => rfl
      | some stamp =>
          have hsome : (next.lookup directory).isSome := by rw [hlookup]; rfl
          rcases h.closed directory hsome name (mem_tree_of_readable hmem) with hkept | hpending
          · rw [ih] at hkept
            cases hkept
          · exact absurd hpending List.not_mem_nil

section Roots

theorem visit_pushed {item pushed : PendingDirectory} {state : List DirectoryPath × Stamps}
    (h : pushed ∈ (walk.visit access item state).2) :
    (∃ name, pushed = (name :: item.1, none)) ∧
      (item.2.isSome ∨ tree.kind item.1 = some .directory) := by
  obtain ⟨directory, metadata⟩ := item
  have hmetadata : metadata.isSome ∨ tree.kind directory = some .directory ∨
      ∀ found, metadata.or (access.symlinkMetadata directory) = some found →
        found.kind ≠ .directory := by
    cases metadata with
    | some metadata => exact .inl rfl
    | none =>
        by_cases hkind : tree.kind directory = some .directory
        · exact .inr (.inl hkind)
        · refine .inr (.inr fun found hfound hdirectory => hkind ?_)
          rw [Option.none_or, Access.symlinkMetadata] at hfound
          split at hfound
          · cases hfound
          · obtain ⟨kind, heq, rfl⟩ := Option.map_eq_some_iff.mp hfound
            rw [heq]
            exact congrArg some hdirectory
  have hname : ∀ children : List DirectoryPath,
      (∀ child ∈ children, parentDirectory child = some directory) →
        pushed ∈ children.map (fun child => (child, (none : Option PathMetadata))) →
          ∃ name, pushed = (name :: directory, none) := by
    intro children hchildren hpushed
    obtain ⟨child, hchild, rfl⟩ := List.mem_map.mp hpushed
    obtain ⟨name, rfl⟩ := eq_cons_of_parentDirectory (hchildren child hchild)
    exact ⟨name, rfl⟩
  unfold StampedWalk.visit at h
  dsimp only at h
  split at h
  · exact absurd h List.not_mem_nil
  · rename_i found hfound
    split at h
    · exact absurd h List.not_mem_nil
    · rename_i hdirectory
      have hopened : metadata.isSome ∨ tree.kind directory = some .directory := by
        rcases hmetadata with hsome | hkind | hother
        · exact .inl hsome
        · exact .inr hkind
        · exact absurd (hother found hfound) hdirectory
      refine ⟨?_, hopened⟩
      split at h
      · exact hname _ (fun child hchild => (mem_childDirectories.mp hchild).2) h
      · split at h
        · exact absurd h List.not_mem_nil
        · refine hname _ (fun child hchild => ?_) h
          obtain ⟨name, rfl, -⟩ := mem_entryPaths.mp hchild
          rfl

variable (tree) in
/-- A directory on the stack ranks by the depth of the tree below it. -/
def pendingRank (item : PendingDirectory) : Nat :=
  if item.2.isSome then tree.depth + 2
  else if tree.kind item.1 = some .directory then tree.depth + 1 - item.1.length else 0

theorem pendingRank_pushed (access : Access tree) (walk : StampedWalk) (item : PendingDirectory)
    (state : List DirectoryPath × Stamps) :
    ∀ pushed ∈ (walk.visit access item state).2,
      pendingRank tree pushed < pendingRank tree item := by
  intro pushed hpushed
  obtain ⟨⟨name, rfl⟩, hopened⟩ := visit_pushed hpushed
  unfold pendingRank
  simp only [Option.isSome_none, Bool.false_eq_true, if_false, List.length_cons]
  rcases hopened with hsome | hkind
  · rw [if_pos hsome]
    split <;> omega
  · have hlength := tree.bounded item.1 hkind
    rw [if_pos hkind]
    split <;> split <;> omega

variable (access walk) (transcript walked : DirectoryPath → Prop)

/-- The yielded transcripts that are there are those of the enumeration. -/
def YieldsEnumerated (root : DirectoryPath) (files : List DirectoryPath) : Prop :=
  ∀ file, transcript file →
    (file ∈ files ∧ (tree.kind file = some .file ∨ file = root) ↔
      Enumerated access walk root file)

/-- Whether `files` walks a root. -/
def Walked (root : DirectoryPath) : Prop :=
  access.statFails root = false ∧ tree.target root = some .directory

instance : DecidablePred (Walked access) := fun _ => inferInstanceAs (Decidable (_ ∧ _))

/-- The roots of a walk one after the other. -/
def StampedWalk.walkRoots (fuel : Nat) :
    List DirectoryPath → StampedWalk → Option (StampedWalk × List (List DirectoryPath))
  | [], walk => some (walk, [])
  | root :: roots, walk =>
      (walk.files access fuel root).bind fun (walk, files) =>
        (StampedWalk.walkRoots fuel roots walk).map fun (walk, others) => (walk, files :: others)

variable {access walk transcript walked}

theorem files_of_closed {root : DirectoryPath} (h : ¬ Walked access root) :
    ∃ files, (∀ fuel, walk.files access fuel root = some (walk, files)) ∧
      ∀ base, YieldsEnumerated access base transcript root files := by
  unfold StampedWalk.files Access.metadata
  cases hstat : access.statFails root with
  | true =>
      refine ⟨[], fun _ => rfl, fun base file _ => ?_⟩
      simp [Enumerated, hstat]
  | false =>
      cases htarget : tree.target root with
      | none =>
          refine ⟨[], fun _ => rfl, fun base file _ => ?_⟩
          simp [Enumerated, htarget]
      | some kind =>
          cases kind with
          | directory => exact absurd ⟨hstat, htarget⟩ h
          | file =>
              refine ⟨[root], fun _ => rfl, fun base file _ => ⟨fun h => ?_, fun h => ?_⟩⟩
              · exact ⟨hstat, .inl ⟨htarget, List.mem_singleton.mp h.1⟩⟩
              · obtain ⟨-, ⟨-, rfl⟩ | ⟨hdirectory, -⟩⟩ := h
                · exact ⟨List.mem_singleton_self _, .inr rfl⟩
                · rw [htarget] at hdirectory
                  cases hdirectory
          | other =>
              refine ⟨[], fun _ => rfl, fun base file _ => ?_⟩
              simp [Enumerated, htarget]

/-- One walked root: its loop ends, it yields the enumeration and keeps only
what its stamps stand for. -/
theorem files_of_walked {root : DirectoryPath} {next : Stamps} {earlier : List DirectoryPath}
    (roots : List DirectoryPath) (hcertified : Certified tree walk transcript)
    (hroot : Walked access root) (hunder : ∀ path, root <:+ path → walked path)
    (hkept : Kept access walk transcript walked [] earlier next) :
    ∃ steps files after, (∀ fuel, StampedWalk.files { walk with next, roots } access
        (steps + fuel) root = some ({ walk with next := after, roots := roots ++ [root] }, files)) ∧
      YieldsEnumerated access walk transcript root files ∧
      Kept access walk transcript walked [] (earlier ++ files) after := by
  obtain ⟨hstat, htarget⟩ := hroot
  set start : PendingDirectory := (root, some ⟨.directory, tree.stamp root⟩) with hstart
  have hmetadata : access.metadata root = some ⟨.directory, tree.stamp root⟩ := by
    unfold Access.metadata
    rw [hstat, htarget]
    rfl
  have hopened : StampedWalk.Opened access start := ⟨hstat, .inr ⟨rfl, htarget⟩⟩
  obtain ⟨steps, ⟨files, after⟩, hrun⟩ := Worklist.run_terminates (pendingRank tree)
    (pendingRank_pushed access walk) [start] ([], next)
  obtain ⟨hfound, hafter⟩ : Found access walk transcript root [] files ∧
      Kept access walk transcript walked [] (earlier ++ files) after := by
    refine Worklist.run_invariant
      (fun pending state => Found access walk transcript root pending state.1 ∧
        Kept access walk transcript walked pending (earlier ++ state.1) state.2)
      (fun item pending state h => ?_) ?_ (hrun 0)
    · exact ⟨h.1.visit hcertified, h.2.visit hcertified (h.1.pushed item List.mem_cons_self) hunder⟩
    · refine ⟨⟨fun item hitem => ?_, fun file hfile => absurd hfile List.not_mem_nil,
        fun directory hreach => ?_⟩, ?_⟩
      · obtain rfl := List.mem_singleton.mp hitem
        exact .inl ⟨rfl, hopened⟩
      · exact .inl ⟨start, List.mem_singleton_self _, hreach.root_suffix⟩
      · rw [List.append_nil]
        refine ⟨hkept.under, hkept.observed, fun directory hsome name hmem => ?_, hkept.found⟩
        rcases hkept.closed directory hsome name hmem with hchild | hpending
        · exact .inl hchild
        · exact absurd hpending List.not_mem_nil
  refine ⟨steps, files, after, fun fuel => ?_, fun file htranscript => ?_, hafter⟩
  · unfold StampedWalk.files
    rw [hmetadata]
    have hloop := hrun fuel
    rw [hstart] at hloop
    change (Worklist.run (walk.visit access) (steps + fuel) _ _).map _ = _
    rw [hloop]
    rfl
  · constructor
    · rintro ⟨hfile, hpresent⟩
      obtain ⟨name, directory, rfl, hreach, hkind⟩ := hfound.sound file hfile
      refine ⟨hstat, .inr ⟨htarget, name, directory, rfl, hreach, hkind ?_⟩⟩
      rcases hpresent with hpresent | hpresent
      · exact hpresent
      · have hlength := hreach.root_suffix.length_le
        rw [← hpresent] at hlength
        exact absurd hlength (by simp)
    · rintro ⟨-, ⟨hfile, -⟩ | ⟨-, name, directory, rfl, hreach, hmem⟩⟩
      · rw [htarget] at hfile
        cases hfile
      · refine ⟨?_, .inl ((tree.mem_entries directory name .file).mp (mem_tree_of_readable hmem))⟩
        rcases hfound.complete directory hreach with ⟨item, hitem, -⟩ | hall
        · exact absurd hitem List.not_mem_nil
        · exact hall name hmem htranscript

/-- The roots of one walk. -/
theorem walkRoots_spec (hcertified : Certified tree walk transcript)
    (roots done earlier : List DirectoryPath) (next : Stamps)
    (hunder : ∀ root ∈ roots, ∀ path, root <:+ path → walked path)
    (hkept : Kept access walk transcript walked [] earlier next) :
    ∃ steps yields after, (∀ fuel, StampedWalk.walkRoots access (steps + fuel) roots
        { walk with next, roots := done } =
          some ({ walk with next := after, roots := done ++ roots.filter (Walked access) },
            yields)) ∧
      List.Forall₂ (YieldsEnumerated access walk transcript) roots yields ∧
      Kept access walk transcript walked [] (earlier ++ yields.flatten) after := by
  induction roots generalizing done earlier next with
  | nil =>
      refine ⟨0, [], next, fun fuel => ?_, .nil, ?_⟩
      · simp [StampedWalk.walkRoots]
      · rwa [List.flatten_nil, List.append_nil]
  | cons root roots ih =>
      have hbelow : ∀ root ∈ roots, ∀ path, root <:+ path → walked path :=
        fun root hroot => hunder root (List.mem_cons_of_mem _ hroot)
      by_cases hroot : Walked access root
      · obtain ⟨turns, files, middle, hfiles, hyields, hmiddle⟩ :=
          files_of_walked done hcertified hroot (hunder root List.mem_cons_self) hkept
        obtain ⟨steps, yields, after, hrest, hothers, hafter⟩ :=
          ih (done ++ [root]) _ middle hbelow hmiddle
        refine ⟨turns + steps, files :: yields, after, fun fuel => ?_, .cons hyields hothers, ?_⟩
        · have hhead := hfiles (steps + fuel)
          have htail := hrest (turns + fuel)
          rw [← Nat.add_assoc] at hhead htail
          rw [Nat.add_comm steps turns] at htail
          rw [StampedWalk.walkRoots, hhead, Option.bind_some]
          dsimp only
          rw [htail, List.filter_cons_of_pos (by simpa using hroot), List.append_assoc]
          rfl
        · rwa [List.flatten_cons, ← List.append_assoc]
      · obtain ⟨files, hfiles, hyields⟩ : ∃ files, (∀ fuel, StampedWalk.files
            { walk with next, roots := done } access fuel root =
              some ({ walk with next, roots := done }, files)) ∧
            ∀ base, YieldsEnumerated access base transcript root files := files_of_closed hroot
        have hextended : Kept access walk transcript walked [] (earlier ++ files) next :=
          ⟨hkept.under, hkept.observed, hkept.closed, fun directory hsome name hmem htranscript =>
            List.mem_append_left _ (hkept.found directory hsome name hmem htranscript)⟩
        obtain ⟨steps, yields, after, hrest, hothers, hafter⟩ :=
          ih done (earlier ++ files) next hbelow hextended
        refine ⟨steps, files :: yields, after, fun fuel => ?_, .cons (hyields walk) hothers, ?_⟩
        · rw [StampedWalk.walkRoots, hfiles, Option.bind_some]
          dsimp only
          rw [hrest, List.filter_cons_of_neg (by simpa using hroot)]
          rfl
        · rwa [List.flatten_cons, ← List.append_assoc]

end Roots

end Memex.Ingest
