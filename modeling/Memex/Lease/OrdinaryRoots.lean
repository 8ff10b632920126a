import Memex.Lease.Exclusion

/-! # Roots whose lock files follow the directories

A root that is named by its own name in the directory above it, and not through a link, has
its lock files under that name beside it. Among such roots the lock files follow the
directories. -/

namespace Memex.Lease

open PathLookup

section LockNames

/-- Only the first letter of `ingest.lock` is an `i`. -/
theorem ingestLock_getElem? (index : Nat) (hpositive : 0 < index) :
    "ingest.lock".toList[index]? ≠ some 'i' := by
  have hall : ∀ later ∈ "ingest.lock".toList.tail, (later != 'i') = true :=
    List.all_eq_true.mp (by decide)
  intro h
  cases index with
  | zero => exact Nat.lt_irrefl _ hpositive
  | succ index =>
      apply bne_iff_ne.mp (hall 'i' (List.mem_of_getElem? (i := index) ?_)) rfl
      rw [← h, List.getElem?_tail]

/-- A pattern that neither begins nor ends with a symbol occurs in what the symbol encloses. -/
theorem infix_of_enclosed {name : List Char}
    (h : "ingest.lock".toList <:+: '.' :: (name ++ ['.'])) :
    "ingest.lock".toList <:+: name := by
  obtain hbegins | hinfix := List.infix_cons_iff.mp h
  · have hhead := List.prefix_iff_getElem?.mp hbegins 0 (by decide)
    rw [List.getElem?_cons_zero] at hhead
    exact absurd (Option.some.inj hhead) (by decide)
  · obtain hsuffix | hinfix := List.infix_concat_iff.mp hinfix
    · obtain ⟨before, heq⟩ := hsuffix
      have hlast := congrArg List.getLast? heq
      rw [List.getLast?_append, List.getLast?_concat,
        show "ingest.lock".toList.getLast? = some 'k' from rfl, Option.some_or] at hlast
      exact absurd (Option.some.inj hlast) (by decide)
    · exact hinfix

/-- The compaction lock of a root beside its ingest lock, where the name of the root does not
interfere. -/
theorem replace_ingestLock {name : String}
    (hname : ¬ "ingest.lock".toList <:+: name.toList) :
    Replace.replaceString ("." ++ name ++ ".ingest.lock") "ingest.lock" "compaction.lock" =
      "." ++ name ++ ".compaction.lock" := by
  have hsplit : ("." ++ name ++ ".ingest.lock").toList =
      ('.' :: (name.toList ++ ['.'])) ++ "ingest.lock".toList := by
    simp
  have hkept := @Replace.replaceAll_append_of_not_begins _ _ "ingest.lock".toList
    "compaction.lock".toList ('.' :: (name.toList ++ ['.'])) "ingest.lock".toList (by
      intro rest hrest hne hbegins
      by_cases hle : "ingest.lock".toList.length ≤ rest.length
      · -- the occurrence lies within what stands before
        have hwithin := List.prefix_of_prefix_length_le hbegins (List.prefix_append _ _) hle
        exact hname (infix_of_enclosed (hwithin.isInfix.trans hrest.isInfix))
      · -- the pattern would begin again within itself
        have hlt := Nat.lt_of_not_le hle
        have hget := List.prefix_iff_getElem?.mp hbegins _ hlt
        rw [List.getElem?_append_right le_rfl, Nat.sub_self] at hget
        exact ingestLock_getElem? rest.length (List.length_pos_iff.mpr hne)
          ((List.getElem?_eq_getElem hlt).trans hget.symm))
  have hself := @Replace.replaceAll_append_self _ _ "ingest.lock".toList
    "compaction.lock".toList (by decide) []
  rw [List.append_nil, Replace.replaceAll_nil, List.append_nil] at hself
  rw [Replace.replaceString, hsplit, hkept, hself]
  apply String.toList_inj.mp
  simp

/-- The names of the lock files of a root of some name, and of no other one. -/
def lockName (kind : LockKind) (name : String) : String :=
  match kind with
  | .ingest => "." ++ name ++ ".ingest.lock"
  | .compaction => "." ++ name ++ ".compaction.lock"

theorem lockName_inj {kind kind' : LockKind} {name name' : String}
    (h : lockName kind name = lockName kind' name') : kind = kind' ∧ name = name' := by
  have hlist := congrArg String.toList h
  have hend := congrArg (fun list => list.reverse.take 6) hlist
  cases kind <;> cases kind' <;>
    simp only [lockName, String.toList_append, List.reverse_append] at hlist hend
  · refine ⟨rfl, ?_⟩
    rw [List.append_left_inj, List.append_right_inj] at hlist
    exact String.toList_inj.mp hlist
  · exact absurd hend (by simp)
  · exact absurd hend (by simp)
  · refine ⟨rfl, ?_⟩
    rw [List.append_left_inj, List.append_right_inj] at hlist
    exact String.toList_inj.mp hlist

end LockNames

section Ordinary

variable {Pid ι : Type*} {host : Host Pid ι}

/-- A root whose last component names it in the directory above it. -/
structure OrdinaryRoot (host : Host Pid ι) (pid : Pid) where
  above : Components
  name : String
  dir : ι
  left : Nat
  child : ι
  spelled : (host.process pid).root.components = above ++ [Component.normal (.text name)]
  leads : host.fs.walk maxLinks (host.process pid).cwd above = some (left, dir)
  named : host.fs.entry dir (.text name) = some (.directory child)
  plain : ¬ "ingest.lock".toList <:+: name.toList

/-- A file system in which a directory has one name in one directory, and no lock file is a
link. -/
structure TreeShaped (fs : FileSystem OsName ι) : Prop where
  unique : ∀ dir dir' name name' child, fs.entry dir name = some (.directory child) →
    fs.entry dir' name' = some (.directory child) → dir = dir' ∧ name = name'
  lockFiles : ∀ dir kind name target, fs.entry dir (.text (lockName kind name)) ≠
    some (.link target)

theorem OrdinaryRoot.directory_eq {pid : Pid} (root : OrdinaryRoot host pid) :
    host.directory pid = some root.child := by
  rw [Host.directory, root.spelled, FileSystem.walk_append, root.leads, Option.bind_some]
  cases root.left <;>
    simp only [FileSystem.walk, FileSystem.walkWith, root.named, Option.map_some]

/-- A name of a component is not empty. -/
theorem ne_empty_of_mem_components {path : OsPath} {name : String}
    (h : Component.normal (.text name) ∈ path.components) : name ≠ "" := by
  have hsegments : Component.normal (.text name) ∈ path.segments.filterMap segmentComponent := by
    rw [OsPath.components] at h
    split at h
    · simpa using h
    · split at h
      · simpa using h
      · exact h
  obtain ⟨segment, -, hsegment⟩ := List.mem_filterMap.mp hsegments
  rintro rfl
  unfold segmentComponent at hsegment
  split at hsegment
  · cases hsegment
  · cases hsegment
  · cases hsegment
  next hne _ _ =>
    cases hsegment
    exact hne rfl

theorem OrdinaryRoot.lockPath_eq {pid : Pid} (root : OrdinaryRoot host pid) (kind : LockKind) :
    lockPath kind (host.process pid).root.components = (root.above, lockName kind root.name) := by
  have hne : root.name ≠ "" := by
    apply @ne_empty_of_mem_components (host.process pid).root
    rw [root.spelled]
    exact List.mem_append_right _ (List.mem_singleton_self _)
  have hparent : parent (host.process pid).root.components = some root.above := by
    rw [root.spelled, parent, List.getLast?_concat, List.dropLast_concat]
  have hname : rootName (host.process pid).root.components = root.name := by
    rw [rootName, fileName, root.spelled, List.getLast?_concat, Option.bind_some,
      OsName.toStr, Option.filter_some, if_pos (decide_eq_true hne), Option.getD_some]
  have hlease : leasePath (host.process pid).root.components =
      (root.above, lockName .ingest root.name) := by
    rw [leasePath, hparent, hname, Option.getD_some, lockName]
  cases kind with
  | ingest => exact hlease
  | compaction =>
      rw [lockPath, compactionLockPath, hlease]
      exact congrArg (Prod.mk root.above) (replace_ingestLock root.plain)

theorem OrdinaryRoot.place_eq {pid : Pid} (root : OrdinaryRoot host pid)
    (htree : TreeShaped host.fs) {kind : LockKind} {place : ι × OsName}
    (h : host.lockPlace pid kind = some place) :
    place = (root.dir, .text (lockName kind root.name)) := by
  rw [Host.lockPlace, root.lockPath_eq] at h
  exact FileSystem.locate_of_not_link root.leads (htree.lockFiles root.dir kind root.name) h

/-- Among ordinary roots the lock files follow the directories: two spellings of one directory
end in its name and lead to the directory above it. -/
theorem locksFollow_of_ordinary (htree : TreeShaped host.fs)
    (hroots : ∀ pid, Nonempty (OrdinaryRoot host pid)) : LocksFollow host := by
  constructor
  · intro pid other kind place place' hplace hplace' hdirectory
    obtain ⟨root⟩ := hroots pid
    obtain ⟨root'⟩ := hroots other
    rw [root.directory_eq, root'.directory_eq] at hdirectory
    have hnamed := root.named
    rw [Option.some.inj hdirectory] at hnamed
    obtain ⟨hdir, hname⟩ := htree.unique _ _ _ _ _ hnamed root'.named
    rw [root.place_eq htree hplace, root'.place_eq htree hplace', hdir,
      OsName.text.inj hname]
  · intro pid other kind kind' place hplace hplace'
    obtain ⟨root⟩ := hroots pid
    obtain ⟨root'⟩ := hroots other
    have heq := (root.place_eq htree hplace).symm.trans (root'.place_eq htree hplace')
    obtain ⟨hdir, hname⟩ := Prod.mk.inj heq
    obtain ⟨-, hname⟩ := lockName_inj (OsName.text.inj hname)
    have hnamed := root.named
    rw [hdir, hname, root'.named] at hnamed
    rw [root.directory_eq, root'.directory_eq, Entry.directory.inj (Option.some.inj hnamed)]

end Ordinary

section Nested

/-- A directory `/data` with a directory `memex` in it. -/
def nestedFiles : FileSystem OsName Nat where
  root := 0
  parent node := node - 1
  entry node name :=
    if node = 0 ∧ name = .text "data" then some (.directory 1)
    else if node = 1 ∧ name = .text "memex" then some (.directory 2)
    else none

/-- Processes of `/data`, of `memex` in it, and of the second one by its whole path. -/
def nestedRoot : Nat → Process Nat
  | 0 => { cwd := 0, root := { absolute := true, segments := [.text "data"] } }
  | 1 => { cwd := 1, root := { absolute := false, segments := [.text "memex"] } }
  | _ => { cwd := 0, root := { absolute := true, segments := [.text "data", .text "memex"] } }

theorem treeShaped_nestedFiles : TreeShaped nestedFiles := by
  constructor
  · intro dir dir' name name' child h h'
    simp only [nestedFiles] at h h'
    grind
  · intro dir kind name target h
    simp only [nestedFiles] at h
    grind

def nestedHost : Host Nat Nat where
  fs := nestedFiles
  process := nestedRoot
  rooted
    | 0 => by decide +kernel
    | 1 => by decide +kernel
    | _ + 2 => by
      change (nestedFiles.walk maxLinks 0
        (OsPath.components ⟨true, [.text "data", .text "memex"]⟩)).isSome
      decide +kernel

theorem ordinaryRoot_nestedHost (pid : Nat) : Nonempty (OrdinaryRoot nestedHost pid) := by
  match pid with
  | 0 => exact ⟨[.rootDir], "data", 0, maxLinks, 1, rfl, rfl, rfl, by decide⟩
  | 1 => exact ⟨[], "memex", 1, maxLinks, 2, rfl, rfl, rfl, by decide⟩
  | _ + 2 =>
      exact ⟨[.rootDir, .normal (.text "data")], "memex", 1, maxLinks, 2, rfl, rfl, rfl,
        by decide⟩

end Nested

end Memex.Lease
