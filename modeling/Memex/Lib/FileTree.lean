import Mathlib.Data.List.AList

/-! # Directories of linked files

Files are numbered contents, a directory maps names to file numbers, and several
names may link one file. A file keeps its number when a directory is renamed. -/

namespace Memex.Files

/-- The names of one directory with the files they link. -/
abbrev Entries (ν : Type*) := AList fun _ : ν => Nat

/-- Flat directories over a common set of files. -/
structure FileTree (δ ν γ : Type*) where
  content : Nat → γ
  /-- Every number from here on is unused. -/
  fresh : Nat
  directories : AList fun _ : δ => Entries ν

namespace FileTree

variable {δ ν γ : Type*} [DecidableEq δ] [DecidableEq ν]

/-- The file a name links. -/
def entry (tree : FileTree δ ν γ) (dir : δ) (name : ν) : Option Nat :=
  (tree.directories.lookup dir).bind fun entries => entries.lookup name

/-- What reading a name yields. -/
def read (tree : FileTree δ ν γ) (dir : δ) (name : ν) : Option γ :=
  (tree.entry dir name).map tree.content

/-- Make a directory unless it is there. -/
def createDirectory (tree : FileTree δ ν γ) (dir : δ) : FileTree δ ν γ :=
  if dir ∈ tree.directories then tree
  else { tree with directories := tree.directories.insert dir ∅ }

/-- Let a name of an existing directory link a file. -/
def link (tree : FileTree δ ν γ) (dir : δ) (name : ν) (file : Nat) : FileTree δ ν γ :=
  match tree.directories.lookup dir with
  | none => tree
  | some entries =>
    { tree with directories := tree.directories.insert dir (entries.insert name file) }

/-- Take a name away from its directory. -/
def unlink (tree : FileTree δ ν γ) (dir : δ) (name : ν) : FileTree δ ν γ :=
  match tree.directories.lookup dir with
  | none => tree
  | some entries => { tree with directories := tree.directories.insert dir (entries.erase name) }

/-- Let a name link a new file. -/
def create (tree : FileTree δ ν γ) (dir : δ) (name : ν) (content : γ) : FileTree δ ν γ :=
  { tree with
    content := Function.update tree.content tree.fresh content
    fresh := tree.fresh + 1 }.link dir name tree.fresh

/-- Change a file in place, under all of its names. -/
def modify (tree : FileTree δ ν γ) (file : Nat) (change : γ → γ) : FileTree δ ν γ :=
  { tree with content := Function.update tree.content file (change (tree.content file)) }

/-- Keep only the names of a directory that pass the test. -/
def retain (tree : FileTree δ ν γ) (dir : δ) (keep : ν → Bool) : FileTree δ ν γ :=
  match tree.directories.lookup dir with
  | none => tree
  | some entries =>
      let names := entries.keys.filter fun name => !keep name
      { tree with
        directories := tree.directories.insert dir (names.foldl (fun kept name => kept.erase name)
          entries) }

/-- Move a directory to another place. -/
def renameDirectory (tree : FileTree δ ν γ) (source target : δ) : FileTree δ ν γ :=
  match tree.directories.lookup source with
  | none => tree
  | some entries =>
      { tree with directories := (tree.directories.erase source).insert target entries }

/-- Every linked file has been handed out. -/
def Allocated (tree : FileTree δ ν γ) : Prop :=
  ∀ dir name file, tree.entry dir name = some file → file < tree.fresh

variable {tree : FileTree δ ν γ} {dir : δ} {name : ν} {file : Nat} {content : γ}

theorem entry_eq_none_of_not_mem (h : dir ∉ tree.directories) : tree.entry dir name = none := by
  unfold entry
  rw [AList.lookup_eq_none.mpr h]
  rfl

/-! ## What an operation leaves under a name -/

theorem entry_link (dir' : δ) (name' : ν) :
    (tree.link dir name file).entry dir' name' =
      if dir' = dir ∧ name' = name ∧ dir ∈ tree.directories then some file
      else tree.entry dir' name' := by
  unfold link
  cases hdir : tree.directories.lookup dir with
  | none =>
      have hmem : dir ∉ tree.directories := AList.lookup_eq_none.mp hdir
      simp [hmem]
  | some entries =>
      have hmem : dir ∈ tree.directories := AList.lookup_isSome.mp (by simp [hdir])
      simp only [entry]
      by_cases h : dir' = dir
      · subst h
        rw [AList.lookup_insert, hdir]
        by_cases hname : name' = name
        · subst hname
          simp [hmem]
        · simp [hname, AList.lookup_insert_ne hname]
      · simp [h, AList.lookup_insert_ne h]

theorem entry_unlink (dir' : δ) (name' : ν) :
    (tree.unlink dir name).entry dir' name' =
      if dir' = dir ∧ name' = name then none else tree.entry dir' name' := by
  unfold unlink
  cases hdir : tree.directories.lookup dir with
  | none =>
      by_cases h : dir' = dir ∧ name' = name
      · obtain ⟨rfl, rfl⟩ := h
        simp [entry, hdir]
      · simp [h]
  | some entries =>
      simp only [entry]
      by_cases h : dir' = dir
      · subst h
        rw [AList.lookup_insert, hdir]
        by_cases hname : name' = name
        · subst hname
          simp
        · simp [hname, AList.lookup_erase_ne hname]
      · simp [h, AList.lookup_insert_ne h]

@[simp] theorem entry_createDirectory (dir' : δ) (name' : ν) :
    (tree.createDirectory dir).entry dir' name' = tree.entry dir' name' := by
  unfold createDirectory
  split
  · rfl
  · next hmem =>
      by_cases h : dir' = dir
      · subst h
        rw [entry_eq_none_of_not_mem hmem]
        simp [entry]
      · simp [entry, AList.lookup_insert_ne h]

private theorem lookup_foldl_erase (names : List ν) (entries : Entries ν) (name' : ν) :
    (names.foldl (fun (kept : Entries ν) name => kept.erase name) entries).lookup name' =
      if name' ∈ names then none else entries.lookup name' := by
  induction names generalizing entries with
  | nil => simp
  | cons head rest ih =>
      rw [List.foldl_cons, ih]
      by_cases h : name' = head
      · subst h
        simp
      · simp [h, AList.lookup_erase_ne h]

theorem entry_retain (keep : ν → Bool) (dir' : δ) (name' : ν) :
    (tree.retain dir keep).entry dir' name' =
      if dir' = dir ∧ keep name' = false then none else tree.entry dir' name' := by
  unfold retain
  cases hdir : tree.directories.lookup dir with
  | none =>
      by_cases h : dir' = dir ∧ keep name' = false
      · obtain ⟨rfl, hkeep⟩ := h
        simp [entry, hdir, hkeep]
      · simp [h]
  | some entries =>
      simp only [entry]
      by_cases h : dir' = dir
      · subst h
        rw [AList.lookup_insert, hdir]
        simp only [Option.bind_some, lookup_foldl_erase, List.mem_filter, ← AList.mem_keys,
          true_and, Bool.not_eq_true']
        by_cases hkeep : keep name' = false
        · by_cases hname : name' ∈ entries
          · simp [hkeep, hname]
          · simp [hkeep, AList.lookup_eq_none.mpr hname]
        · simp [hkeep]
      · simp [h, AList.lookup_insert_ne h]

theorem entry_renameDirectory {source target : δ} (hsource : source ∈ tree.directories)
    (dir' : δ) (name' : ν) :
    (tree.renameDirectory source target).entry dir' name' =
      if dir' = target then tree.entry source name'
      else if dir' = source then none else tree.entry dir' name' := by
  unfold renameDirectory
  cases hdir : tree.directories.lookup source with
  | none => exact absurd hsource (AList.lookup_eq_none.mp hdir)
  | some entries =>
      simp only [entry]
      by_cases htarget : dir' = target
      · subst htarget
        simp [hdir]
      · rw [AList.lookup_insert_ne htarget]
        by_cases h : dir' = source
        · subst h
          simp [htarget]
        · simp [htarget, h, AList.lookup_erase_ne h]

@[simp] theorem entry_modify (change : γ → γ) (dir' : δ) (name' : ν) :
    (tree.modify file change).entry dir' name' = tree.entry dir' name' := rfl

theorem entry_create (dir' : δ) (name' : ν) :
    (tree.create dir name content).entry dir' name' =
      if dir' = dir ∧ name' = name ∧ dir ∈ tree.directories then some tree.fresh
      else tree.entry dir' name' :=
  entry_link dir' name'

/-! ## Directories, contents and fresh numbers -/

@[simp] theorem mem_directories_link (dir' : δ) :
    dir' ∈ (tree.link dir name file).directories ↔ dir' ∈ tree.directories := by
  unfold link
  cases hdir : tree.directories.lookup dir with
  | none => rfl
  | some entries =>
      have hmem : dir ∈ tree.directories := AList.lookup_isSome.mp (by simp [hdir])
      rw [AList.mem_insert]
      constructor
      · rintro (rfl | h)
        · exact hmem
        · exact h
      · exact Or.inr

@[simp] theorem mem_directories_create (dir' : δ) :
    dir' ∈ (tree.create dir name content).directories ↔ dir' ∈ tree.directories :=
  mem_directories_link dir'

@[simp] theorem mem_directories_unlink (dir' : δ) :
    dir' ∈ (tree.unlink dir name).directories ↔ dir' ∈ tree.directories := by
  unfold unlink
  cases hdir : tree.directories.lookup dir with
  | none => rfl
  | some entries =>
      have hmem : dir ∈ tree.directories := AList.lookup_isSome.mp (by simp [hdir])
      rw [AList.mem_insert]
      constructor
      · rintro (rfl | h)
        · exact hmem
        · exact h
      · exact Or.inr

@[simp] theorem mem_directories_retain (keep : ν → Bool) (dir' : δ) :
    dir' ∈ (tree.retain dir keep).directories ↔ dir' ∈ tree.directories := by
  unfold retain
  cases hdir : tree.directories.lookup dir with
  | none => rfl
  | some entries =>
      have hmem : dir ∈ tree.directories := AList.lookup_isSome.mp (by simp [hdir])
      rw [AList.mem_insert]
      constructor
      · rintro (rfl | h)
        · exact hmem
        · exact h
      · exact Or.inr

omit [DecidableEq δ] [DecidableEq ν] in
@[simp] theorem mem_directories_modify (change : γ → γ) (dir' : δ) :
    dir' ∈ (tree.modify file change).directories ↔ dir' ∈ tree.directories := Iff.rfl

omit [DecidableEq ν] in
@[simp] theorem mem_directories_createDirectory (dir' : δ) :
    dir' ∈ (tree.createDirectory dir).directories ↔ dir' = dir ∨ dir' ∈ tree.directories := by
  unfold createDirectory
  split
  · next hmem =>
      constructor
      · exact Or.inr
      · rintro (rfl | h)
        · exact hmem
        · exact h
  · exact AList.mem_insert _

@[simp] theorem content_link : (tree.link dir name file).content = tree.content := by
  unfold link
  split <;> rfl

@[simp] theorem content_unlink : (tree.unlink dir name).content = tree.content := by
  unfold unlink
  split <;> rfl

@[simp] theorem content_retain (keep : ν → Bool) :
    (tree.retain dir keep).content = tree.content := by
  unfold retain
  split <;> rfl

omit [DecidableEq ν] in
@[simp] theorem content_createDirectory : (tree.createDirectory dir).content = tree.content := by
  unfold createDirectory
  split <;> rfl

omit [DecidableEq ν] in
@[simp] theorem content_renameDirectory (source target : δ) :
    (tree.renameDirectory source target).content = tree.content := by
  unfold renameDirectory
  split <;> rfl

@[simp] theorem content_create :
    (tree.create dir name content).content = Function.update tree.content tree.fresh content :=
  content_link

@[simp] theorem fresh_link : (tree.link dir name file).fresh = tree.fresh := by
  unfold link
  split <;> rfl

@[simp] theorem fresh_unlink : (tree.unlink dir name).fresh = tree.fresh := by
  unfold unlink
  split <;> rfl

@[simp] theorem fresh_retain (keep : ν → Bool) : (tree.retain dir keep).fresh = tree.fresh := by
  unfold retain
  split <;> rfl

omit [DecidableEq ν] in
@[simp] theorem fresh_createDirectory : (tree.createDirectory dir).fresh = tree.fresh := by
  unfold createDirectory
  split <;> rfl

omit [DecidableEq δ] [DecidableEq ν] in
@[simp] theorem fresh_modify (change : γ → γ) :
    (tree.modify file change).fresh = tree.fresh := rfl

@[simp] theorem fresh_create : (tree.create dir name content).fresh = tree.fresh + 1 :=
  fresh_link

/-- A file handed out earlier keeps its content when a new one is created. -/
theorem content_create_of_lt (h : file < tree.fresh) :
    (tree.create dir name content).content file = tree.content file := by
  rw [content_create, Function.update_of_ne (Nat.ne_of_lt h)]

omit [DecidableEq δ] [DecidableEq ν] in
theorem content_modify_of_ne {other : Nat} {change : γ → γ} (h : other ≠ file) :
    (tree.modify file change).content other = tree.content other :=
  Function.update_of_ne h _ _

/-! ## Links stay within the numbers handed out -/

theorem Allocated.link (h : tree.Allocated) (hfile : file < tree.fresh) :
    (tree.link dir name file).Allocated := by
  intro dir' name' file' hentry
  rw [entry_link] at hentry
  rw [fresh_link]
  split at hentry
  · cases hentry
    exact hfile
  · exact h dir' name' file' hentry

theorem Allocated.retain (h : tree.Allocated) (keep : ν → Bool) :
    (tree.retain dir keep).Allocated := by
  intro dir' name' file' hentry
  rw [entry_retain] at hentry
  rw [fresh_retain]
  split at hentry
  · cases hentry
  · exact h dir' name' file' hentry

theorem Allocated.create (h : tree.Allocated) : (tree.create dir name content).Allocated := by
  intro dir' name' file' hentry
  rw [entry_create] at hentry
  rw [fresh_create]
  split at hentry
  · cases hentry
    exact Nat.lt_succ_self _
  · exact Nat.lt_succ_of_lt (h dir' name' file' hentry)

theorem Allocated.createDirectory (h : tree.Allocated) :
    (tree.createDirectory dir).Allocated := by
  intro dir' name' file' hentry
  rw [entry_createDirectory] at hentry
  rw [fresh_createDirectory]
  exact h dir' name' file' hentry

/-! ## Additions -/

/-- The new tree has all names and files of the old one. -/
structure Extends (old new : FileTree δ ν γ) : Prop where
  entry : ∀ dir name file, old.entry dir name = some file → new.entry dir name = some file
  content : ∀ file < old.fresh, new.content file = old.content file
  fresh : old.fresh ≤ new.fresh
  directories : ∀ dir, dir ∈ old.directories → dir ∈ new.directories

theorem Extends.refl (tree : FileTree δ ν γ) : Extends tree tree :=
  ⟨fun _ _ _ h => h, fun _ _ => rfl, Nat.le_refl _, fun _ h => h⟩

theorem Extends.trans {first second third : FileTree δ ν γ} (h : Extends first second)
    (h' : Extends second third) : Extends first third where
  entry dir name file hentry := h'.entry dir name file (h.entry dir name file hentry)
  content file hfile :=
    (h'.content file (Nat.lt_of_lt_of_le hfile h.fresh)).trans (h.content file hfile)
  fresh := Nat.le_trans h.fresh h'.fresh
  directories dir hdir := h'.directories dir (h.directories dir hdir)

theorem extends_createDirectory : Extends tree (tree.createDirectory dir) where
  entry dir' name' file' hentry := by simpa using hentry
  content file' _ := by simp
  fresh := by simp
  directories dir' hdir := by simp [hdir]

theorem extends_link (h : tree.entry dir name = none) : Extends tree (tree.link dir name file) where
  entry dir' name' file' hentry := by
    rw [entry_link, if_neg]
    · exact hentry
    · rintro ⟨rfl, rfl, -⟩
      rw [h] at hentry
      cases hentry
  content file' _ := by simp
  fresh := by simp
  directories dir' hdir := by simpa using hdir

theorem extends_create (h : tree.entry dir name = none) :
    Extends tree (tree.create dir name content) where
  entry dir' name' file' hentry := by
    rw [entry_create, if_neg]
    · exact hentry
    · rintro ⟨rfl, rfl, -⟩
      rw [h] at hentry
      cases hentry
  content file' hfile := content_create_of_lt hfile
  fresh := by simp
  directories dir' hdir := by simpa using hdir

end FileTree

end Memex.Files
