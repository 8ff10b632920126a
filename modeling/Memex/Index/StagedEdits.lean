import Memex.Index.StagedView

/-! # Edits of a staged view

Each edit keeps the staged view consistent, changes what the edited name stands
for, and leaves every other generation's files in place. -/

namespace Memex.Index

open Files (FileTree)

/-! ## What other generations see of an edit -/

/-- A change under one directory that only adds to the segment store. Files below
`base` keep their content. -/
structure Leaves (path : Location) (base : Nat) (old new : Disk) : Prop where
  elsewhere : ∀ dir name, dir ≠ path → (∀ owner, dir ≠ .owner owner) →
    new.entry dir name = old.entry dir name
  stored : ∀ owner name file, old.entry (.owner owner) name = some file →
    new.entry (.owner owner) name = some file
  content : ∀ file < base, new.content file = old.content file
  fresh : old.fresh ≤ new.fresh

theorem Leaves.refl (path : Location) (base : Nat) (disk : Disk) : Leaves path base disk disk :=
  ⟨fun _ _ _ _ => rfl, fun _ _ _ h => h, fun _ _ => rfl, Nat.le_refl _⟩

theorem Leaves.trans {path : Location} {base : Nat} {first second third : Disk}
    (h : Leaves path base first second) (h' : Leaves path base second third) :
    Leaves path base first third where
  elsewhere dir name hdir howner :=
    (h'.elsewhere dir name hdir howner).trans (h.elsewhere dir name hdir howner)
  stored owner name file hentry := h'.stored owner name file (h.stored owner name file hentry)
  content file hfile := (h'.content file hfile).trans (h.content file hfile)
  fresh := Nat.le_trans h.fresh h'.fresh

theorem Leaves.mono {path : Location} {base base' : Nat} {old new : Disk}
    (h : Leaves path base old new) (hbase : base' ≤ base) : Leaves path base' old new :=
  ⟨h.elsewhere, h.stored, fun file hfile => h.content file (Nat.lt_of_lt_of_le hfile hbase),
    h.fresh⟩

/-- A view with its whole contents in place, elsewhere than under a given directory. -/
structure OpenElsewhere (path : Location) (disk : Disk) (other : View) : Prop where
  elsewhere : other.path ≠ path
  apart : ∀ owner, other.path ≠ .owner owner
  resolved : other.Resolved disk

section Others

variable {path : Location} {old new : Disk} {other : View}

private theorem read_eq_of_leaves (h : Leaves path old.fresh old new) (halloc : old.Allocated)
    {dir : Location} {name : Name} (hentry : new.entry dir name = old.entry dir name) :
    new.read dir name = old.read dir name := by
  unfold FileTree.read
  rw [hentry]
  cases hfile : old.entry dir name with
  | none => rfl
  | some file => simp [h.content file (halloc dir name file hfile)]

/-- No answer of another view changes. -/
theorem OpenElsewhere.answers (hother : OpenElsewhere path old other)
    (h : Leaves path old.fresh old new) (halloc : old.Allocated) (name : Name) :
    other.fileExists new name = other.fileExists old name ∧
      other.atomicRead new name = other.atomicRead old name ∧
      other.getFileHandle new name = other.getFileHandle old name := by
  have hentry : new.entry other.path name = old.entry other.path name :=
    h.elsewhere _ _ hother.elsewhere hother.apart
  have hlocal : View.localRead new other name = View.localRead old other name := by
    simp only [View.localRead, read_eq_of_leaves h halloc hentry]
  have hshared : ∀ owner, other.manifest.files.lookup name = some owner →
      View.sharedPath new owner name = View.sharedPath old owner name := by
    intro owner howner
    obtain ⟨file, hfile⟩ := hother.resolved name owner howner
    have hstored : new.entry (.owner owner) name = old.entry (.owner owner) name := by
      rw [hfile, h.stored owner name file hfile]
    simp only [View.sharedPath, read_eq_of_leaves h halloc hstored]
  have hhandle : other.getFileHandle new name = other.getFileHandle old name := by
    unfold View.getFileHandle
    cases hname : checkedName name with
    | error error => rfl
    | ok checked =>
        obtain ⟨-, rfl⟩ := checkedName_eq_ok.mp hname
        simp only [hlocal]
        cases howner : other.manifest.files.lookup name with
        | none => rfl
        | some owner => simp only [hshared owner howner]
  refine ⟨?_, ?_, hhandle⟩
  · unfold View.fileExists
    cases hname : checkedName name with
    | error error => rfl
    | ok checked =>
        obtain ⟨-, rfl⟩ := checkedName_eq_ok.mp hname
        simp only [hentry]
        cases howner : other.manifest.files.lookup name with
        | none => rfl
        | some owner => simp only [hshared owner howner]
  · unfold View.atomicRead
    rw [hlocal, hhandle]

end Others

/-! ## Edits of one name -/

namespace View

variable {disk disk' : Disk} {view view' : View} {path : Name}

/-- An edit that makes one name stand for a given file. -/
structure Edits (path : Name) (outcome : Option Nat) (disk disk' : Disk) (view view' : View) :
    Prop where
  staged : view'.Staged disk'
  place : view'.path = view.path
  shows : ∀ name, name ∉ reservedNames →
    view'.resolve disk' name = if name = path then outcome else view.resolve disk name
  own : ∀ name, name ≠ path → (view'.Own name ↔ view.Own name)
  own_path : ∀ file, outcome = some file → view'.Own path
  leaves : Leaves view.path disk.fresh disk disk'

/-- What a successful `delete` has done. -/
theorem delete_eq_ok (h : view.delete disk path = .ok (disk', view')) :
    view' = { view with
        created := view.created.erase path
        deleted := insert path view.deleted } ∧
      (disk' = disk.unlink view.path path ∨
        disk' = disk ∧ disk.entry view.path path = none) := by
  unfold delete at h
  split at h
  · cases h
  split at h
  · cases h
  dsimp only at h
  split at h
  · cases h
    exact ⟨rfl, Or.inl rfl⟩
  next hnone =>
  split at h
  · cases h
    exact ⟨rfl, Or.inr ⟨rfl, by simpa using hnone⟩⟩
  · cases h

theorem Staged.delete (hstaged : view.Staged disk)
    (h : view.delete disk path = .ok (disk', view')) : Edits path none disk disk' view view' := by
  obtain ⟨rfl, hdisk⟩ := delete_eq_ok h
  have hentry : ∀ dir name, disk'.entry dir name =
      if dir = view.path ∧ name = path then none else disk.entry dir name := by
    intro dir name
    obtain rfl | ⟨rfl, hnone⟩ := hdisk
    · exact FileTree.entry_unlink dir name
    · split
      · next heq => rw [heq.1, heq.2, hnone]
      · rfl
  have hcontent : disk'.content = disk.content := by
    obtain rfl | ⟨rfl, -⟩ := hdisk
    · exact FileTree.content_unlink
    · rfl
  have hfresh : disk'.fresh = disk.fresh := by
    obtain rfl | ⟨rfl, -⟩ := hdisk
    · exact FileTree.fresh_unlink
    · rfl
  have hstore : ∀ owner name, disk'.entry (.owner owner) name = disk.entry (.owner owner) name := by
    intro owner name
    rw [hentry, if_neg]
    exact fun heq => hstaged.apart owner heq.1.symm
  refine ⟨⟨?_, hstaged.writable, ?_, hstaged.apart, ?_, ?_, ?_, hstaged.safe⟩, rfl, ?_, ?_, ?_, ?_⟩
  · intro dir name file hfile
    rw [hentry] at hfile
    rw [hfresh]
    split at hfile
    · cases hfile
    · exact hstaged.allocated dir name file hfile
  · obtain rfl | ⟨rfl, -⟩ := hdisk
    · simpa using hstaged.present
    · exact hstaged.present
  · intro name hmetadata
    rw [hentry, Finset.mem_erase, hstaged.created name hmetadata]
    by_cases hname : name = path
    · simp [hname]
    · simp [hname]
  · intro name hname hreserved
    rw [hentry]
    split
    · rfl
    · next hne =>
        rw [Finset.mem_insert] at hname
        obtain rfl | hname := hname
        · exact absurd ⟨rfl, rfl⟩ hne
        · exact hstaged.deleted name hname hreserved
  · intro name owner hlookup
    rw [hstore]
    exact hstaged.resolved name owner hlookup
  · intro name _
    unfold resolve
    by_cases hname : name = path
    · simp [hname]
    · have hmem : name ∈ insert path view.deleted ↔ name ∈ view.deleted := by simp [hname]
      have hcreated : name ∈ view.created.erase path ↔ name ∈ view.created := by simp [hname]
      have hlocal : disk'.entry view.path name = disk.entry view.path name := by
        rw [hentry, if_neg (fun heq => hname heq.2)]
      simp only [hname, if_false, hmem, hcreated, hlocal, hstore]
  · intro name hname
    simp [Own, hname]
  · intro file hfile
    cases hfile
  · refine ⟨fun dir name hdir _ => ?_, fun owner name file hfile => ?_, fun file _ => ?_, ?_⟩
    · rw [hentry, if_neg (fun heq => hdir heq.1)]
    · rw [hstore, hfile]
    · rw [hcontent]
    · rw [hfresh]

/-- The common part of `open_write` and `atomic_write`: a new file under the name. -/
theorem Staged.put (hstaged : view.Staged disk) (contents : Contents) {created : Finset Name}
    (hcreated : ∀ name, name ∈ created ↔
      name ∈ view.created ∨ name = path ∧ (metadataFile path = false ∨ path ∈ created)) :
    Edits path (some disk.fresh) disk (disk.create view.path path contents) view
      { view with deleted := view.deleted.erase path, created := created } := by
  have hentry : ∀ dir name, (disk.create view.path path contents).entry dir name =
      if dir = view.path ∧ name = path then some disk.fresh else disk.entry dir name := by
    intro dir name
    rw [FileTree.entry_create]
    simp only [hstaged.present, and_true]
  have hstore : ∀ owner name, (disk.create view.path path contents).entry (.owner owner) name =
      disk.entry (.owner owner) name := by
    intro owner name
    rw [hentry, if_neg]
    exact fun heq => hstaged.apart owner heq.1.symm
  have hown : ∀ name, name ≠ path →
      (metadataFile name = true ∨ name ∈ created ↔
        metadataFile name = true ∨ name ∈ view.created) := by
    intro name hname
    simp [hcreated name, hname]
  have hownPath : metadataFile path = true ∨ path ∈ created := by
    cases hmetadata : metadataFile path with
    | true => exact Or.inl rfl
    | false => exact Or.inr ((hcreated path).mpr (Or.inr ⟨rfl, Or.inl hmetadata⟩))
  refine ⟨⟨hstaged.allocated.create, hstaged.writable, ?_, hstaged.apart, ?_, ?_, ?_,
    hstaged.safe⟩, rfl, ?_, hown, fun _ _ => hownPath, ?_⟩
  · exact (FileTree.mem_directories_create view.path).mpr hstaged.present
  · intro name hmetadata
    rw [hentry]
    by_cases hname : name = path
    · subst hname
      simpa [hmetadata] using hownPath
    · have hrest := hstaged.created name hmetadata
      simp [hcreated name, hname, hrest]
  · intro name hname hreserved
    rw [Finset.mem_erase] at hname
    rw [hentry, if_neg (fun heq => hname.1 heq.2)]
    exact hstaged.deleted name hname.2 hreserved
  · intro name owner hlookup
    rw [hstore]
    exact hstaged.resolved name owner hlookup
  · intro name _
    unfold resolve
    by_cases hname : name = path
    · subst hname
      have hmem : name ∉ view.deleted.erase name := Finset.notMem_erase name view.deleted
      have hlocal : (metadataFile name || decide (name ∈ created)) = true := by
        simpa using hownPath
      simp only [hmem, if_false, hlocal, if_true, hentry, and_self]
    · have hmem : name ∈ view.deleted.erase path ↔ name ∈ view.deleted := by simp [hname]
      have hlocal : name ∈ created ↔ name ∈ view.created := by simp [hcreated name, hname]
      have hfile : (disk.create view.path path contents).entry view.path name =
          disk.entry view.path name := by
        rw [hentry, if_neg (fun heq => hname heq.2)]
      simp only [hname, if_false, hmem, hlocal, hfile, hstore]
  · refine ⟨fun dir name hdir _ => ?_, fun owner name file hfile => ?_, fun file hfile => ?_, ?_⟩
    · rw [hentry, if_neg (fun heq => hdir heq.1)]
    · rw [hstore, hfile]
    · exact FileTree.content_create_of_lt hfile
    · simp

theorem Staged.openWrite (hstaged : view.Staged disk) {writer : Nat}
    (h : view.openWrite disk path = .ok (disk', view', writer)) :
    Edits path (some disk.fresh) disk disk' view view' ∧ writer = disk.fresh ∧
      disk'.content = Function.update disk.content disk.fresh (.bytes []) ∧
      disk'.fresh = disk.fresh + 1 := by
  unfold View.openWrite at h
  split at h
  · cases h
  split at h
  · cases h
  split at h
  · cases h
  cases h
  refine ⟨hstaged.put (.bytes []) fun name => ?_, rfl, FileTree.content_create,
    FileTree.fresh_create⟩
  simp [or_comm]

theorem Staged.atomicWrite (hstaged : view.Staged disk) {data : Bytes}
    (h : view.atomicWrite disk path data = .ok (disk', view')) :
    Edits path (some disk.fresh) disk disk' view view' ∧
      disk'.content = Function.update disk.content disk.fresh (.bytes data) ∧
      disk'.fresh = disk.fresh + 1 := by
  unfold View.atomicWrite at h
  split at h
  · cases h
  split at h
  · cases h
  cases h
  refine ⟨hstaged.put (.bytes data) fun name => ?_, FileTree.content_create,
    FileTree.fresh_create⟩
  cases hmetadata : metadataFile path with
  | true =>
      by_cases hpath : path ∈ view.created
      · simp only [if_true, hpath, or_true, and_true]
        constructor
        · exact Or.inl
        · rintro (hname | rfl)
          · exact hname
          · exact hpath
      · simp [hpath]
  | false => simp [or_comm]

end View

end Memex.Index
