import Memex.Index.SharedDirectory

/-! # What a view answers

Every question to a view is answered by the file its name stands for, and each
edit of a staged view changes that file for the edited name alone. -/

namespace Memex.Index

open Files (FileTree)

/-! ## Answers from what is seen under a name -/

/-- The answer to `exists` where `seen` is the content under a name. -/
def answerExists (path : Name) (seen : Option Contents) : Except IndexError Bool :=
  match checkedName path with
  | .error error => .error error
  | .ok _ => .ok seen.isSome

/-- The answer to a read where `seen` is the content under a name. -/
def answerRead (path : Name) (seen : Option Contents) : Except IndexError Contents :=
  match checkedName path with
  | .error error => .error error
  | .ok _ =>
      match seen with
      | none => .error (.fileDoesNotExist path)
      | some contents => .ok contents

namespace View

/-- The file a name stands for. -/
def resolve (disk : Disk) (view : View) (name : Name) : Option Nat :=
  if name ∈ view.deleted then none
  else if metadataFile name || name ∈ view.created then disk.entry view.path name
  else (view.manifest.files.lookup name).bind fun owner => disk.entry (.owner owner) name

/-- The content a view shows under a name. -/
def sees (disk : Disk) (view : View) (name : Name) : Option Contents :=
  (view.resolve disk name).map disk.content

/-- Every reference leads to a stored file. -/
def Resolved (disk : Disk) (view : View) : Prop :=
  ∀ name owner, view.manifest.files.lookup name = some owner →
    ∃ file, disk.entry (.owner owner) name = some file

/-- No deleted name is left in the directory, but for the files the storage layer puts back. -/
def Deleted (disk : Disk) (view : View) : Prop :=
  ∀ name ∈ view.deleted, name ∉ reservedNames → disk.entry view.path name = none

variable {disk : Disk} {view : View} {path : Name}

theorem fileExists_eq (h : view.Resolved disk) (path : Name) :
    view.fileExists disk path = answerExists path (view.sees disk path) := by
  unfold fileExists answerExists sees resolve
  cases hname : checkedName path with
  | error error => rfl
  | ok name =>
      obtain ⟨-, rfl⟩ := checkedName_eq_ok.mp hname
      by_cases hdeleted : path ∈ view.deleted
      · simp [hdeleted]
      · by_cases hlocal : (metadataFile path || path ∈ view.created) = true
        · simp [hdeleted, hlocal]
        · cases hlookup : view.manifest.files.lookup path with
          | none => simp [hdeleted, hlocal, hlookup]
          | some owner =>
              obtain ⟨file, hfile⟩ := h path owner hlookup
              simp [hdeleted, hlocal, hlookup, sharedPath, FileTree.read, hfile, Except.map]

theorem getFileHandle_eq (h : view.Resolved disk) (path : Name) :
    view.getFileHandle disk path = answerRead path (view.sees disk path) := by
  unfold getFileHandle answerRead sees resolve
  cases hname : checkedName path with
  | error error => rfl
  | ok name =>
      obtain ⟨-, rfl⟩ := checkedName_eq_ok.mp hname
      by_cases hdeleted : path ∈ view.deleted
      · simp [hdeleted]
      · by_cases hlocal : (metadataFile path || path ∈ view.created) = true
        · cases hentry : disk.entry view.path path <;>
            simp [hdeleted, hlocal, localRead, FileTree.read, hentry]
        · cases hlookup : view.manifest.files.lookup path with
          | none => simp [hdeleted, hlocal, hlookup]
          | some owner =>
              obtain ⟨file, hfile⟩ := h path owner hlookup
              simp [hdeleted, hlocal, hlookup, sharedPath, FileTree.read, hfile]

theorem atomicRead_eq (h : view.Resolved disk)
    (hdeleted : path ∈ view.deleted → disk.entry view.path path = none) :
    view.atomicRead disk path = answerRead path (view.sees disk path) := by
  unfold atomicRead
  cases hname : checkedName path with
  | error error => simp [answerRead, hname]
  | ok name =>
      dsimp only
      split
      · next hmetadata =>
          simp only [answerRead, hname, localRead, sees, resolve, hmetadata, Bool.true_or, if_true,
            FileTree.read]
          by_cases hmem : path ∈ view.deleted
          · simp [hmem, hdeleted hmem]
          · cases hentry : disk.entry view.path path <;> simp [hmem]
      · exact getFileHandle_eq h path

/-! ## The state of a staged view -/

/-- What holds of a staged view between two edits. -/
structure Staged (disk : Disk) (view : View) : Prop where
  allocated : disk.Allocated
  writable : view.sealed = false
  present : view.path ∈ disk.directories
  apart : ∀ owner, view.path ≠ .owner owner
  created : ∀ name, metadataFile name = false →
    (name ∈ view.created ↔ ∃ file, disk.entry view.path name = some file)
  deleted : view.Deleted disk
  resolved : view.Resolved disk
  safe : view.manifest.Safe

/-- The view answers for a name from its own directory. -/
def Own (view : View) (name : Name) : Prop :=
  metadataFile name = true ∨ name ∈ view.created

instance (view : View) (name : Name) : Decidable (view.Own name) :=
  inferInstanceAs (Decidable (_ ∨ _))

theorem resolve_of_own (h : view.Own path) (hdeleted : path ∉ view.deleted) :
    view.resolve disk path = disk.entry view.path path := by
  unfold resolve
  rw [if_neg hdeleted, if_pos]
  simpa [Own] using h

theorem resolve_of_not_own (h : ¬ view.Own path) (hdeleted : path ∉ view.deleted) :
    view.resolve disk path =
      (view.manifest.files.lookup path).bind fun owner => disk.entry (.owner owner) path := by
  unfold resolve
  rw [if_neg hdeleted, if_neg]
  simpa [Own] using h

theorem resolve_of_deleted (h : path ∈ view.deleted) : view.resolve disk path = none :=
  if_pos h

theorem resolve_mem {file : Nat} (h : view.resolve disk path = some file) :
    ∃ dir, disk.entry dir path = some file := by
  unfold resolve at h
  split at h
  · cases h
  split at h
  · exact ⟨_, h⟩
  · obtain ⟨owner, -, hfile⟩ := Option.bind_eq_some_iff.mp h
    exact ⟨_, hfile⟩

theorem Staged.resolve_lt (h : view.Staged disk) {file : Nat}
    (hfile : view.resolve disk path = some file) : file < disk.fresh := by
  obtain ⟨dir, hdir⟩ := resolve_mem hfile
  exact h.allocated dir path file hdir

end View

end Memex.Index
