import Memex.Index.StagedPublication

/-! # Copy on write

A staged directory answers as a private copy of its source would, which is
edited in place and knows nothing of manifests and owners. -/

namespace Memex.Index

open Files (FileTree)

/-! ## The private copy -/

/-- A file of a private copy: taken over from the source, written at once, or the
output of a writer. -/
inductive Cell where
  | inherited (contents : Contents)
  | written (contents : Contents)
  | stream (writer : Nat)

/-- A directory of its own, with what each of its writers has written. -/
structure PrivateCopy where
  files : Name → Option Cell
  streams : List Bytes

/-- The edits of a staged directory. Writers are numbered in the order of the calls
of `open_write` that returned them. -/
inductive Edit where
  | openWrite (path : Name)
  | write (writer : Nat) (data : Bytes)
  | atomicWrite (path : Name) (data : Bytes)
  | delete (path : Name)
  | reset
  | preparePublication (committed : List Name) (linked : Name → Bool)

namespace PrivateCopy

/-- The content of a file. -/
def cellContents (copy : PrivateCopy) : Cell → Option Contents
  | .inherited contents => some contents
  | .written contents => some contents
  | .stream writer => (copy.streams[writer]?).map .bytes

/-- What a name shows. -/
def sees (copy : PrivateCopy) (name : Name) : Option Contents :=
  (copy.files name).bind copy.cellContents

def fileExists (copy : PrivateCopy) (path : Name) : Except IndexError Bool :=
  answerExists path (copy.sees path)

def read (copy : PrivateCopy) (path : Name) : Except IndexError Contents :=
  answerRead path (copy.sees path)

/-- An edit in place. A publication drops the files taken over from the source that are
not committed any more. -/
def apply (copy : PrivateCopy) : Edit → PrivateCopy
  | .openWrite path =>
      { files := Function.update copy.files path (some (.stream copy.streams.length))
        streams := copy.streams ++ [[]] }
  | .write writer data => { copy with streams := copy.streams.modify writer (· ++ data) }
  | .atomicWrite path data =>
      { copy with files := Function.update copy.files path (some (.written (.bytes data))) }
  | .delete path => { copy with files := Function.update copy.files path none }
  | .reset => { copy with files := fun _ => none }
  | .preparePublication committed _ =>
      { copy with files := fun name =>
          match copy.files name with
          | some (.inherited contents) =>
              if name ∈ committed then some (.inherited contents) else none
          | other => other }

/-- The private copy of a source. -/
def ofSource (disk : Disk) (source : Option Location) (committed : List Name) : PrivateCopy where
  files name :=
    (View.sourceShows disk source committed name).map fun contents =>
      if metadataFile name then .written contents else .inherited contents
  streams := []

end PrivateCopy

/-! ## Sessions on a staged directory -/

/-- A staged directory in use, with the files its writers append to. -/
structure Session where
  disk : Disk
  view : View
  writers : List Nat

/-- Append to a file. -/
def Contents.append (data : Bytes) : Contents → Contents
  | .bytes old => .bytes (old ++ data)
  | .text stored => .text stored
  | .manifest stored => .manifest stored

namespace Session

/-- One edit, with its result. -/
def apply (owner : Owner) (session : Session) : Edit → Session × Except IndexError Unit
  | .openWrite path =>
      match session.view.openWrite session.disk path with
      | .error error => (session, .error error)
      | .ok (disk, view, writer) => (⟨disk, view, session.writers ++ [writer]⟩, .ok ())
  | .write writer data =>
      match session.writers[writer]? with
      | none => (session, .error .notFound)
      | some file => ({ session with disk := session.disk.modify file (·.append data) }, .ok ())
  | .atomicWrite path data =>
      match session.view.atomicWrite session.disk path data with
      | .error error => (session, .error error)
      | .ok (disk, view) => ({ session with disk := disk, view := view }, .ok ())
  | .delete path =>
      match session.view.delete session.disk path with
      | .error error => (session, .error error)
      | .ok (disk, view) => ({ session with disk := disk, view := view }, .ok ())
  | .reset =>
      let (disk, view) := session.view.reset session.disk
      ({ session with disk := disk, view := view }, .ok ())
  | .preparePublication committed linked =>
      match session.view.preparePublication owner committed linked session.disk with
      | (disk, .error error) => ({ session with disk := disk }, .error error)
      | (disk, .ok view) => ({ session with disk := disk, view := view }, .ok ())

/-- A sequence of edits on a staged directory, and on a private copy those of them that
the staged directory has accepted. -/
def shadow (owner : Owner) : List Edit → Session × PrivateCopy → Session × PrivateCopy
  | [], state => state
  | edit :: rest, (session, copy) =>
      match session.apply owner edit with
      | (session, .ok ()) => shadow owner rest (session, copy.apply edit)
      | (session, .error _) => shadow owner rest (session, copy)

end Session

/-! ## The staged directory mirrors the private copy -/

/-- A name of the staged directory stands for a cell of the private copy. -/
def Stands (session : Session) (name : Name) : Option Cell → Prop
  | none => session.view.resolve session.disk name = none
  | some (.inherited contents) => ¬ session.view.Own name ∧
      ∃ file, session.view.resolve session.disk name = some file ∧ file ∉ session.writers ∧
        session.disk.content file = contents
  | some (.written contents) => session.view.Own name ∧
      ∃ file, session.view.resolve session.disk name = some file ∧ file ∉ session.writers ∧
        session.disk.content file = contents
  | some (.stream writer) => session.view.Own name ∧
      ∃ file, session.writers[writer]? = some file ∧
        session.view.resolve session.disk name = some file

/-- The invariant between two edits. Writers only append to files at or above `base`. -/
structure Mirrors (base : Nat) (session : Session) (copy : PrivateCopy) : Prop where
  staged : session.view.Staged session.disk
  base_le : base ≤ session.disk.fresh
  writers : ∀ file ∈ session.writers, base ≤ file ∧ file < session.disk.fresh
  nodup : session.writers.Nodup
  streams : copy.streams.map .bytes = session.writers.map session.disk.content
  files : ∀ name, name ∉ reservedNames → Stands session name (copy.files name)

/-- A name keeps what it stands for where its file stays as it was. -/
theorem Stands.congr {session session' : Session} {name : Name} {cell : Option Cell}
    (h : Stands session name cell)
    (hresolve : session'.view.resolve session'.disk name = session.view.resolve session.disk name)
    (hown : session'.view.Own name ↔ session.view.Own name)
    (hfile : ∀ file, session.view.resolve session.disk name = some file →
      (file ∈ session'.writers → file ∈ session.writers) ∧
      (file ∉ session.writers → session'.disk.content file = session.disk.content file))
    (hwriters : ∀ (writer file : Nat), session.writers[writer]? = some file →
      session'.writers[writer]? = some file) :
    Stands session' name cell := by
  match cell, h with
  | none, h => exact hresolve.trans h
  | some (.inherited contents), ⟨hnot, file, hres, hmem, hcontent⟩ =>
      obtain ⟨hold, hsame⟩ := hfile file hres
      exact ⟨fun hall => hnot (hown.mp hall), file, hresolve.trans hres, fun hin => hmem (hold hin),
        (hsame hmem).trans hcontent⟩
  | some (.written contents), ⟨hmine, file, hres, hmem, hcontent⟩ =>
      obtain ⟨hold, hsame⟩ := hfile file hres
      exact ⟨hown.mpr hmine, file, hresolve.trans hres, fun hin => hmem (hold hin),
        (hsame hmem).trans hcontent⟩
  | some (.stream writer), ⟨hmine, file, hwriter, hres⟩ =>
      exact ⟨hown.mpr hmine, file, hwriters writer file hwriter, hresolve.trans hres⟩

section Mirroring

variable {base : Nat} {session session' : Session} {copy : PrivateCopy}

/-- The staged directory shows what the private copy shows. -/
theorem Mirrors.sees_eq (h : Mirrors base session copy) {name : Name}
    (hname : name ∉ reservedNames) :
    session.view.sees session.disk name = copy.sees name := by
  have hstands := h.files name hname
  unfold View.sees PrivateCopy.sees
  cases hcell : copy.files name with
  | none =>
      rw [hcell] at hstands
      have hnone : session.view.resolve session.disk name = none := hstands
      simp [hnone]
  | some cell =>
      rw [hcell] at hstands
      cases cell with
      | inherited contents =>
          obtain ⟨-, file, hres, -, hcontent⟩ := hstands
          simp [hres, PrivateCopy.cellContents, hcontent]
      | written contents =>
          obtain ⟨-, file, hres, -, hcontent⟩ := hstands
          simp [hres, PrivateCopy.cellContents, hcontent]
      | stream writer =>
          obtain ⟨-, file, hwriter, hres⟩ := hstands
          have hstream := congrArg (fun all => all[writer]?) h.streams
          simp only [List.getElem?_map, hwriter, Option.map_some] at hstream
          simp [hres, PrivateCopy.cellContents, hstream]

/-- An edit of one name, mirrored by an update of the private copy at that name. -/
theorem Mirrors.edits (h : Mirrors base session copy) {path : Name} {outcome : Option Nat}
    {disk : Disk} {view : View}
    (hedit : View.Edits path outcome session.disk disk session.view view)
    (created : List Nat) (streams : List Bytes) (cell : Option Cell)
    (hcreated : ∀ file ∈ created, session.disk.fresh ≤ file ∧ file < disk.fresh)
    (hnodup : created.Nodup) (hstreams : streams.map .bytes = created.map disk.content)
    (hcell : path ∉ reservedNames → Stands ⟨disk, view, session.writers ++ created⟩ path cell) :
    Mirrors base ⟨disk, view, session.writers ++ created⟩
      ⟨Function.update copy.files path cell, copy.streams ++ streams⟩ := by
  have hfresh := hedit.leaves.fresh
  refine ⟨hedit.staged, Nat.le_trans h.base_le hfresh, ?_, ?_, ?_, ?_⟩
  · intro file hfile
    dsimp only at hfile ⊢
    obtain hfile | hfile := List.mem_append.mp hfile
    · exact ⟨(h.writers file hfile).1, Nat.lt_of_lt_of_le (h.writers file hfile).2 hfresh⟩
    · exact ⟨Nat.le_trans h.base_le (hcreated file hfile).1, (hcreated file hfile).2⟩
  · refine List.nodup_append.mpr ⟨h.nodup, hnodup, fun file hfile other hother heq => ?_⟩
    have hlt := (h.writers file hfile).2
    have hge := (hcreated other hother).1
    omega
  · rw [List.map_append, List.map_append, hstreams, h.streams]
    congr 1
    apply List.map_congr_left
    intro file hfile
    exact (hedit.leaves.content file (h.writers file hfile).2).symm
  · intro name hname
    dsimp only
    by_cases hpath : name = path
    · subst hpath
      rw [Function.update_self]
      exact hcell hname
    · rw [Function.update_of_ne hpath]
      refine (h.files name hname).congr ?_ (hedit.own name hpath) ?_ ?_
      · rw [hedit.shows name hname, if_neg hpath]
      · intro file hres
        have hlt := h.staged.resolve_lt hres
        refine ⟨fun hmem => ?_, fun _ => hedit.leaves.content file hlt⟩
        obtain hmem | hmem := List.mem_append.mp hmem
        · exact hmem
        · have hge := (hcreated file hmem).1
          omega
      · intro writer file hwriter
        obtain ⟨hlt, -⟩ := List.getElem?_eq_some_iff.mp hwriter
        rw [List.getElem?_append_left hlt]
        exact hwriter

/-- The store may gain files without any effect on what is mirrored. -/
theorem Mirrors.adopts (h : Mirrors base session copy) {disk : Disk}
    (hadopts : Adopts session.disk disk) : Mirrors base { session with disk := disk } copy := by
  have hresolve : ∀ name, session.view.resolve disk name =
      session.view.resolve session.disk name := by
    intro name
    unfold View.resolve
    rw [hadopts.elsewhere _ h.staged.apart name]
    split
    · rfl
    split
    · rfl
    · cases hlookup : session.view.manifest.files.lookup name with
      | none => rfl
      | some owner =>
          obtain ⟨file, hfile⟩ := h.staged.resolved name owner hlookup
          simp [hfile, hadopts.extends_.entry _ _ _ hfile]
  have hcontent : ∀ file < session.disk.fresh, disk.content file = session.disk.content file :=
    hadopts.extends_.content
  refine ⟨⟨hadopts.allocated, h.staged.writable, hadopts.extends_.directories _ h.staged.present,
    h.staged.apart, ?_, ?_, ?_, h.staged.safe⟩, Nat.le_trans h.base_le hadopts.extends_.fresh, ?_,
    h.nodup, ?_, ?_⟩
  · intro name hname
    rw [hadopts.elsewhere _ h.staged.apart name]
    exact h.staged.created name hname
  · intro name hname hreserved
    rw [hadopts.elsewhere _ h.staged.apart name]
    exact h.staged.deleted name hname hreserved
  · intro name owner hlookup
    obtain ⟨file, hfile⟩ := h.staged.resolved name owner hlookup
    exact ⟨file, hadopts.extends_.entry _ _ _ hfile⟩
  · intro file hfile
    exact ⟨(h.writers file hfile).1,
      Nat.lt_of_lt_of_le (h.writers file hfile).2 hadopts.extends_.fresh⟩
  · rw [h.streams]
    apply List.map_congr_left
    intro file hfile
    exact (hcontent file (h.writers file hfile).2).symm
  · intro name hname
    refine (h.files name hname).congr (hresolve name) Iff.rfl ?_ fun _ _ hwriter => hwriter
    intro file hres
    exact ⟨id, fun _ => hcontent file (h.staged.resolve_lt hres)⟩

/-- One accepted edit is mirrored by the same edit of the private copy, and a refused edit
changes nothing. -/
theorem Mirrors.apply (h : Mirrors base session copy) {owner : Owner} {edit : Edit}
    {result : Except IndexError Unit} (happly : session.apply owner edit = (session', result)) :
    Mirrors base session' (match result with | .ok () => copy.apply edit | .error _ => copy) ∧
      session'.view.path = session.view.path ∧
      Leaves session.view.path base session.disk session'.disk := by
  cases edit with
  | openWrite path =>
      dsimp only [Session.apply] at happly
      split at happly
      · cases happly
        exact ⟨h, rfl, Leaves.refl _ _ _⟩
      next disk view writer hopen =>
      cases happly
      obtain ⟨hedit, rfl, hcontent, hfresh⟩ := h.staged.openWrite hopen
      refine ⟨?_, hedit.place, hedit.leaves.mono h.base_le⟩
      refine h.edits hedit [session.disk.fresh] [[]] _ ?_ ?_ ?_ ?_
      · simp [hfresh]
      · simp
      · simp [hcontent]
      · intro hname
        have hlength : session.writers.length = copy.streams.length := by
          simpa using (congrArg List.length h.streams).symm
        refine ⟨hedit.own_path _ rfl, session.disk.fresh, ?_, ?_⟩
        · simp [← hlength]
        · rw [hedit.shows path hname, if_pos rfl]
  | write writer data =>
      dsimp only [Session.apply] at happly
      split at happly
      · cases happly
        exact ⟨h, rfl, Leaves.refl _ _ _⟩
      next file hwriter =>
      cases happly
      have hmem : file ∈ session.writers := List.mem_of_getElem? hwriter
      have hother : ∀ other, other ≠ file →
          (session.disk.modify file (·.append data)).content other = session.disk.content other :=
        fun other hne => FileTree.content_modify_of_ne hne
      have hresolve : ∀ name, session.view.resolve (session.disk.modify file (·.append data)) name =
          session.view.resolve session.disk name := fun name => rfl
      refine ⟨⟨⟨h.staged.allocated, h.staged.writable, h.staged.present, h.staged.apart,
        h.staged.created, h.staged.deleted, h.staged.resolved, h.staged.safe⟩, h.base_le, h.writers,
        h.nodup, ?_, ?_⟩, rfl, ?_⟩
      · refine List.ext_getElem? fun index => ?_
        have hold := congrArg (fun all => all[index]?) h.streams
        simp only [List.getElem?_map] at hold ⊢
        cases hindex : session.writers[index]? with
        | none =>
            rw [hindex] at hold
            simpa [PrivateCopy.apply, List.getElem?_modify] using hold
        | some other =>
            rw [hindex] at hold
            cases hstream : copy.streams[index]? with
            | none => simp [hstream] at hold
            | some bytes =>
                have hbytes : session.disk.content other = .bytes bytes := by
                  simpa [hstream] using hold.symm
                by_cases heq : writer = index
                · subst heq
                  rw [hwriter] at hindex
                  cases hindex
                  simp [PrivateCopy.apply, hstream, FileTree.modify, hbytes, Contents.append]
                · have hne : other ≠ file := by
                    rintro rfl
                    obtain ⟨hlt, hget⟩ := List.getElem?_eq_some_iff.mp hwriter
                    obtain ⟨hlt', hget'⟩ := List.getElem?_eq_some_iff.mp hindex
                    exact heq ((h.nodup.getElem_inj_iff).mp (hget.trans hget'.symm))
                  simp [PrivateCopy.apply, hstream, hother other hne, hbytes, heq]
      · intro name hname
        refine (h.files name hname).congr (hresolve name) Iff.rfl ?_ fun _ _ hsome => hsome
        intro other _
        refine ⟨id, fun hnot => hother other ?_⟩
        rintro rfl
        exact hnot hmem
      · refine ⟨fun _ _ _ _ => rfl, fun _ _ _ hfile => hfile, fun other hlt => hother other ?_,
          Nat.le_refl _⟩
        have hbase := (h.writers file hmem).1
        omega
  | atomicWrite path data =>
      dsimp only [Session.apply] at happly
      split at happly
      · cases happly
        exact ⟨h, rfl, Leaves.refl _ _ _⟩
      next disk view hwrite =>
      cases happly
      obtain ⟨hedit, hcontent, hfresh⟩ := h.staged.atomicWrite hwrite
      refine ⟨?_, hedit.place, hedit.leaves.mono h.base_le⟩
      have hmirrors := h.edits hedit [] [] (some (.written (.bytes data))) (by simp) (by simp)
        (by simp) ?_
      · simpa [PrivateCopy.apply] using hmirrors
      · intro hname
        refine ⟨hedit.own_path _ rfl, session.disk.fresh, ?_, ?_, ?_⟩
        · rw [hedit.shows path hname, if_pos rfl]
        · intro hmem
          rw [List.append_nil] at hmem
          have hlt := (h.writers _ hmem).2
          omega
        · simp [hcontent]
  | delete path =>
      dsimp only [Session.apply] at happly
      split at happly
      · cases happly
        exact ⟨h, rfl, Leaves.refl _ _ _⟩
      next disk view hdelete =>
      cases happly
      have hedit := h.staged.delete hdelete
      refine ⟨?_, hedit.place, hedit.leaves.mono h.base_le⟩
      have hmirrors := h.edits hedit [] [] none (by simp) (by simp) (by simp) ?_
      · simpa [PrivateCopy.apply] using hmirrors
      · intro hname
        have hshows := hedit.shows path hname
        rwa [if_pos rfl] at hshows
  | reset =>
      dsimp only [Session.apply] at happly
      have hreset : session.view.reset session.disk =
          ((session.view.reset session.disk).1, (session.view.reset session.disk).2) := rfl
      obtain ⟨hstaged, hplace, hshows, hleaves⟩ := h.staged.reset hreset
      cases happly
      refine ⟨⟨hstaged, Nat.le_trans h.base_le hleaves.fresh, ?_, h.nodup, ?_, ?_⟩, hplace,
        hleaves.mono h.base_le⟩
      · intro file hfile
        exact ⟨(h.writers file hfile).1,
          Nat.lt_of_lt_of_le (h.writers file hfile).2 hleaves.fresh⟩
      · dsimp only [PrivateCopy.apply]
        rw [h.streams]
        apply List.map_congr_left
        intro file hfile
        exact (hleaves.content file (h.writers file hfile).2).symm
      · intro name hname
        exact hshows name hname
  | preparePublication committed linked =>
      dsimp only [Session.apply] at happly
      split at happly
      · next disk error hprepare =>
          cases happly
          have hadopts := h.staged.preparePublication_error hprepare
          exact ⟨h.adopts hadopts, rfl, (hadopts.leaves _).mono h.base_le⟩
      next disk view hprepare =>
      cases happly
      have hpublished := h.staged.preparePublication hprepare
      have hleaves := hpublished.leaves
      have hown : ∀ name, view.Own name ↔ session.view.Own name := by
        intro name
        unfold View.Own
        rw [hpublished.created]
      refine ⟨⟨hpublished.staged, Nat.le_trans h.base_le hleaves.fresh, ?_, h.nodup, ?_, ?_⟩,
        hpublished.place, hleaves.mono h.base_le⟩
      · intro file hfile
        exact ⟨(h.writers file hfile).1,
          Nat.lt_of_lt_of_le (h.writers file hfile).2 hleaves.fresh⟩
      · dsimp only [PrivateCopy.apply]
        rw [h.streams]
        apply List.map_congr_left
        intro file hfile
        exact (hleaves.content file (h.writers file hfile).2).symm
      · intro name hname
        have hshows := hpublished.shows name hname
        have hstands := h.files name hname
        have hkept : session.view.Own name ∨ name ∈ committed →
            Stands ⟨disk, view, session.writers⟩ name (copy.files name) := by
          intro hkeep
          rw [if_pos hkeep] at hshows
          refine hstands.congr hshows (hown name) ?_ fun _ _ hsome => hsome
          intro file hres
          exact ⟨id, fun _ => hleaves.content file (h.staged.resolve_lt hres)⟩
        dsimp only [PrivateCopy.apply]
        cases hcell : copy.files name with
        | none =>
            rw [hcell] at hstands
            have hnone : session.view.resolve session.disk name = none := hstands
            rw [hnone, ite_self] at hshows
            exact hshows
        | some cell =>
            rw [hcell] at hstands hkept
            cases cell with
            | inherited contents =>
                by_cases hcommitted : name ∈ committed
                · simp only [hcommitted, if_true]
                  exact hkept (Or.inr hcommitted)
                · rw [if_neg (by simp [hcommitted, hstands.1])] at hshows
                  simp only [hcommitted, if_false]
                  exact hshows
            | written contents => exact hkept (Or.inl hstands.1)
            | stream writer => exact hkept (Or.inl hstands.1)

/-- The run lemma: whatever edits come, the staged directory keeps mirroring its private
copy and leaves other generations alone. -/
theorem Mirrors.shadow (h : Mirrors base session copy) (owner : Owner) (edits : List Edit) :
    Mirrors base (Session.shadow owner edits (session, copy)).1
        (Session.shadow owner edits (session, copy)).2 ∧
      (Session.shadow owner edits (session, copy)).1.view.path = session.view.path ∧
      Leaves session.view.path base session.disk
        (Session.shadow owner edits (session, copy)).1.disk := by
  induction edits generalizing session copy with
  | nil => exact ⟨h, rfl, Leaves.refl _ _ _⟩
  | cons edit rest ih =>
      cases happly : session.apply owner edit with
      | mk next result =>
          obtain ⟨hnext, hplace, hleaves⟩ := h.apply happly
          cases result with
          | ok done =>
              obtain ⟨hlast, hlastPlace, hlastLeaves⟩ := ih hnext
              simp only [Session.shadow, happly]
              exact ⟨hlast, hlastPlace.trans hplace, hleaves.trans (hplace ▸ hlastLeaves)⟩
          | error error =>
              obtain ⟨hlast, hlastPlace, hlastLeaves⟩ := ih hnext
              simp only [Session.shadow, happly]
              exact ⟨hlast, hlastPlace.trans hplace, hleaves.trans (hplace ▸ hlastLeaves)⟩

end Mirroring

section Staging

variable {disk staged : Disk} {view : View} {owner : Owner} {destination : Location}
  {source : Option Location} {committed : List Name} {linked : Name → Bool}

/-- A fresh staging directory mirrors the private copy of its source. -/
theorem stage_mirrors (halloc : disk.Allocated) (hfresh : View.FreshDirectory disk destination)
    (hsource : ∀ place, source = some place →
      place ≠ destination ∧ ∀ owner, place ≠ .owner owner)
    (hstage : View.stage owner destination source committed linked disk = (staged, .ok view)) :
    Mirrors disk.fresh ⟨staged, view, []⟩ (PrivateCopy.ofSource disk source committed) ∧
      view.path = destination ∧ Leaves destination disk.fresh disk staged := by
  obtain ⟨hplace, hcreated, hdeleted, hstaged, hshows, hleaves⟩ :=
    View.stage_spec halloc hfresh hsource hstage
  refine ⟨⟨hstaged, hleaves.fresh, by simp, List.nodup_nil, rfl, fun name hname => ?_⟩, hplace,
    hleaves⟩
  have hsees := hshows name hname
  unfold View.sees at hsees
  dsimp only [PrivateCopy.ofSource]
  cases hsource : View.sourceShows disk source committed name with
  | none =>
      rw [hsource] at hsees
      have hnone : view.resolve staged name = none := by simpa using hsees
      exact hnone
  | some contents =>
      rw [hsource] at hsees
      obtain ⟨file, hres, hcontent⟩ := Option.map_eq_some_iff.mp hsees
      cases hmetadata : metadataFile name with
      | true => exact ⟨Or.inl hmetadata, file, hres, by simp, hcontent⟩
      | false =>
          refine ⟨?_, file, hres, by simp, hcontent⟩
          rintro (hmem | hmem)
          · rw [hmetadata] at hmem
            cases hmem
          · rw [hcreated] at hmem
            simp at hmem

/-- Copy on write: a staged directory answers for every name outside the storage layer's own
files as an edited private copy of the source would, other views answer as before, and
sealing keeps every committed file that the staged view has. -/
theorem shared_directory_is_copy_on_write (halloc : disk.Allocated)
    (hfresh : View.FreshDirectory disk destination)
    (hsource : ∀ place, source = some place →
      place ≠ destination ∧ ∀ owner, place ≠ .owner owner)
    (hstage : View.stage owner destination source committed linked disk = (staged, .ok view))
    (edits : List Edit) (session : Session) (copy : PrivateCopy)
    (hrun : Session.shadow owner edits
      (⟨staged, view, []⟩, PrivateCopy.ofSource disk source committed) = (session, copy)) :
    (∀ name, name ∉ reservedNames →
      session.view.fileExists session.disk name = copy.fileExists name ∧
        session.view.atomicRead session.disk name = copy.read name ∧
        session.view.getFileHandle session.disk name = copy.read name) ∧
      (∀ other, OpenElsewhere destination disk other → ∀ name,
        other.fileExists session.disk name = other.fileExists disk name ∧
          other.atomicRead session.disk name = other.atomicRead disk name ∧
          other.getFileHandle session.disk name = other.getFileHandle disk name) ∧
      ∀ files links prepared next final sealedView,
        session.view.preparePublication owner files links session.disk = (prepared, .ok next) →
        (∀ owner, final ≠ .owner owner) →
        next.sealAt final (prepared.renameDirectory next.path final) = .ok sealedView →
        ∀ name ∈ files, next.fileExists prepared name = .ok true →
          ∃ contents, next.atomicRead prepared name = .ok contents ∧
            sealedView.fileExists (prepared.renameDirectory next.path final) name = .ok true ∧
            sealedView.atomicRead (prepared.renameDirectory next.path final) name = .ok contents ∧
            sealedView.getFileHandle (prepared.renameDirectory next.path final) name =
              .ok contents := by
  obtain ⟨hstart, hplace, hstaging⟩ := stage_mirrors halloc hfresh hsource hstage
  obtain ⟨hmirrors, -, hleaves⟩ := hstart.shadow owner edits
  rw [hrun] at hmirrors hleaves
  dsimp only at hmirrors hleaves
  rw [hplace] at hleaves
  have hstate := hmirrors.staged
  refine ⟨fun name hname => ?_, fun other hother => ?_, ?_⟩
  · have hsees := hmirrors.sees_eq hname
    refine ⟨?_, ?_, ?_⟩
    · rw [View.fileExists_eq hstate.resolved, hsees]
      rfl
    · rw [View.atomicRead_eq hstate.resolved (fun hmem => hstate.deleted name hmem hname), hsees]
      rfl
    · rw [View.getFileHandle_eq hstate.resolved, hsees]
      rfl
  · exact hother.answers (hstaging.trans hleaves) halloc
  · intro files links prepared next final sealedView hprepare hfinal hseal name hname hexists
    have hpublished := hstate.preparePublication hprepare
    have hresolved := hpublished.staged.resolved
    obtain ⟨hsealed, hnone, hkept⟩ := hpublished.sealAt hfinal hseal
    rw [View.fileExists_eq hresolved] at hexists
    unfold answerExists at hexists
    split at hexists
    · cases hexists
    next checked hchecked =>
    cases hsees : next.sees prepared name with
    | none => simp [hsees] at hexists
    | some contents =>
        have hsealedSees := hkept name hname contents hsees
        have hnotDeleted : name ∉ next.deleted := by
          intro hmem
          simp [View.sees, View.resolve_of_deleted hmem] at hsees
        refine ⟨contents, ?_, ?_, ?_, ?_⟩
        · rw [View.atomicRead_eq hresolved (fun hmem => absurd hmem hnotDeleted)]
          simp [answerRead, hchecked, hsees]
        · rw [View.fileExists_eq hsealed]
          simp [answerExists, hchecked, hsealedSees]
        · rw [View.atomicRead_eq hsealed (fun hmem => by simp [hnone] at hmem)]
          simp [answerRead, hchecked, hsealedSees]
        · rw [View.getFileHandle_eq hsealed]
          simp [answerRead, hchecked, hsealedSees]

end Staging

/-! ## A published generation and a staging directory beside it -/

section Segment

/-- The creating generation of the stored segment. -/
private def firstOwner : Owner := "00000000000000000000000000000001-00000001"

/-- The generation in staging. -/
private def nextOwner : Owner := "00000000000000000000000000000002-00000001"

private def published : Location := .generation firstOwner

private def staging : Location := .generation (".00000000000000000000000000000002-00000001.tmp")

/-- A generation with one stored segment, and a new staging directory with its lease. -/
def segmentDisk : Disk :=
  let created : Disk := ⟨fun _ => .bytes [], 0, ∅⟩
  let created := created.createDirectory published
  let created := created.createDirectory (.owner firstOwner)
  let created := created.createDirectory staging
  let created := created.create (.owner firstOwner) "a.store" (.bytes [1, 2])
  let created := created.create published formatFile formatMarker
  let created := created.create published manifestFile
    (.manifest ⟨1, AList.singleton "a.store" firstOwner⟩)
  created.create staging generationLeaseFile (.bytes [])

private def segmentStage : Disk × Except IndexError View :=
  View.stage nextOwner staging (some published) [] (fun _ => true) segmentDisk

private def segmentView : View :=
  ⟨staging, ⟨1, AList.singleton "a.store" firstOwner⟩, ∅, ∅, false⟩

private theorem segmentDisk_allocated : segmentDisk.Allocated := by
  have hempty : FileTree.Allocated (⟨fun _ => .bytes [], 0, ∅⟩ : Disk) := by
    intro dir name file hentry
    simp [FileTree.entry] at hentry
  exact hempty.createDirectory.createDirectory.createDirectory.create.create.create.create

private theorem segmentDisk_fresh : View.FreshDirectory segmentDisk staging where
  present := by simp [segmentDisk]
  apart owner := by simp [staging]
  lease name file hentry := by
    by_contra hname
    have hpublished : staging ≠ published := by decide
    have howner : staging ≠ .owner firstOwner := by simp [staging]
    simp only [segmentDisk, FileTree.entry_create, FileTree.entry_createDirectory, hname,
      hpublished, howner, false_and, and_false, if_false] at hentry
    simp [FileTree.entry] at hentry

private theorem segmentStage_eq : segmentStage = (segmentStage.1, .ok segmentView) := by
  rfl

private theorem segmentSource (place : Location) (h : some published = some place) :
    place ≠ staging ∧ ∀ owner, place ≠ .owner owner := by
  cases h
  exact ⟨by decide, fun owner => by simp [published]⟩

/-- An inherited segment is deleted and written again, a second one is written by a writer. -/
def segmentEdits : List Edit :=
  [.delete "a.store", .atomicWrite "a.store" [3], .openWrite "b.store", .write 0 [4, 5]]

/-- What the run leaves in the staging directory and in its private copy. -/
def segmentRun : Session × PrivateCopy :=
  Session.shadow nextOwner segmentEdits
    (⟨segmentStage.1, segmentView, []⟩, PrivateCopy.ofSource segmentDisk (some published) [])

theorem shared_directory_is_copy_on_write_segment :
    segmentRun.1.view.atomicRead segmentRun.1.disk "a.store" = segmentRun.2.read "a.store" ∧
      segmentRun.1.view.atomicRead segmentRun.1.disk "b.store" = segmentRun.2.read "b.store" ∧
      segmentRun.2.read "a.store" = .ok (.bytes [3]) ∧
      segmentRun.2.read "b.store" = .ok (.bytes [4, 5]) := by
  have hshared := (shared_directory_is_copy_on_write segmentDisk_allocated segmentDisk_fresh
    segmentSource segmentStage_eq segmentEdits segmentRun.1 segmentRun.2 rfl).1
  refine ⟨(hshared "a.store" (by decide)).2.1, (hshared "b.store" (by decide)).2.1, ?_, ?_⟩
  · rfl
  · rfl

/-- Whether the staged view has the inherited segment before and after a publication that
does not list it as committed. -/
def droppedAnswers : Option (Bool × Bool) :=
  match segmentStage with
  | (staged, .ok view) =>
      match view.preparePublication nextOwner [] (fun _ => true) staged with
      | (prepared, .ok next) =>
          match view.fileExists staged "a.store", next.fileExists prepared "a.store" with
          | .ok before, .ok after => some (before, after)
          | _, _ => none
      | _ => none
  | _ => none

/-- Whether a source without a manifest has the manifest's name, and whether the staging
directory that starts from it does. -/
def reservedAnswers : Option (Bool × Bool) :=
  let legacy := (segmentDisk.createDirectory .root).create .root "meta.json" (.bytes [6])
  match View.stage nextOwner staging (some .root) [] (fun _ => true) legacy with
  | (staged, .ok view) =>
      match view.fileExists staged manifestFile with
      | .ok after => some ((legacy.entry .root manifestFile).isSome, after)
      | .error _ => none
  | _ => none

/-- Neither an edit of the name nor a reset took the segment away, yet it is gone, and no
edit wrote the manifest, yet it is there. -/
theorem prepare_publication_drops_uncommitted :
    droppedAnswers = some (true, false) ∧ reservedAnswers = some (false, true) := by
  decide +kernel

end Segment

end Memex.Index
