import Memex.Index.StagedEdits

/-! # Resetting, publishing and starting a staged view

The edits that concern all names at once: what they leave under each name, and
which files they add to the segment store. -/

namespace Memex.Index

open Files (FileTree)

namespace View

variable {disk disk' : Disk} {view view' : View} {owner : Owner}

/-! ## Reset -/

/-- After a reset nothing is left but the files of the storage layer. -/
theorem Staged.reset (hstaged : view.Staged disk) (h : view.reset disk = (disk', view')) :
    view'.Staged disk' ∧ view'.path = view.path ∧
      (∀ name, name ∉ reservedNames → view'.resolve disk' name = none) ∧
      Leaves view.path disk.fresh disk disk' := by
  unfold View.reset at h
  dsimp only at h
  cases h
  set cleared := disk.retain view.path fun name => decide (name = generationLeaseFile) with hcleared
  have hkept : ∀ dir name, (dir ≠ view.path ∨ name ∉ reservedNames) →
      (Manifest.empty.write view.path cleared).entry dir name =
        if dir = view.path then none else disk.entry dir name := by
    intro dir name hname
    have hplace : dir ≠ view.path ∨ (name ≠ manifestFile ∧ name ≠ formatFile) := by
      obtain hdir | hname := hname
      · exact Or.inl hdir
      · simp only [reservedNames, List.mem_cons, List.not_mem_nil, or_false, not_or] at hname
        exact Or.inr ⟨hname.1, hname.2.1⟩
    rw [Manifest.entry_write hplace, hcleared, FileTree.entry_retain]
    by_cases hdir : dir = view.path
    · have hlease : decide (name = generationLeaseFile) = false := by
        obtain hne | hname := hname
        · exact absurd hdir hne
        · simp only [reservedNames, List.mem_cons, List.not_mem_nil, or_false, not_or] at hname
          simpa using hname.2.2
      rw [if_pos ⟨hdir, hlease⟩, if_pos hdir]
    · rw [if_neg (fun heq => hdir heq.1), if_neg hdir]
  have hclearedFresh : cleared.fresh = disk.fresh := FileTree.fresh_retain _
  have hordinary : ∀ name, metadataFile name = false → name ∉ reservedNames := by
    intro name hmetadata hmem
    rw [metadataFile_of_mem_reserved hmem] at hmetadata
    cases hmetadata
  refine ⟨⟨?_, hstaged.writable, ?_, hstaged.apart, ?_, ?_, ?_, Manifest.safe_empty⟩, rfl, ?_, ?_⟩
  · exact Manifest.write_allocated (hstaged.allocated.retain _)
  · rw [Manifest.mem_directories_write]
    exact (FileTree.mem_directories_retain _ _).mpr hstaged.present
  · intro name hmetadata
    rw [hkept _ _ (Or.inr (hordinary name hmetadata))]
    simp
  · intro name hname
    simp at hname
  · intro name owner hlookup
    simp [Manifest.empty] at hlookup
  · intro name hname
    unfold resolve
    have hlocal := hkept view.path name (Or.inr hname)
    rw [if_pos rfl] at hlocal
    rw [if_neg (Finset.notMem_empty name)]
    split
    · exact hlocal
    · simp [Manifest.empty]
  · refine ⟨fun dir name hdir _ => ?_, fun owner name file hfile => ?_, fun file hfile => ?_, ?_⟩
    · rw [hkept dir name (Or.inl hdir), if_neg hdir]
    · have hdir : Location.owner owner ≠ view.path := (hstaged.apart owner).symm
      rw [hkept _ name (Or.inl hdir), if_neg hdir, hfile]
    · rw [Manifest.write_content (by rw [hclearedFresh]; exact hfile), hcleared,
        FileTree.content_retain]
    · have hwrite : cleared.fresh ≤ (Manifest.empty.write view.path cleared).fresh :=
        Manifest.write_fresh
      rwa [hclearedFresh] at hwrite

end View

/-! ## Adoption -/

/-- New files in the segment store, and nothing else. -/
structure Adopts (old new : Disk) : Prop where
  allocated : new.Allocated
  extends_ : FileTree.Extends old new
  elsewhere : ∀ dir, (∀ owner, dir ≠ .owner owner) → ∀ name,
    new.entry dir name = old.entry dir name

theorem Adopts.refl {disk : Disk} (h : disk.Allocated) : Adopts disk disk :=
  ⟨h, FileTree.Extends.refl disk, fun _ _ _ => rfl⟩

theorem Adopts.trans {first second third : Disk} (h : Adopts first second)
    (h' : Adopts second third) : Adopts first third :=
  ⟨h'.allocated, h.extends_.trans h'.extends_,
    fun dir hdir name => (h'.elsewhere dir hdir name).trans (h.elsewhere dir hdir name)⟩

theorem Adopts.leaves {old new : Disk} (h : Adopts old new) (path : Location) :
    Leaves path old.fresh old new where
  elsewhere dir name _ howner := h.elsewhere dir howner name
  stored _ _ _ hfile := h.extends_.entry _ _ _ hfile
  content := h.extends_.content
  fresh := h.extends_.fresh

section Adoption

variable {disk disk' : Disk} {owner : Owner} {name : Name} {source : Location} {linked : Bool}

/-- The stored file that an adopted name leads to. -/
def StoredAs (owner : Owner) (source : Location) (disk : Disk) (name : Name) : Prop :=
  ∃ file stored, disk.entry source name = some file ∧
    disk.entry (.owner owner) name = some stored ∧ disk.content stored = disk.content file

theorem StoredAs.adopts (h : StoredAs owner source disk name) (halloc : disk.Allocated)
    (hadopts : Adopts disk disk') : StoredAs owner source disk' name := by
  obtain ⟨file, stored, hfile, hstored, hcontent⟩ := h
  refine ⟨file, stored, hadopts.extends_.entry _ _ _ hfile, hadopts.extends_.entry _ _ _ hstored,
    ?_⟩
  rw [hadopts.extends_.content file (halloc _ _ _ hfile),
    hadopts.extends_.content stored (halloc _ _ _ hstored), hcontent]

theorem adoptFile_spec (halloc : disk.Allocated) {result : Except IndexError Unit}
    (h : adoptFile owner name source linked disk = (disk', result)) :
    Adopts disk disk' ∧ (result = .ok () → safeOwner owner = true ∧ safeComponent name = true ∧
      StoredAs owner source disk' name) := by
  have hdirectory : Adopts disk (disk.createDirectory (.owner owner)) :=
    ⟨halloc.createDirectory, FileTree.extends_createDirectory,
      fun dir _ name => FileTree.entry_createDirectory dir name⟩
  unfold adoptFile at h
  split at h
  · cases h
    exact ⟨Adopts.refl halloc, by rintro ⟨⟩⟩
  next howner =>
  have howner : safeOwner owner = true := by simpa using howner
  split at h
  · cases h
    exact ⟨Adopts.refl halloc, by rintro ⟨⟩⟩
  next file hfile =>
  dsimp only at h
  cases hname : checkedName name with
  | error error =>
      rw [hname] at h
      cases h
      exact ⟨hdirectory, by rintro ⟨⟩⟩
  | ok checked =>
      rw [hname] at h
      obtain ⟨hsafe, rfl⟩ := checkedName_eq_ok.mp hname
      have hlt : file < disk.fresh := halloc source name file hfile
      dsimp only at h
      split at h
      · next target htarget =>
          split at h
          · cases h
            exact ⟨hdirectory, by rintro ⟨⟩⟩
          · next hequal =>
              cases h
              refine ⟨hdirectory, fun _ => ⟨howner, hsafe, file, target, ?_, htarget, ?_⟩⟩
              · simpa using hfile
              · exact not_not.mp hequal
      · next hnone =>
          split at h
          · cases h
            refine ⟨hdirectory.trans ⟨?_, FileTree.extends_link hnone, ?_⟩,
              fun _ => ⟨howner, hsafe, file, file, ?_, ?_, rfl⟩⟩
            · refine hdirectory.allocated.link ?_
              simpa using hlt
            · intro dir hdir other
              rw [FileTree.entry_link, if_neg]
              exact fun heq => hdir owner heq.1
            · rw [FileTree.entry_link]
              split
              · rfl
              · simpa using hfile
            · simp [FileTree.entry_link]
          · cases h
            have hextends : FileTree.Extends (disk.createDirectory (.owner owner))
                ((disk.createDirectory (.owner owner)).create (.owner owner) name
                  ((disk.createDirectory (.owner owner)).content file)) :=
              FileTree.extends_create hnone
            refine ⟨hdirectory.trans ⟨hdirectory.allocated.create, hextends, ?_⟩,
              fun _ => ⟨howner, hsafe, file, disk.fresh, ?_, ?_, ?_⟩⟩
            · intro dir hdir other
              rw [FileTree.entry_create, if_neg]
              exact fun heq => hdir owner heq.1
            · exact hextends.entry source name file (by simpa using hfile)
            · simp [FileTree.entry_create]
            · simp only [FileTree.content_create, FileTree.fresh_createDirectory,
                FileTree.content_createDirectory, Function.update_self]
              rw [Function.update_of_ne (Nat.ne_of_lt hlt)]

end Adoption

namespace View

variable {disk disk' : Disk} {view view' : View} {owner : Owner}

/-! ## Preparing a publication -/

/-- The owner under which publication stores a committed file. -/
def publishedOwner (view : View) (owner : Owner) (name : Name) : Option Owner :=
  if name ∈ view.created then some owner else view.manifest.files.lookup name

/-- What the loop over the committed files has put into the manifest. -/
structure NextManifest (view : View) (owner : Owner) (committed : List Name) (disk : Disk)
    (start next : Manifest) : Prop where
  version : next.version = start.version
  lookup : ∀ name, next.files.lookup name =
    if name ∈ committed ∧ metadataFile name = false ∧ (view.publishedOwner owner name).isSome
    then view.publishedOwner owner name else start.files.lookup name
  stored : ∀ name ∈ committed, metadataFile name = false → name ∈ view.created →
    safeOwner owner = true ∧ safeComponent name = true ∧ StoredAs owner view.path disk name

private theorem NextManifest.cons_metadata {path : Name} {rest : List Name} {start next : Manifest}
    (hpath : metadataFile path = true) (h : NextManifest view owner rest disk start next) :
    NextManifest view owner (path :: rest) disk start next where
  version := h.version
  lookup name := by
    rw [h.lookup name]
    by_cases hname : name = path
    · subst hname
      simp [hpath]
    · simp [hname]
  stored name hname hmetadata hcreated := by
    obtain rfl | hname := List.mem_cons.mp hname
    · rw [hpath] at hmetadata
      cases hmetadata
    · exact h.stored name hname hmetadata hcreated

private theorem NextManifest.cons {path : Name} {rest : List Name} {start next : Manifest}
    {stored : Owner} (hpath : metadataFile path = false)
    (hstored : view.publishedOwner owner path = some stored)
    (hcreated : path ∈ view.created → safeOwner owner = true ∧ safeComponent path = true ∧
      StoredAs owner view.path disk path)
    (h : NextManifest view owner rest disk
      { start with files := start.files.insert path stored } next) :
    NextManifest view owner (path :: rest) disk start next where
  version := h.version
  lookup name := by
    rw [h.lookup name]
    by_cases hname : name = path
    · subst hname
      simp [hpath, hstored]
    · rw [AList.lookup_insert_ne hname]
      simp [hname]
  stored name hname hmetadata hmem := by
    obtain rfl | hname := List.mem_cons.mp hname
    · exact hcreated hmem
    · exact h.stored name hname hmetadata hmem

private theorem NextManifest.cons_absent {path : Name} {rest : List Name} {start next : Manifest}
    (hnone : view.publishedOwner owner path = none) (hcreated : path ∉ view.created)
    (h : NextManifest view owner rest disk start next) :
    NextManifest view owner (path :: rest) disk start next where
  version := h.version
  lookup name := by
    rw [h.lookup name]
    by_cases hname : name = path
    · subst hname
      simp [hnone]
    · simp [hname]
  stored name hname hmetadata hmem := by
    obtain rfl | hname := List.mem_cons.mp hname
    · exact absurd hmem hcreated
    · exact h.stored name hname hmetadata hmem

/-- The loop of `prepare_publication` only adds to the store, and in a completed loop every
committed file has its reference. -/
theorem nextManifest_spec {linked : Name → Bool} {committed : List Name} {start : Manifest}
    {result : Except IndexError Manifest} (halloc : disk.Allocated)
    (h : nextManifest owner linked view committed disk start = (disk', result)) :
    Adopts disk disk' ∧
      ∀ next, result = .ok next → NextManifest view owner committed disk' start next := by
  induction committed generalizing disk start with
  | nil =>
      cases h
      refine ⟨Adopts.refl halloc, fun next hnext => ?_⟩
      cases hnext
      exact ⟨rfl, fun name => by simp, fun name hname => by simp at hname⟩
  | cons path rest ih =>
      unfold nextManifest at h
      split at h
      · next hpath =>
          obtain ⟨hadopts, hnext⟩ := ih halloc h
          exact ⟨hadopts, fun next hresult => (hnext next hresult).cons_metadata hpath⟩
      next hpath =>
      have hpath : metadataFile path = false := by simpa using hpath
      cases hname : checkedName path with
      | error error =>
          rw [hname] at h
          cases h
          exact ⟨Adopts.refl halloc, fun next hnext => by cases hnext⟩
      | ok checked =>
          obtain ⟨hsafe, rfl⟩ := checkedName_eq_ok.mp hname
          rw [hname] at h
          dsimp only at h
          by_cases hcreated : path ∈ view.created
          · rw [if_pos hcreated] at h
            have howner : view.publishedOwner owner path = some owner := if_pos hcreated
            split at h
            · cases h
              exact ⟨Adopts.refl halloc, fun next hnext => by cases hnext⟩
            cases hadopt : adoptFile owner path view.path (linked path) disk with
            | mk adopted outcome =>
                obtain ⟨hadopted, hok⟩ := adoptFile_spec halloc hadopt
                rw [hadopt] at h
                cases outcome with
                | error error =>
                    cases h
                    exact ⟨hadopted, fun next hnext => by cases hnext⟩
                | ok done =>
                    obtain ⟨hrest, hnext⟩ := ih hadopted.allocated h
                    obtain ⟨hsafeOwner, hsafeName, hstored⟩ := hok rfl
                    refine ⟨hadopted.trans hrest, fun next hresult => ?_⟩
                    refine (hnext next hresult).cons hpath howner fun _ => ?_
                    exact ⟨hsafeOwner, hsafeName, hstored.adopts hadopted.allocated hrest⟩
          · rw [if_neg hcreated] at h
            have howner : view.publishedOwner owner path = view.manifest.files.lookup path :=
              if_neg hcreated
            split at h
            · next inherited hlookup =>
                obtain ⟨hrest, hnext⟩ := ih halloc h
                refine ⟨hrest, fun next hresult => ?_⟩
                exact (hnext next hresult).cons hpath (howner.trans hlookup)
                  fun hmem => absurd hmem hcreated
            · next hlookup =>
                obtain ⟨hrest, hnext⟩ := ih halloc h
                refine ⟨hrest, fun next hresult => ?_⟩
                exact (hnext next hresult).cons_absent (howner.trans hlookup) hcreated

/-- What a publication leaves of a staged view: every file it answers for itself, and of
the inherited files the committed ones. -/
structure Published (owner : Owner) (committed : List Name) (disk disk' : Disk)
    (view view' : View) : Prop where
  staged : view'.Staged disk'
  place : view'.path = view.path
  created : view'.created = view.created
  deleted : view'.deleted = view.deleted
  references : ∀ name, view'.manifest.files.lookup name =
    if name ∈ committed ∧ metadataFile name = false then view.publishedOwner owner name else none
  stored : ∀ name ∈ committed, metadataFile name = false → name ∈ view.created →
    StoredAs owner view.path disk' name
  shows : ∀ name, name ∉ reservedNames → view'.resolve disk' name =
    if view.Own name ∨ name ∈ committed then view.resolve disk name else none
  leaves : Leaves view.path disk.fresh disk disk'

theorem leaves_write {manifest : Manifest} {path : Location}
    (hpath : ∀ owner, path ≠ .owner owner) :
    Leaves path disk.fresh disk (manifest.write path disk) where
  elsewhere _ _ hdir _ := Manifest.entry_write (Or.inl hdir)
  stored owner _ _ hfile := by
    rw [Manifest.entry_write (Or.inl (hpath owner).symm)]
    exact hfile
  content _ hfile := Manifest.write_content hfile
  fresh := Manifest.write_fresh

theorem Staged.preparePublication (hstaged : view.Staged disk) {committed : List Name}
    {linked : Name → Bool}
    (h : view.preparePublication owner committed linked disk = (disk', .ok view')) :
    Published owner committed disk disk' view view' := by
  unfold View.preparePublication at h
  cases hnext : nextManifest owner linked view committed disk Manifest.empty with
  | mk adopted result =>
  obtain ⟨hadopts, hspec⟩ := nextManifest_spec hstaged.allocated hnext
  rw [hnext] at h
  cases result with
  | error error => cases h
  | ok next =>
  have hloop := hspec next rfl
  cases h
  have hreferences : ∀ name, next.files.lookup name =
      if name ∈ committed ∧ metadataFile name = false then view.publishedOwner owner name
      else none := by
    intro name
    rw [hloop.lookup name]
    cases view.publishedOwner owner name with
    | none => simp [Manifest.empty]
    | some stored => simp [Manifest.empty]
  have hlocal : ∀ name, name ∉ reservedNames →
      (next.write view.path adopted).entry view.path name = disk.entry view.path name := by
    intro name hname
    simp only [reservedNames, List.mem_cons, List.not_mem_nil, or_false, not_or] at hname
    rw [Manifest.entry_write (Or.inr ⟨hname.1, hname.2.1⟩),
      hadopts.elsewhere _ hstaged.apart name]
  have hstore : ∀ stored name, (next.write view.path adopted).entry (.owner stored) name =
      adopted.entry (.owner stored) name :=
    fun stored name => Manifest.entry_write (Or.inl (hstaged.apart stored).symm)
  have hinherited : ∀ name stored, view.manifest.files.lookup name = some stored →
      (next.write view.path adopted).entry (.owner stored) name =
        disk.entry (.owner stored) name := by
    intro name stored hlookup
    obtain ⟨file, hfile⟩ := hstaged.resolved name stored hlookup
    rw [hstore, hfile, hadopts.extends_.entry _ _ _ hfile]
  have hordinary : ∀ name, metadataFile name = false → name ∉ reservedNames := by
    intro name hmetadata hmem
    rw [metadataFile_of_mem_reserved hmem] at hmetadata
    cases hmetadata
  have hstored : ∀ name ∈ committed, metadataFile name = false → name ∈ view.created →
      StoredAs owner view.path (next.write view.path adopted) name := by
    intro name hname hmetadata hmem
    obtain ⟨-, -, file, stored, hfile, hentry, hcontent⟩ := hloop.stored name hname hmetadata hmem
    refine ⟨file, stored, ?_, ?_, ?_⟩
    · rw [hlocal name (hordinary name hmetadata), ← hadopts.elsewhere _ hstaged.apart name]
      exact hfile
    · rw [hstore]
      exact hentry
    · rw [Manifest.write_content (hadopts.allocated _ _ _ hentry),
        Manifest.write_content (hadopts.allocated _ _ _ hfile), hcontent]
  refine ⟨⟨Manifest.write_allocated hadopts.allocated, hstaged.writable, ?_, hstaged.apart, ?_, ?_,
    ?_, ?_⟩, rfl, rfl, rfl, hreferences, hstored, ?_, ?_⟩
  · rw [Manifest.mem_directories_write]
    exact hadopts.extends_.directories _ hstaged.present
  · intro name hmetadata
    rw [hlocal name (hordinary name hmetadata)]
    exact hstaged.created name hmetadata
  · intro name hname hreserved
    rw [hlocal name hreserved]
    exact hstaged.deleted name hname hreserved
  · intro name stored hlookup
    rw [hreferences] at hlookup
    split at hlookup
    · next hcommitted =>
        unfold publishedOwner at hlookup
        split at hlookup
        · next hmem =>
            cases hlookup
            obtain ⟨file, target, -, htarget, -⟩ := hstored name hcommitted.1 hcommitted.2 hmem
            exact ⟨target, htarget⟩
        · rw [hinherited name stored hlookup]
          exact hstaged.resolved name stored hlookup
    · cases hlookup
  · intro name stored hlookup
    rw [hreferences] at hlookup
    split at hlookup
    · next hcommitted =>
        unfold publishedOwner at hlookup
        split at hlookup
        · next hmem =>
            cases hlookup
            obtain ⟨howner, hname, -⟩ := hloop.stored name hcommitted.1 hcommitted.2 hmem
            simp [Manifest.safeReference, hname, howner, hcommitted.2]
        · exact hstaged.safe name stored hlookup
    · cases hlookup
  · intro name hname
    by_cases hdeleted : name ∈ view.deleted
    · have hnone : resolve (next.write view.path adopted) { view with manifest := next } name =
          none := resolve_of_deleted hdeleted
      rw [resolve_of_deleted hdeleted, hnone]
      simp
    by_cases hown : view.Own name
    · have hafter : resolve (next.write view.path adopted) { view with manifest := next } name =
          (next.write view.path adopted).entry view.path name := resolve_of_own hown hdeleted
      rw [if_pos (Or.inl hown), resolve_of_own hown hdeleted, hafter]
      exact hlocal name hname
    · have hafter : resolve (next.write view.path adopted) { view with manifest := next } name =
          (next.files.lookup name).bind fun stored =>
            (next.write view.path adopted).entry (.owner stored) name :=
        resolve_of_not_own hown hdeleted
      rw [resolve_of_not_own hown hdeleted, hafter]
      have hmetadata : metadataFile name = false := by
        simpa using (not_or.mp hown).1
      have hcreated : name ∉ view.created := (not_or.mp hown).2
      rw [hreferences name]
      by_cases hcommitted : name ∈ committed
      · simp only [hcommitted, hmetadata, and_self, if_true, or_true, publishedOwner, hcreated,
          if_false]
        cases hlookup : view.manifest.files.lookup name with
        | none => rfl
        | some stored => exact hinherited name stored hlookup
      · simp [hcommitted, hown]
  · have hwrite : Leaves view.path disk.fresh adopted (next.write view.path adopted) :=
      (leaves_write hstaged.apart).mono hadopts.extends_.fresh
    exact (hadopts.leaves view.path).trans hwrite

/-- A publication that fails has only added to the store. -/
theorem Staged.preparePublication_error (hstaged : view.Staged disk) {committed : List Name}
    {linked : Name → Bool} {error : IndexError}
    (h : view.preparePublication owner committed linked disk = (disk', .error error)) :
    Adopts disk disk' := by
  unfold View.preparePublication at h
  cases hnext : nextManifest owner linked view committed disk Manifest.empty with
  | mk adopted result =>
      rw [hnext] at h
      cases result with
      | error error =>
          cases h
          exact (nextManifest_spec hstaged.allocated hnext).1
      | ok next => cases h

/-! ## Sealing -/

/-- Once the staging directory is moved to its final place, the sealed view shows every
committed file that the staged view showed. -/
theorem Published.sealAt {committed : List Name} {start : Disk} {before sealedView : View}
    {final : Location} (h : Published owner committed start disk before view)
    (hfinal : ∀ owner, final ≠ .owner owner)
    (hseal : view.sealAt final (disk.renameDirectory view.path final) = .ok sealedView) :
    sealedView.Resolved (disk.renameDirectory view.path final) ∧ sealedView.deleted = ∅ ∧
      ∀ name ∈ committed, ∀ contents, view.sees disk name = some contents →
        sealedView.sees (disk.renameDirectory view.path final) name = some contents := by
  unfold View.sealAt at hseal
  split at hseal
  · cases hseal
    have hentry : ∀ dir name, (disk.renameDirectory view.path final).entry dir name =
        if dir = final then disk.entry view.path name
        else if dir = view.path then none else disk.entry dir name :=
      fun dir name => FileTree.entry_renameDirectory h.staged.present dir name
    have hstore : ∀ stored name, (disk.renameDirectory view.path final).entry (.owner stored) name =
        disk.entry (.owner stored) name := by
      intro stored name
      rw [hentry, if_neg (hfinal stored).symm, if_neg (h.staged.apart stored).symm]
    refine ⟨fun name stored hlookup => ?_, rfl, fun name hname contents hsees => ?_⟩
    · rw [hstore]
      exact h.staged.resolved name stored hlookup
    · have hdeleted : name ∉ view.deleted := by
        intro hmem
        simp [sees, resolve_of_deleted hmem] at hsees
      cases hmetadata : metadataFile name with
      | true =>
          have hown : view.Own name := Or.inl hmetadata
          rw [sees, resolve_of_own hown hdeleted] at hsees
          simp only [sees, resolve, Finset.notMem_empty, if_false, hmetadata, Bool.true_or, if_true,
            hentry, FileTree.content_renameDirectory]
          exact hsees
      | false =>
          have hsealed : ∀ stored, view.manifest.files.lookup name = some stored →
              resolve (disk.renameDirectory view.path final)
                { view with path := final, sealed := true, created := ∅, deleted := ∅ } name =
                disk.entry (.owner stored) name := by
            intro stored hlookup
            simp [resolve, hmetadata, hlookup, hstore]
          have hreference := h.references name
          rw [if_pos ⟨hname, hmetadata⟩] at hreference
          by_cases hcreated : name ∈ before.created
          · have hown : view.Own name := Or.inr (h.created ▸ hcreated)
            rw [publishedOwner, if_pos hcreated] at hreference
            obtain ⟨file, stored, hfile, hstored, hcontent⟩ :=
              h.stored name hname hmetadata hcreated
            rw [sees, resolve_of_own hown hdeleted, h.place, hfile] at hsees
            rw [sees, hsealed owner hreference, hstored, FileTree.content_renameDirectory]
            simpa [hcontent] using hsees
          · have hown : ¬ view.Own name := by
              rintro (hmem | hmem)
              · rw [hmetadata] at hmem
                cases hmem
              · exact hcreated (h.created ▸ hmem)
            rw [sees, resolve_of_not_own hown hdeleted] at hsees
            cases hlookup : view.manifest.files.lookup name with
            | none => simp [hlookup] at hsees
            | some stored =>
                rw [sees, hsealed stored hlookup, FileTree.content_renameDirectory]
                simpa [hlookup] using hsees
  · cases hseal

/-! ## Staging -/

/-- What a source shows under a name. A source without a manifest keeps its committed
files in its own directory; of the metadata files only the copied ones belong to it. -/
def sourceShows (disk : Disk) (source : Option Location) (committed : List Name) (name : Name) :
    Option Contents :=
  match source with
  | none => none
  | some source =>
      if name ∈ copiedMetadata then disk.read source name
      else if metadataFile name then none
      else
        match Manifest.read disk source with
        | .error _ => none
        | .ok (some manifest) =>
            (manifest.files.lookup name).bind fun owner => disk.read (.owner owner) name
        | .ok none => if name ∈ committed then disk.read source name else none

theorem adoptLegacy_spec {source : Location} {linked : Name → Bool} {committed : List Name}
    {start : Manifest} {result : Except IndexError Manifest} (halloc : disk.Allocated)
    (hsource : ∀ owner, source ≠ .owner owner)
    (h : adoptLegacy owner source linked committed disk start = (disk', result)) :
    Adopts disk disk' ∧ ∀ manifest, result = .ok manifest →
      (∀ name, manifest.files.lookup name =
        if name ∈ committed ∧ metadataFile name = false ∧ (disk.entry source name).isSome
        then some owner else start.files.lookup name) ∧
      ∀ name ∈ committed, metadataFile name = false → (disk.entry source name).isSome →
        StoredAs owner source disk' name := by
  induction committed generalizing disk start with
  | nil =>
      cases h
      refine ⟨Adopts.refl halloc, fun manifest hmanifest => ?_⟩
      cases hmanifest
      exact ⟨fun name => by simp, fun name hname => by simp at hname⟩
  | cons path rest ih =>
      unfold adoptLegacy at h
      split at h
      · next hskip =>
          obtain ⟨hadopts, hspec⟩ := ih halloc h
          have hskip : metadataFile path = false → ¬ (disk.entry source path).isSome := by
            intro hmetadata
            simpa [hmetadata] using hskip
          refine ⟨hadopts, fun manifest hmanifest => ?_⟩
          obtain ⟨hlookup, hstored⟩ := hspec manifest hmanifest
          refine ⟨fun name => ?_, fun name hname hmetadata hsome => ?_⟩
          · rw [hlookup name]
            by_cases hname : name = path
            · subst hname
              rw [if_neg (fun hall => hskip hall.2.1 hall.2.2),
                if_neg (fun hall => hskip hall.2.1 hall.2.2)]
            · simp [hname]
          · obtain rfl | hname := List.mem_cons.mp hname
            · exact absurd hsome (hskip hmetadata)
            · exact hstored name hname hmetadata hsome
      next hkeep =>
      have hmetadata : metadataFile path = false := by
        cases hcase : metadataFile path with
        | true => simp [hcase] at hkeep
        | false => rfl
      have hsome : (disk.entry source path).isSome := by
        rw [hmetadata] at hkeep
        cases hcase : disk.entry source path with
        | none => simp [hcase] at hkeep
        | some file => rfl
      cases hadopt : adoptFile owner path source (linked path) disk with
      | mk adopted outcome =>
          obtain ⟨hadopted, hok⟩ := adoptFile_spec halloc hadopt
          rw [hadopt] at h
          cases outcome with
          | error error =>
              cases h
              exact ⟨hadopted, fun manifest hmanifest => by cases hmanifest⟩
          | ok done =>
              obtain ⟨hrest, hspec⟩ := ih hadopted.allocated h
              refine ⟨hadopted.trans hrest, fun manifest hmanifest => ?_⟩
              obtain ⟨hlookup, hstored⟩ := hspec manifest hmanifest
              have hsame := hadopted.elsewhere source hsource
              refine ⟨fun name => ?_, fun name hname hname' hpresent => ?_⟩
              · rw [hlookup name, hsame name]
                by_cases hname : name = path
                · subst hname
                  simp [hmetadata, hsome]
                · rw [AList.lookup_insert_ne hname]
                  simp [hname]
              · obtain rfl | hname := List.mem_cons.mp hname
                · exact (hok rfl).2.2.adopts hadopted.allocated hrest
                · exact hstored name hname hname' (by rw [hsame name]; exact hpresent)

/-- A staging manifest shows the source's segment files. -/
theorem inheritedManifest_spec {source : Option Location} {linked : Name → Bool}
    {committed : List Name} {manifest : Manifest} (halloc : disk.Allocated)
    (hsource : ∀ place, source = some place → ∀ owner, place ≠ .owner owner)
    (h : inheritedManifest owner source committed linked disk = (disk', .ok manifest)) :
    Adopts disk disk' ∧ ∀ name, metadataFile name = false →
      ((manifest.files.lookup name).bind fun owner => disk'.read (.owner owner) name) =
        sourceShows disk source committed name := by
  have hcopied : ∀ name, metadataFile name = false → name ∉ copiedMetadata := by
    intro name hmetadata hmem
    simp only [copiedMetadata, List.mem_cons, List.not_mem_nil, or_false] at hmem
    obtain rfl | rfl := hmem
    · exact absurd hmetadata (by decide)
    · exact absurd hmetadata (by decide)
  unfold inheritedManifest at h
  cases source with
  | none =>
      cases h
      exact ⟨Adopts.refl halloc, fun name _ => by simp [Manifest.empty, sourceShows]⟩
  | some source =>
      dsimp only at h
      cases hread : Manifest.read disk source with
      | error error =>
          rw [hread] at h
          cases h
      | ok found =>
          rw [hread] at h
          cases found with
          | some inherited =>
              cases h
              refine ⟨Adopts.refl halloc, fun name hmetadata => ?_⟩
              simp [sourceShows, hread, hmetadata, hcopied name hmetadata]
          | none =>
              dsimp only at h
              obtain ⟨hadopts, hspec⟩ := adoptLegacy_spec halloc (hsource source rfl) h
              obtain ⟨hlookup, hstored⟩ := hspec manifest rfl
              refine ⟨hadopts, fun name hmetadata => ?_⟩
              rw [hlookup name]
              simp only [sourceShows, hread, hmetadata, hcopied name hmetadata, if_false,
                Bool.false_eq_true, true_and]
              by_cases hcommitted : name ∈ committed
              · cases hentry : disk.entry source name with
                | none => simp [hcommitted, Manifest.empty, FileTree.read, hentry]
                | some file =>
                    obtain ⟨found, stored, hfound, hentryStored, hcontent⟩ :=
                      hstored name hcommitted hmetadata (by simp [hentry])
                    rw [hadopts.elsewhere source (hsource source rfl), hentry] at hfound
                    cases hfound
                    have hold := hadopts.extends_.content file (halloc _ _ _ hentry)
                    simp [hcommitted, FileTree.read, hentry, hentryStored, hcontent, hold]
              · simp [hcommitted, Manifest.empty]

/-- Copying metadata changes nothing outside the destination. -/
theorem copyMetadata_spec {source destination : Location} (hne : source ≠ destination)
    (hdestination : ∀ owner, destination ≠ .owner owner) (names : List Name)
    (hdir : destination ∈ disk.directories) (halloc : disk.Allocated) :
    (copyMetadata source destination names disk).Allocated ∧
      (∀ dir, dir ∈ (copyMetadata source destination names disk).directories ↔
        dir ∈ disk.directories) ∧
      Leaves destination disk.fresh disk (copyMetadata source destination names disk) ∧
      (∀ name, (copyMetadata source destination names disk).read destination name =
        if name ∈ names ∧ (disk.read source name).isSome then disk.read source name
        else disk.read destination name) ∧
      ∀ owner name, (copyMetadata source destination names disk).entry (.owner owner) name =
        disk.entry (.owner owner) name := by
  induction names generalizing disk with
  | nil =>
      refine ⟨halloc, fun dir => Iff.rfl, Leaves.refl _ _ _, fun name => ?_, fun owner name => rfl⟩
      simp [copyMetadata]
  | cons head rest ih =>
      cases hhead : disk.read source head with
      | none =>
          have hstep : copyMetadata source destination (head :: rest) disk =
              copyMetadata source destination rest disk := by
            simp [copyMetadata, hhead]
          rw [hstep]
          obtain ⟨hall, hdirs, hleaves, hread, hstore⟩ := ih hdir halloc
          refine ⟨hall, hdirs, hleaves, fun name => ?_, hstore⟩
          rw [hread name]
          by_cases hname : name = head
          · subst hname
            simp [hhead]
          · simp [hname]
      | some contents =>
          have hstep : copyMetadata source destination (head :: rest) disk =
              copyMetadata source destination rest (disk.create destination head contents) := by
            simp [copyMetadata, hhead]
          rw [hstep]
          have hentry : ∀ dir name, (disk.create destination head contents).entry dir name =
              if dir = destination ∧ name = head then some disk.fresh else disk.entry dir name := by
            intro dir name
            rw [FileTree.entry_create]
            simp only [hdir, and_true]
          have hkept : ∀ dir name, ¬ (dir = destination ∧ name = head) →
              (disk.create destination head contents).read dir name = disk.read dir name := by
            intro dir name hother
            unfold FileTree.read
            rw [hentry, if_neg hother]
            cases hfile : disk.entry dir name with
            | none => rfl
            | some file =>
                simp [Function.update_of_ne (Nat.ne_of_lt (halloc _ _ _ hfile))]
          obtain ⟨hall, hdirs, hleaves, hread, hstore⟩ := ih
            ((FileTree.mem_directories_create destination).mpr hdir) halloc.create
          have hcreate : Leaves destination disk.fresh disk
              (disk.create destination head contents) := by
            refine ⟨fun dir name hplace _ => ?_,
              fun owner name file hfile => ?_, fun file hfile => ?_,
              ?_⟩
            · rw [hentry, if_neg (fun heq => hplace heq.1)]
            · rw [hentry, if_neg (fun heq => hdestination owner heq.1.symm)]
              exact hfile
            · exact FileTree.content_create_of_lt hfile
            · simp
          refine ⟨hall, fun dir => ?_, hcreate.trans (hleaves.mono (by simp)), fun name => ?_,
            fun owner name => ?_⟩
          · rw [hdirs, FileTree.mem_directories_create]
          · rw [hread name, hkept source name (fun heq => hne heq.1)]
            by_cases hname : name = head
            · subst hname
              have hnew : (disk.create destination name contents).read destination name =
                  some contents := by
                simp [FileTree.read, hentry]
              simp [hhead, hnew]
            · rw [hkept destination name (fun heq => hname heq.2)]
              simp [hname]
          · rw [hstore, hentry, if_neg (fun heq => hdestination owner heq.1.symm)]

/-- A directory made for staging, with no file but the lease. -/
structure FreshDirectory (disk : Disk) (destination : Location) : Prop where
  present : destination ∈ disk.directories
  apart : ∀ owner, destination ≠ .owner owner
  lease : ∀ name file, disk.entry destination name = some file → name = generationLeaseFile

/-- What `open` found of a directory that it could open. -/
theorem open_eq_some {path : Location} {sealed : Bool}
    (h : View.open disk path sealed = .ok (some view)) :
    ∃ manifest, view = ⟨path, manifest, ∅, ∅, sealed⟩ ∧
      disk.read path manifestFile = some (.manifest manifest) ∧ manifest.Safe ∧
      view.Resolved disk := by
  unfold View.open at h
  split at h
  · cases h
  · cases h
  next manifest hread =>
  split at h
  · next hall =>
      cases h
      obtain ⟨-, hmanifest, -, hsafe⟩ := Manifest.read_eq_some.mp hread
      refine ⟨manifest, rfl, hmanifest, hsafe, fun name owner hlookup => ?_⟩
      rw [List.all_eq_true] at hall
      have hsome := hall ⟨name, owner⟩ (AList.mem_lookup_iff.mp hlookup)
      exact Option.isSome_iff_exists.mp hsome
  · cases h

/-- The metadata part of staging. -/
private def withMetadata (source : Option Location) (destination : Location) (disk : Disk) :
    Disk :=
  match source with
  | none => disk
  | some source => copyMetadata source destination copiedMetadata disk

private theorem withMetadata_spec {source : Option Location} {destination : Location}
    (hfresh : FreshDirectory disk destination) (halloc : disk.Allocated)
    (hsource : ∀ place, source = some place →
      place ≠ destination ∧ ∀ owner, place ≠ .owner owner) :
    (withMetadata source destination disk).Allocated ∧
      destination ∈ (withMetadata source destination disk).directories ∧
      Leaves destination disk.fresh disk (withMetadata source destination disk) ∧
      (∀ name, name ∉ reservedNames →
        (withMetadata source destination disk).read destination name =
          source.bind fun place => if name ∈ copiedMetadata then disk.read place name else none) ∧
      ∀ owner name, (withMetadata source destination disk).entry (.owner owner) name =
        disk.entry (.owner owner) name := by
  have hempty : ∀ name, name ∉ reservedNames → disk.read destination name = none := by
    intro name hname
    unfold FileTree.read
    cases hentry : disk.entry destination name with
    | none => rfl
    | some file =>
        have hlease := hfresh.lease name file hentry
        rw [hlease] at hname
        exact absurd (by decide) hname
  cases source with
  | none =>
      exact ⟨halloc, hfresh.present, Leaves.refl _ _ _, fun name hname => hempty name hname,
        fun owner name => rfl⟩
  | some source =>
      obtain ⟨hall, hdirs, hleaves, hread, hstore⟩ :=
        copyMetadata_spec (hsource source rfl).1 hfresh.apart copiedMetadata hfresh.present halloc
      refine ⟨hall, (hdirs destination).mpr hfresh.present, hleaves, fun name hname => ?_, hstore⟩
      dsimp only [withMetadata]
      rw [hread name, hempty name hname]
      by_cases hcopied : name ∈ copiedMetadata
      · cases hsome : disk.read source name with
        | none => simp [hcopied, hsome]
        | some contents => simp [hcopied, hsome]
      · simp [hcopied]

/-- Staging inherits a manifest, copies the metadata and opens what it wrote. -/
theorem stage_eq_ok {source : Option Location} {destination : Location} {committed : List Name}
    {linked : Name → Bool}
    (h : stage owner destination source committed linked disk = (disk', .ok view)) :
    ∃ adopted manifest,
      inheritedManifest owner source committed linked disk = (adopted, .ok manifest) ∧
      View.open (manifest.write destination (withMetadata source destination adopted))
        destination false = .ok (some view) ∧
      manifest.write destination (withMetadata source destination adopted) = disk' := by
  unfold stage at h
  cases hinherited : inheritedManifest owner source committed linked disk with
  | mk adopted result =>
  rw [hinherited] at h
  cases result with
  | error error => cases h
  | ok manifest =>
  dsimp only at h
  split at h
  · cases h
  · cases h
  next hview =>
  cases h
  exact ⟨adopted, manifest, rfl, hview, rfl⟩

/-- A fresh staging view shows what its source shows. -/
theorem stage_spec {source : Option Location} {destination : Location} {committed : List Name}
    {linked : Name → Bool} (halloc : disk.Allocated) (hfresh : FreshDirectory disk destination)
    (hsource : ∀ place, source = some place →
      place ≠ destination ∧ ∀ owner, place ≠ .owner owner)
    (h : stage owner destination source committed linked disk = (disk', .ok view)) :
    view.path = destination ∧ view.created = ∅ ∧ view.deleted = ∅ ∧ view.Staged disk' ∧
      (∀ name, name ∉ reservedNames →
        view.sees disk' name = sourceShows disk source committed name) ∧
      Leaves destination disk.fresh disk disk' := by
  obtain ⟨adopted, manifest, hinherited, hview, rfl⟩ := stage_eq_ok h
  obtain ⟨hadopts, hshows⟩ :=
    inheritedManifest_spec halloc (fun place hplace => (hsource place hplace).2) hinherited
  have hfreshAdopted : FreshDirectory adopted destination := by
    refine ⟨hadopts.extends_.directories _ hfresh.present, hfresh.apart, fun name file hfile => ?_⟩
    rw [hadopts.elsewhere _ hfresh.apart name] at hfile
    exact hfresh.lease name file hfile
  obtain ⟨hall, hdir, hcopied, hmetadata, hstore⟩ :=
    withMetadata_spec hfreshAdopted hadopts.allocated hsource
  set copied := withMetadata source destination adopted with hcopiedDisk
  obtain ⟨found, rfl, hread, hsafe, hresolved⟩ := open_eq_some hview
  rw [Manifest.read_write hdir] at hread
  cases hread
  have hwritten : Leaves destination copied.fresh copied (manifest.write destination copied) :=
    leaves_write hfresh.apart
  have hlocal : ∀ name, name ∉ reservedNames →
      (manifest.write destination copied).entry destination name =
        copied.entry destination name := by
    intro name hname
    simp only [reservedNames, List.mem_cons, List.not_mem_nil, or_false, not_or] at hname
    exact Manifest.entry_write (Or.inr ⟨hname.1, hname.2.1⟩)
  have hordinary : ∀ name, metadataFile name = false → name ∉ reservedNames := by
    intro name hname hmem
    rw [metadataFile_of_mem_reserved hmem] at hname
    cases hname
  have hreadLocal : ∀ name, name ∉ reservedNames →
      (copied.entry destination name).map (manifest.write destination copied).content =
        source.bind fun place =>
          if name ∈ copiedMetadata then adopted.read place name else none := by
    intro name hname
    rw [← hmetadata name hname]
    unfold FileTree.read
    cases hentry : copied.entry destination name with
    | none => rfl
    | some file => simp [Manifest.write_content (hall _ _ _ hentry)]
  have hsourceRead : ∀ place, source = some place → ∀ name,
      adopted.read place name = disk.read place name := by
    intro place hplace name
    unfold FileTree.read
    rw [hadopts.elsewhere place (hsource place hplace).2 name]
    cases hentry : disk.entry place name with
    | none => rfl
    | some file => simp [hadopts.extends_.content file (halloc _ _ _ hentry)]
  refine ⟨rfl, rfl, rfl, ⟨Manifest.write_allocated hall, rfl, ?_, hfresh.apart, ?_, ?_, hresolved,
    hsafe⟩, ?_, ?_⟩
  · exact (Manifest.mem_directories_write _).mpr hdir
  · intro name hname
    rw [hlocal name (hordinary name hname)]
    have hnone := hmetadata name (hordinary name hname)
    have hother : name ∉ copiedMetadata := by
      intro hmem
      simp only [copiedMetadata, List.mem_cons, List.not_mem_nil, or_false] at hmem
      obtain rfl | rfl := hmem
      · exact absurd hname (by decide)
      · exact absurd hname (by decide)
    have hentry : copied.entry destination name = none := by
      simpa [FileTree.read, hother] using hnone
    simp [hentry]
  · intro name hname
    simp at hname
  · intro name hname
    rw [sees, resolve, if_neg (Finset.notMem_empty name)]
    cases hcase : metadataFile name with
    | true =>
        simp only [Bool.true_or, if_true]
        rw [hlocal name hname, hreadLocal name hname]
        cases source with
        | none => rfl
        | some place =>
            simp only [Option.bind_some, sourceShows, hcase, if_true]
            rw [hsourceRead place rfl name]
    | false =>
        have hcontent : ∀ stored,
            ((manifest.write destination copied).entry (.owner stored) name).map
                (manifest.write destination copied).content =
              adopted.read (.owner stored) name := by
          intro stored
          rw [Manifest.entry_write (Or.inl (hfresh.apart stored).symm), hstore]
          unfold FileTree.read
          cases hentry : adopted.entry (.owner stored) name with
          | none => rfl
          | some file =>
              have hlt : file < adopted.fresh := hadopts.allocated _ _ _ hentry
              have hkept := hwritten.content file (Nat.lt_of_lt_of_le hlt hcopied.fresh)
              simp [hkept, hcopied.content file hlt]
        rw [← hshows name hcase]
        simp only [Bool.false_or, Finset.notMem_empty, decide_false, if_false,
          Bool.false_eq_true]
        cases hlookup : manifest.files.lookup name with
        | none => rfl
        | some stored => simpa using hcontent stored
  · have hfirst : Leaves destination disk.fresh disk adopted := hadopts.leaves destination
    have hsecond : Leaves destination disk.fresh adopted copied :=
      hcopied.mono hadopts.extends_.fresh
    have hthird : Leaves destination disk.fresh copied (manifest.write destination copied) :=
      hwritten.mono (Nat.le_trans hadopts.extends_.fresh hcopied.fresh)
    exact (hfirst.trans hsecond).trans hthird

end View

end Memex.Index
