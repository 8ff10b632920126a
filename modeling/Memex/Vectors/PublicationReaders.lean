import Memex.Vectors.Edits
import Memex.Vectors.PublicationRuns

/-! # Readers of published vectors

What a reader opens is one generation, active while it opened the store, though the writer publishes
and removes generations under it. -/

namespace Memex.Vectors

section Readers

variable {I V R : Type*} {usearch : Usearch I V} {order : Iteration} {flat : Files I}
  {store next : Store I R}

/-! ## What a reader has read -/

/-- The whole files of a storage that a reader has found active. -/
def Holds (flat : Files I) (store : Store I R) (seen : String → Files I → Prop) :
    Storage → Files I → Prop
  | .flat, whole => whole = flat
  | .generation name, whole =>
      name ∈ store.published ∧ store.staged name = some whole ∧ seen name whole

/-- A generation that the pointer names no more. -/
def Superseded (store : Store I R) : Storage → Prop
  | .flat => True
  | .generation name => name ∈ store.published.tail

/-- What opening the flat files gives, with their metadata or after it went. -/
def FlatOpens (usearch : Usearch I V) (flat : Files I) (vectors : VectorIndex I) : Prop :=
  openFromStorage usearch false flat = .ok vectors ∨
    openFromStorage usearch false { flat with metadata := .missing } = .ok vectors

/-- What a reader has read belongs to one storage, and a load that failed to one that is not
active. -/
def Follows (usearch : Usearch I V) (flat : Files I) (store : Store I R)
    (seen : String → Files I → Prop) : Reader I → Prop
  | .idle => True
  | .pointing failed => ∀ load ∈ failed, Superseded store load.1
  | .probing failed => ∀ load ∈ failed, load.1 = .flat
  | .loading storage => ∃ whole, Holds flat store seen storage whole
  | .loaded storage index => ∃ whole, Holds flat store seen storage whole ∧
      whole.index.load indexFile = .ok index
  | .listed storage index docIds => ∃ whole, Holds flat store seen storage whole ∧
      whole.index.load indexFile = .ok index ∧ loadDocIds whole.ids = .ok docIds
  | .described index docIds => flat.index.load indexFile = .ok index ∧
      loadDocIds flat.ids = .ok docIds
  | .closed (.ok vectors) => FlatOpens usearch flat vectors ∨
      ∃ name whole, seen name whole ∧ openFromStorage usearch true whole = .ok vectors
  | .closed (.error _) => True

theorem Grows.superseded (h : Grows store next) {storage : Storage}
    (hsuperseded : Superseded store storage) : Superseded next storage := by
  cases storage with
  | flat => trivial
  | generation name =>
      obtain ⟨more, hmore⟩ := h.published
      show name ∈ next.published.tail
      rw [hmore]
      cases more with
      | nil => exact hsuperseded
      | cons latest more => exact List.mem_append_right more (List.mem_of_mem_tail hsuperseded)

theorem Grows.holds (h : Grows store next) {seen seen' : String → Files I → Prop}
    (hseen : ∀ name whole, seen name whole → seen' name whole) {storage : Storage}
    {whole : Files I} (hholds : Holds flat store seen storage whole) :
    Holds flat next seen' storage whole := by
  cases storage with
  | flat => exact hholds
  | generation name =>
      obtain ⟨hname, hstaged, hwhole⟩ := hholds
      obtain ⟨more, hmore⟩ := h.published
      refine ⟨?_, h.staged name whole hstaged, hseen name whole hwhole⟩
      rw [hmore]
      exact List.mem_append_right more hname

/-- What a reader has read stays so while the history goes on. -/
theorem Grows.follows (h : Grows store next) {seen seen' : String → Files I → Prop}
    (hseen : ∀ name whole, seen name whole → seen' name whole) {phase : Reader I}
    (hfollows : Follows usearch flat store seen phase) :
    Follows usearch flat next seen' phase := by
  cases phase with
  | idle => trivial
  | pointing failed => exact fun load hload => h.superseded (hfollows load hload)
  | probing failed => exact hfollows
  | loading storage =>
      obtain ⟨whole, hholds⟩ := hfollows
      exact ⟨whole, h.holds hseen hholds⟩
  | loaded storage index =>
      obtain ⟨whole, hholds, hindex⟩ := hfollows
      exact ⟨whole, h.holds hseen hholds, hindex⟩
  | listed storage index docIds =>
      obtain ⟨whole, hholds, hindex, hids⟩ := hfollows
      exact ⟨whole, h.holds hseen hholds, hindex, hids⟩
  | described index docIds => exact hfollows
  | closed result =>
      cases result with
      | error error => trivial
      | ok vectors =>
          obtain hflat | ⟨name, whole, hwhole, hopens⟩ := hfollows
          · exact Or.inl hflat
          · exact Or.inr ⟨name, whole, hseen name whole hwhole, hopens⟩

/-- The parts of a load that succeeds. -/
theorem openFromStorage_eq_ok_iff {generation : Bool} {files : Files I} {vectors : VectorIndex I} :
    openFromStorage usearch generation files = .ok vectors ↔
      ∃ index docIds metadata, files.index.load indexFile = .ok index ∧
        loadDocIds files.ids = .ok docIds ∧
        loadStorageMetadata generation files.metadata = .ok metadata ∧
        snapshot usearch index docIds metadata = .ok vectors := by
  rw [openFromStorage]
  constructor
  · intro h
    split at h
    · cases h
    · next index hindex =>
      split at h
      · cases h
      · next docIds hids =>
        split at h
        · cases h
        · next metadata hmetadata => exact ⟨index, docIds, metadata, hindex, hids, hmetadata, h⟩
  · rintro ⟨index, docIds, metadata, hindex, hids, hmetadata, h⟩
    simp only [hindex, hids, hmetadata]
    exact h

variable {seen : String → Files I → Prop}

/-- What lies in a storage that was found active: a part of it, and all of it until the pointer
names another. -/
theorem StoreSound.filesAt (h : StoreSound usearch flat store) {storage : Storage}
    {whole : Files I} (hholds : Holds flat store seen storage whole) :
    (store.disk.filesAt storage).Within whole ∧
      (¬ Superseded store storage → store.disk.filesAt storage = whole) := by
  cases storage with
  | flat =>
      obtain rfl := hholds
      exact ⟨h.flat, fun hactive => absurd trivial hactive⟩
  | generation name =>
      obtain ⟨hname, hstaged, -⟩ := hholds
      constructor
      · show ((store.disk.entries name).getD Files.none).Within whole
        cases hentry : store.disk.entries name with
        | none => exact Files.none_within whole
        | some files =>
            obtain ⟨found, hfound, hwithin⟩ := h.within name (h.published_drawn hname) files hentry
            obtain rfl := Option.some.inj (hfound.symm.trans hstaged)
            exact hwithin
      · intro hactive
        have hhead : store.published.head? = some name := by
          cases hpublished : store.published with
          | nil =>
              rw [hpublished] at hname
              cases hname
          | cons latest others =>
              rw [hpublished] at hname
              obtain rfl | hmem := List.mem_cons.mp hname
              · rfl
              · refine absurd ?_ hactive
                show name ∈ store.published.tail
                rw [hpublished]
                exact hmem
        show (store.disk.entries name).getD Files.none = whole
        rw [h.active name hhead, hstaged]
        rfl

/-- A load fails only in a storage that is not active any more. -/
theorem StoreSound.superseded (h : StoreSound usearch flat store) {storage : Storage}
    {whole : Files I} (hholds : Holds flat store seen storage whole)
    (hfails : ∀ vectors, openFromStorage usearch true (store.disk.filesAt storage) ≠ .ok vectors) :
    Superseded store storage := by
  cases storage with
  | flat => trivial
  | generation name =>
      by_contra hactive
      obtain ⟨vectors, hopens⟩ := h.opens name whole hholds.2.1
      rw [← (h.filesAt hholds).2 hactive] at hopens
      exact hfails vectors hopens

/-- The pointer names the latest generation, and is a good one. -/
theorem StoreSound.readPointer (h : StoreSound usearch flat store)
    (failed : Option (Storage × LoadError)) :
    (store.published = [] ∧ readPointer failed store.disk.pointer = (.probing failed : Reader I)) ∨
      ∃ name whole, store.published.head? = some name ∧ store.staged name = some whole ∧
        store.disk.entries name = some whole ∧ store.disk.pointer = some ⟨1, name⟩ ∧
        readPointer failed store.disk.pointer =
          (resolve failed (some (.generation name)) : Reader I) := by
  rw [h.pointer]
  cases hpublished : store.published with
  | nil => exact Or.inl ⟨rfl, rfl⟩
  | cons name others =>
      have hmem : name ∈ store.published := hpublished ▸ List.mem_cons_self
      obtain ⟨whole, hwhole⟩ := Option.isSome_iff_exists.mp (h.published_staged name hmem)
      obtain ⟨nanos, pid, sequence, hname⟩ := h.drawn name (h.published_drawn hmem)
      have hhead : store.published.head? = some name := by rw [hpublished]; rfl
      refine Or.inr ⟨name, whole, rfl, hwhole, (h.active name hhead).trans hwhole, rfl, ?_⟩
      simp [Vectors.readPointer, hname, isSafeGenerationName_unique]

def Reader.underway : Reader I → Bool
  | .idle | .closed _ => false
  | _ => true

theorem follows_finish {storage : Storage} {result : Except LoadError (VectorIndex I)}
    (herror : ∀ error, result = .error error → Superseded store storage)
    (hok : ∀ vectors, result = .ok vectors → FlatOpens usearch flat vectors ∨
      ∃ name whole, seen name whole ∧ openFromStorage usearch true whole = .ok vectors) :
    Follows usearch flat store seen (finish storage result) := by
  cases result with
  | error error =>
      intro load hload
      obtain rfl := Option.mem_some_iff.mp hload
      exact herror error rfl
  | ok vectors => exact hok vectors rfl

/-- Every read keeps to one storage. -/
theorem StoreSound.follows_read (h : StoreSound usearch flat store) {phase following : Reader I}
    (hfollows : Follows usearch flat store seen phase)
    (hseen : phase.underway = true → ∀ name whole, store.disk.pointer = some ⟨1, name⟩ →
      store.disk.entries name = some whole → seen name whole)
    (hread : phase.read usearch store.disk = some following) :
    Follows usearch flat store seen following := by
  have hpointing : ∀ {storage : Storage} (error : LoadError), Superseded store storage →
      Follows usearch flat store seen (.pointing (some (storage, error))) := by
    intro storage error hsuperseded load hload
    obtain rfl := Option.mem_some_iff.mp hload
    exact hsuperseded
  cases phase with
  | idle => cases hread
  | closed result => cases hread
  | pointing failed =>
      obtain rfl := Option.some.inj hread
      obtain ⟨hnone, heq⟩ | ⟨name, whole, hhead, hstaged, hentry, hpointer, heq⟩ :=
        h.readPointer failed
      · rw [heq]
        intro load hload
        have hsuperseded := hfollows load hload
        cases hstorage : load.1 with
        | flat => rfl
        | generation name =>
            rw [hstorage] at hsuperseded
            simp [Superseded, hnone] at hsuperseded
      · rw [heq]
        have hholds : Holds flat store seen (.generation name) whole :=
          ⟨List.mem_of_mem_head? hhead, hstaged, hseen rfl name whole hpointer hentry⟩
        rw [resolve.eq_def]
        split
        · trivial
        · next hsome =>
          obtain rfl := Option.some.inj hsome
          exact ⟨whole, hholds⟩
        · next hsome =>
          obtain rfl := Option.some.inj hsome
          split
          · trivial
          · exact ⟨whole, hholds⟩
  | probing failed =>
      obtain rfl := Option.some.inj hread
      rw [resolve.eq_def]
      split
      · trivial
      · next hsome =>
        split at hsome <;> cases hsome
        exact ⟨flat, rfl⟩
      · next hsome =>
        split at hsome <;> cases hsome
        split
        · trivial
        · exact ⟨flat, rfl⟩
  | loading storage =>
      obtain ⟨whole, hholds⟩ := hfollows
      simp only [Reader.read] at hread
      split at hread
      · next error hload =>
        obtain rfl := Option.some.inj hread
        apply hpointing error
        apply h.superseded hholds
        intro vectors hopens
        obtain ⟨index, -, -, hindex, -⟩ := openFromStorage_eq_ok_iff.mp hopens
        rw [hload] at hindex
        cases hindex
      · next index hload =>
        obtain rfl := Option.some.inj hread
        exact ⟨whole, hholds, (h.filesAt hholds).1.index.load hload⟩
  | loaded storage index =>
      obtain ⟨whole, hholds, hindex⟩ := hfollows
      simp only [Reader.read] at hread
      split at hread
      · next error hload =>
        obtain rfl := Option.some.inj hread
        apply hpointing error
        apply h.superseded hholds
        intro vectors hopens
        obtain ⟨-, docIds, -, -, hids, -⟩ := openFromStorage_eq_ok_iff.mp hopens
        rw [hload] at hids
        cases hids
      · next docIds hload =>
        obtain rfl := Option.some.inj hread
        exact ⟨whole, hholds, hindex, (h.filesAt hholds).1.ids.loadDocIds hload⟩
  | listed storage index docIds =>
      obtain ⟨whole, hholds, hindex, hids⟩ := hfollows
      obtain rfl := Option.some.inj hread
      have hpart := (h.filesAt hholds).1
      cases storage with
      | generation name =>
          apply follows_finish
          · intro error herror
            apply h.superseded hholds
            intro vectors hopens
            obtain ⟨found, foundIds, metadata, hfound, hfoundIds, hmetadata, hvectors⟩ :=
              openFromStorage_eq_ok_iff.mp hopens
            obtain rfl := Except.ok.inj ((hpart.index.load hfound).symm.trans hindex)
            obtain rfl := Except.ok.inj ((hpart.ids.loadDocIds hfoundIds).symm.trans hids)
            rw [hmetadata] at herror
            cases herror.symm.trans hvectors
          · intro vectors hvectors
            obtain ⟨metadata, hmetadata, hsnapshot⟩ := except_bind_eq_ok hvectors
            exact Or.inr ⟨name, whole, hholds.2.2, openFromStorage_eq_ok_iff.mpr
              ⟨index, docIds, metadata, hindex, hids,
                hpart.metadata.loadStorageMetadata hmetadata, hsnapshot⟩⟩
      | flat =>
          obtain rfl := hholds
          rw [readMetadata]
          split
          · exact ⟨hindex, hids⟩
          · apply follows_finish
            · exact fun _ _ => trivial
            · intro vectors hvectors
              exact Or.inl (Or.inr (openFromStorage_eq_ok_iff.mpr
                ⟨index, docIds, none, hindex, hids, rfl, hvectors⟩))
  | described index docIds =>
      obtain ⟨hindex, hids⟩ := hfollows
      simp only [Reader.read] at hread
      split at hread
      · next error hload =>
        obtain rfl := Option.some.inj hread
        exact hpointing error trivial
      · next metadata hload =>
        obtain rfl := Option.some.inj hread
        apply follows_finish
        · exact fun _ _ => trivial
        · intro vectors hvectors
          obtain ⟨_, hlayout, hsnapshot⟩ := except_bind_eq_ok hvectors
          refine Or.inl (Or.inl (openFromStorage_eq_ok_iff.mpr
            ⟨index, docIds, some metadata, hindex, hids, ?_, hsnapshot⟩))
          have hholds := h.flat.metadata.load hload
          cases hfile : flat.metadata with
          | missing =>
              rw [hfile] at hholds
              cases hholds
          | damaged =>
              rw [hfile] at hholds
              cases hholds
          | holds content =>
              rw [hfile] at hholds
              obtain rfl := Except.ok.inj hholds
              simp only [loadStorageMetadata, FileOf.load, hlayout]
              rfl

/-! ## Readers that open a published store -/

/-- A reader that has nothing to do with the flat files. -/
def Late : Reader I → Prop
  | .idle => True
  | .pointing failed => ∀ load ∈ failed, load.1 ≠ .flat
  | .loading storage | .loaded storage _ | .listed storage _ _ => storage ≠ .flat
  | .closed (.ok _) => True
  | _ => False

theorem late_finish {storage : Storage} (hstorage : storage ≠ .flat)
    (result : Except LoadError (VectorIndex I)) : Late (finish storage result) := by
  cases result with
  | error error =>
      intro load hload
      obtain rfl := Option.mem_some_iff.mp hload
      exact hstorage
  | ok vectors => trivial

/-- Once a generation is published, a read fails in none: the pointer has changed since. -/
theorem StoreSound.late_read (h : StoreSound usearch flat store) (hpublished : store.published ≠ [])
    {phase following : Reader I} (hfollows : Follows usearch flat store seen phase)
    (hlate : Late phase) (hread : phase.read usearch store.disk = some following) :
    Late following := by
  have hpointing : ∀ {storage : Storage} (error : LoadError), storage ≠ .flat →
      Late (.pointing (some (storage, error)) : Reader I) := by
    intro storage error hstorage load hload
    obtain rfl := Option.mem_some_iff.mp hload
    exact hstorage
  cases phase with
  | idle => cases hread
  | closed result => cases hread
  | probing failed => cases hlate
  | described index docIds => cases hlate
  | pointing failed =>
      obtain rfl := Option.some.inj hread
      obtain ⟨hnone, -⟩ | ⟨name, whole, hhead, -, -, -, heq⟩ := h.readPointer failed
      · exact absurd hnone hpublished
      · rw [heq]
        cases failed with
        | none => exact Storage.noConfusion
        | some load =>
            have hsuperseded := hfollows load rfl
            have hne : Storage.generation name ≠ load.1 := by
              intro hload
              rw [← hload] at hsuperseded
              obtain ⟨others, hothers⟩ : ∃ others, store.published = name :: others :=
                List.head?_eq_some_iff.mp hhead
              have hnodup := h.nodup
              rw [hothers] at hnodup
              refine (List.nodup_cons.mp hnodup).1 ?_
              rw [Superseded, hothers] at hsuperseded
              exact hsuperseded
            rw [resolve, if_neg hne]
            exact Storage.noConfusion
  | loading storage =>
      simp only [Reader.read] at hread
      split at hread <;> obtain rfl := Option.some.inj hread
      · exact hpointing _ hlate
      · exact hlate
  | loaded storage index =>
      simp only [Reader.read] at hread
      split at hread <;> obtain rfl := Option.some.inj hread
      · exact hpointing _ hlate
      · exact hlate
  | listed storage index docIds =>
      obtain rfl := Option.some.inj hread
      cases storage with
      | flat => exact absurd rfl hlate
      | generation name => exact late_finish hlate _

/-! ## Runs -/

section Runs

variable [DecidableEq R]

/-! A writer that publishes what it stages, and a reader whose generation is replaced and removed
while it opens it. -/

def publishing (nanos pid sequence : Nat) (vectors : VectorIndex I) : List (Step I R) :=
  [.begin nanos pid sequence vectors, .write .index, .write .ids, .write .metadata, .move, .publish]

theorem run_publishing {vectors : VectorIndex I} (h : vectors.Consistent usearch)
    (nanos pid sequence : Nat) (hidle : store.writer = .idle)
    (hdrawn : uniqueGenerationName nanos pid sequence ∉ store.drawn) :
    ∃ next : Store I R, Transitions.run (Store.step usearch order) store
        (publishing nanos pid sequence vectors) = some next ∧
      next.disk.pointer = some ⟨1, uniqueGenerationName nanos pid sequence⟩ ∧
      next.disk.entries (uniqueGenerationName nanos pid sequence) =
        some (vectors.files usearch order) ∧
      next.readers = store.readers ∧
      next.writer = .published (uniqueGenerationName nanos pid sequence) ∧
      next.drawn = uniqueGenerationName nanos pid sequence :: store.drawn := by
  have hopens := (openFromStorage_files_iff order vectors _).mpr ⟨h, rfl⟩
  have hwritten : ((Files.none.write (vectors.files usearch order) .index).write
      (vectors.files usearch order) .ids).write (vectors.files usearch order) .metadata =
        vectors.files usearch order := rfl
  have hne := temporaryName_ne (uniqueGenerationName nanos pid sequence) nanos pid sequence
  simp [publishing, Transitions.run_cons, Store.step, Store.begin, hidle, hdrawn, Store.write,
    hwritten, Store.move, hopens, Store.publish, Disk.setEntry_of_ne, hne]

/-- A reader whose generation is removed opens the one that has been published since. -/
theorem run_overtaken {reader : R} {old generation : String} {files : Files I}
    {vectors : VectorIndex I} (hreader : store.readers reader = .loading (.generation old))
    (hwriter : store.writer = .published generation) (hold : isInactive generation old = true)
    (hpointer : store.disk.pointer = some ⟨1, generation⟩)
    (hsafe : isSafeGenerationName generation = true)
    (hentry : store.disk.entries generation = some files)
    (hopens : openFromStorage usearch true files = .ok vectors) :
    ∃ next : Store I R, Transitions.run (Store.step usearch order) store
        [.removeDirectory old, .read reader, .read reader, .read reader, .read reader,
          .read reader] = some next ∧
      next.readers reader = .closed (.ok vectors) := by
  obtain ⟨index, docIds, metadata, hindex, hids, hmetadata, hsnapshot⟩ :=
    openFromStorage_eq_ok_iff.mp hopens
  have hne : generation ≠ old := by
    rintro rfl
    rw [isInactive, decide_eq_false (not_not.mpr rfl)] at hold
    cases hold
  have hgone : (store.disk.setEntry old none).filesAt (.generation old) = Files.none := by
    rw [Disk.filesAt, Disk.setEntry_self]
    rfl
  have hfiles : (store.disk.setEntry old none).filesAt (.generation generation) = files := by
    rw [Disk.filesAt, Disk.setEntry_of_ne _ hne, hentry]
    rfl
  have hremoves : store.writer.removes old = true := by
    rw [hwriter]
    exact hold
  have hsame : (store.disk.setEntry old none).pointer = some ⟨1, generation⟩ := hpointer
  have hmetadataRead : readMetadata usearch (.generation generation) index docIds files.metadata =
      .closed (.ok vectors) := by
    rw [readMetadata, hmetadata]
    exact congrArg (finish _) hsnapshot
  have hmissing : ∃ error, (Files.none : Files I).index.load indexFile = .error error := ⟨_, rfl⟩
  obtain ⟨error, herror⟩ := hmissing
  simp [Transitions.run_cons, Store.step, Store.setEntry, hremoves, Store.setReader, hreader,
    Reader.read, hgone, herror, hsame, readPointer, hsafe, resolve, hne, hfiles, hindex, hids,
    hmetadataRead]

/-- One document more than before. -/
def oneVector : VectorIndex (Nat × Finset UInt64) :=
  { noVectors with index := (2, {1}), docIdSet := {1} }

/-- The steps behind the first publication. -/
def overtaking : List (Step (Nat × Finset UInt64) Unit) :=
  ([.stop none, .openStore (), .read ()] : List (Step (Nat × Finset UInt64) Unit)) ++
    (publishing 8 1 1 oneVector : List (Step (Nat × Finset UInt64) Unit)) ++
    ([.removeDirectory (uniqueGenerationName 7 1 0), .read (), .read (), .read (), .read (),
      .read ()] : List (Step (Nat × Finset UInt64) Unit))

/-- The reader ends with the vectors that were published while it was opening the store. -/
theorem run_published_and_overtaken :
    ∃ mid final : Store (Nat × Finset UInt64) Unit,
      Transitions.run (Store.step plainUsearch ascending) (Store.initial Files.none)
          (publishing 7 1 0 noVectors) = some mid ∧
        mid.disk.pointer.isSome ∧ mid.readers () = .idle ∧
        Transitions.run (Store.step plainUsearch ascending) mid overtaking = some final ∧
        final.readers () = .closed (.ok { oneVector with needsBackfill := false }) := by
  have hone : oneVector.Consistent plainUsearch := ⟨rfl, rfl⟩
  obtain ⟨mid, hmid, hpointer, -, hreaders, hwriter, hdrawn⟩ :=
    @run_publishing _ _ Unit plainUsearch ascending (Store.initial Files.none) _ _
      consistent_noVectors 7 1 0 rfl List.not_mem_nil
  have hidle : mid.readers () = .idle := by
    rw [hreaders]
    rfl
  obtain ⟨opened, hopened, hloading, hstopped, hnames⟩ : ∃ opened,
      Transitions.run (Store.step plainUsearch ascending) mid
          [.stop none, .openStore (), .read ()] = some opened ∧
        opened.readers () = .loading (.generation (uniqueGenerationName 7 1 0)) ∧
        opened.writer = .idle ∧ opened.drawn = mid.drawn := by
    simp [Transitions.run_cons, Store.step, Store.stop, hwriter, Store.openStore, hidle,
      Store.setReader, Reader.read, hpointer, readPointer, isSafeGenerationName_unique, resolve]
  obtain ⟨later, hlater, hnewPointer, hnewEntry, hsame, hnewWriter, -⟩ :=
    @run_publishing _ _ Unit plainUsearch ascending opened _ _ hone 8 1 1 hstopped (by
      rw [hnames, hdrawn]
      decide)
  obtain ⟨final, hfinal, hclosed⟩ := @run_overtaken _ _ Unit plainUsearch ascending later _ ()
    (uniqueGenerationName 7 1 0) _ _ _ (by rw [hsame, hloading]) hnewWriter (by decide)
    hnewPointer (isSafeGenerationName_unique 8 1 1) hnewEntry
    ((openFromStorage_files_iff ascending oneVector _).mpr ⟨hone, rfl⟩)
  refine ⟨mid, final, hmid, by rw [hpointer]; rfl, hidle, ?_, hclosed⟩
  rw [overtaking, Transitions.run_append, Transitions.run_append, hopened, Option.bind_some, hlater,
    Option.bind_some, hfinal]

/-- The generation was active, with these files, while the reader was opening the store. -/
def Seen (usearch : Usearch I V) (order : Iteration) (flat : Files I) (labels : List (Step I R))
    (reader : R) (name : String) (whole : Files I) : Prop :=
  ∃ before mid, before <+: labels ∧
    Transitions.run (Store.step usearch order) (Store.initial flat) before = some mid ∧
    (mid.readers reader).underway = true ∧ mid.disk.pointer = some ⟨1, name⟩ ∧
    mid.disk.entries name = some whole

structure Followed (usearch : Usearch I V) (order : Iteration) (flat : Files I)
    (labels : List (Step I R)) (store : Store I R) : Prop where
  run : Transitions.run (Store.step usearch order) (Store.initial flat) labels = some store
  sound : StoreSound usearch flat store
  follows : ∀ reader,
    Follows usearch flat store (Seen usearch order flat labels reader) (store.readers reader)

theorem Seen.append {labels : List (Step I R)} {reader : R} {name : String} {whole : Files I}
    (h : Seen usearch order flat labels reader name whole) (more : List (Step I R)) :
    Seen usearch order flat (labels ++ more) reader name whole := by
  obtain ⟨before, mid, hbefore, hmid⟩ := h
  exact ⟨before, mid, hbefore.trans (List.prefix_append labels more), hmid⟩

theorem Followed.step {labels : List (Step I R)} {label : Step I R}
    (h : Followed usearch order flat labels store)
    (hstep : store.step usearch order label = some next) :
    Followed usearch order flat (labels ++ [label]) next := by
  refine ⟨Transitions.run_concat_eq_some.mpr ⟨store, h.run, hstep⟩, h.sound.step hstep, ?_⟩
  intro reader
  have hseen : ∀ name whole, Seen usearch order flat labels reader name whole →
      Seen usearch order flat (labels ++ [label]) reader name whole :=
    fun name whole hwhole => hwhole.append [label]
  obtain ⟨other, -, rfl⟩ | ⟨other, phase, hread, rfl⟩ | ⟨hreaders, hgrows⟩ :=
    h.sound.step_cases hstep
  · have hgrows : Grows store (store.setReader other (.pointing none)) := .of_eq rfl rfl
    by_cases heq : reader = other
    · subst heq
      rw [Store.setReader_self]
      exact fun load hload => by cases hload
    · rw [Store.setReader_of_ne _ heq]
      exact hgrows.follows hseen (h.follows reader)
  · have hgrows : Grows store (store.setReader other phase) := .of_eq rfl rfl
    by_cases heq : reader = other
    · subst heq
      rw [Store.setReader_self]
      refine hgrows.follows hseen (h.sound.follows_read (h.follows reader) ?_ hread)
      intro hunderway name whole hpointer hentry
      exact ⟨labels, store, List.prefix_refl labels, h.run, hunderway, hpointer, hentry⟩
    · rw [Store.setReader_of_ne _ heq]
      exact hgrows.follows hseen (h.follows reader)
  · rw [hreaders]
    exact hgrows.follows hseen (h.follows reader)

theorem followed_run {labels : List (Step I R)}
    (hrun : Transitions.run (Store.step usearch order) (Store.initial flat) labels = some store) :
    Followed usearch order flat labels store := by
  refine Transitions.run_history (fun labels store label next h hstep => h.step hstep) ?_ hrun
  exact ⟨rfl, sound_initial flat, fun _ => trivial⟩

/-- What a reader opens is a whole generation that was active while it was opening the store, or
the flat files of an older version. -/
theorem opened_generation_was_active {labels : List (Step I R)}
    (hrun : Transitions.run (Store.step usearch order) (Store.initial flat) labels = some store)
    {reader : R} {vectors : VectorIndex I}
    (hopened : store.readers reader = .closed (.ok vectors)) :
    FlatOpens usearch flat vectors ∨
      ∃ before mid name whole, before <+: labels ∧
        Transitions.run (Store.step usearch order) (Store.initial flat) before = some mid ∧
        (mid.readers reader).underway = true ∧ mid.disk.pointer = some ⟨1, name⟩ ∧
        mid.disk.entries name = some whole ∧ openFromStorage usearch true whole = .ok vectors := by
  have hfollows := (followed_run hrun).follows reader
  rw [hopened] at hfollows
  obtain hflat | ⟨name, whole, ⟨before, mid, hbefore, hmid, hunderway, hpointer, hentry⟩, hopens⟩ :=
    hfollows
  · exact Or.inl hflat
  · exact Or.inr ⟨before, mid, name, whole, hbefore, hmid, hunderway, hpointer, hentry, hopens⟩

/-- The generation that was opened is the second one, not the one the reader began with. -/
theorem opened_generation_was_active_overtaken :
    ∃ final : Store (Nat × Finset UInt64) Unit,
      Transitions.run (Store.step plainUsearch ascending) (Store.initial Files.none)
          (publishing 7 1 0 noVectors ++ overtaking) = some final ∧
        (FlatOpens plainUsearch Files.none { oneVector with needsBackfill := false } ∨
          ∃ before mid name whole, before <+: publishing 7 1 0 noVectors ++ overtaking ∧
            Transitions.run (Store.step plainUsearch ascending) (Store.initial Files.none) before =
              some mid ∧
            (mid.readers ()).underway = true ∧ mid.disk.pointer = some ⟨1, name⟩ ∧
            mid.disk.entries name = some whole ∧
            openFromStorage plainUsearch true whole =
              .ok { oneVector with needsBackfill := false }) := by
  obtain ⟨mid, final, hmid, -, -, hfinal, hclosed⟩ := run_published_and_overtaken
  have hrun : Transitions.run (Store.step plainUsearch ascending) (Store.initial Files.none)
      (publishing 7 1 0 noVectors ++ overtaking) = some final := by
    rw [Transitions.run_append, hmid, Option.bind_some, hfinal]
  exact ⟨final, hrun, opened_generation_was_active hrun hclosed⟩

/-- A reader that is late stays late, whatever step is taken. -/
theorem Followed.late_step {labels : List (Step I R)} {label : Step I R}
    (h : Followed usearch order flat labels store) (hpublished : store.published ≠ [])
    (hstep : store.step usearch order label = some next) {reader : R}
    (hlate : Late (store.readers reader)) : Late (next.readers reader) := by
  obtain ⟨other, -, rfl⟩ | ⟨other, phase, hread, rfl⟩ | ⟨hreaders, -⟩ := h.sound.step_cases hstep
  · by_cases heq : reader = other
    · subst heq
      rw [Store.setReader_self]
      exact fun load hload => by cases hload
    · rwa [Store.setReader_of_ne _ heq]
  · by_cases heq : reader = other
    · subst heq
      rw [Store.setReader_self]
      exact h.sound.late_read hpublished (h.follows reader) hlate hread
    · rwa [Store.setReader_of_ne _ heq]
  · rwa [hreaders]

theorem Followed.published_step {labels : List (Step I R)} {label : Step I R}
    (h : Followed usearch order flat labels store) (hpublished : store.published ≠ [])
    (hstep : store.step usearch order label = some next) : next.published ≠ [] := by
  obtain ⟨other, -, rfl⟩ | ⟨other, phase, -, rfl⟩ | ⟨-, hgrows⟩ := h.sound.step_cases hstep
  · exact hpublished
  · exact hpublished
  · obtain ⟨more, hmore⟩ := hgrows.published
    rw [hmore]
    exact List.append_ne_nil_of_right_ne_nil more hpublished

/-- A run behind a published generation, and the readers that open the store in it. -/
structure LateRun (usearch : Usearch I V) (order : Iteration) (flat : Files I)
    (before : List (Step I R)) (mid : Store I R) (labels : List (Step I R)) (store : Store I R) :
    Prop where
  followed : Followed usearch order flat (before ++ labels) store
  published : store.published ≠ []
  late : ∀ reader, mid.readers reader = .idle → Late (store.readers reader)

theorem LateRun.step {before labels : List (Step I R)} {mid : Store I R} {label : Step I R}
    (h : LateRun usearch order flat before mid labels store)
    (hstep : store.step usearch order label = some next) :
    LateRun usearch order flat before mid (labels ++ [label]) next where
  followed := by
    rw [← List.append_assoc]
    exact h.followed.step hstep
  published := h.followed.published_step h.published hstep
  late reader hidle := h.followed.late_step h.published hstep (h.late reader hidle)

/-- Once a generation is published, wherever the writer stops, the active one opens, and a reader
that opens the store never fails. -/
theorem published_store_opens {before labels : List (Step I R)} {mid : Store I R}
    (hbefore : Transitions.run (Store.step usearch order) (Store.initial flat) before = some mid)
    (hpublished : mid.disk.pointer.isSome)
    (hrun : Transitions.run (Store.step usearch order) mid labels = some store) :
    (∃ name whole vectors, store.disk.pointer = some ⟨1, name⟩ ∧
        store.disk.entries name = some whole ∧ openFromStorage usearch true whole = .ok vectors) ∧
      ∀ reader, mid.readers reader = .idle →
        ∀ error, store.readers reader ≠ .closed (.error error) := by
  have hmid := followed_run hbefore
  have hstart : mid.published ≠ [] := by
    intro hnone
    rw [hmid.sound.pointer, hnone] at hpublished
    cases hpublished
  have hfirst : LateRun usearch order flat before mid [] mid := by
    refine ⟨by rwa [List.append_nil], hstart, fun reader hidle => ?_⟩
    rw [hidle]
    trivial
  have hlast : LateRun usearch order flat before mid labels store :=
    Transitions.run_history (fun _ _ _ _ h hstep => h.step hstep) hfirst hrun
  constructor
  · obtain ⟨hnone, -⟩ | ⟨name, whole, -, hstaged, hentry, hpointer, -⟩ :=
      hlast.followed.sound.readPointer none
    · exact absurd hnone hlast.published
    · obtain ⟨vectors, hopens⟩ := hlast.followed.sound.opens name whole hstaged
      exact ⟨name, whole, vectors, hpointer, hentry, hopens⟩
  · intro reader hidle error hclosed
    have hreader := hlast.late reader hidle
    rw [hclosed] at hreader
    exact hreader

theorem published_store_opens_overtaken :
    ∃ mid final : Store (Nat × Finset UInt64) Unit,
      mid.disk.pointer.isSome ∧ mid.readers () = .idle ∧
        Transitions.run (Store.step plainUsearch ascending) mid overtaking = some final ∧
        (∃ name whole vectors, final.disk.pointer = some ⟨1, name⟩ ∧
          final.disk.entries name = some whole ∧
          openFromStorage plainUsearch true whole = .ok vectors) ∧
        ∀ error, final.readers () ≠ .closed (.error error) := by
  obtain ⟨mid, final, hmid, hpointer, hidle, hfinal, -⟩ := run_published_and_overtaken
  obtain ⟨hopens, hnever⟩ := published_store_opens hmid hpointer hfinal
  exact ⟨mid, final, hpointer, hidle, hfinal, hopens, hnever () hidle⟩

end Runs

end Readers

end Memex.Vectors
