import Memex.Vectors.Publication

/-! # What the writer of vectors keeps

Whatever the writer does and wherever it stops, the pointer names a generation that opens, and what
lies under a name is a part of what was moved there. -/

namespace Memex.Vectors

/-! ## Names -/

theorem slash_not_mem_toString (count : Nat) : '/' ∉ (toString count).toList := by
  intro hmem
  have hdigit := Nat.isDigit_of_mem_toDigits (by decide) (by decide)
    (Nat.toList_repr ▸ hmem : '/' ∈ Nat.toDigits 10 count)
  exact absurd hdigit (by decide)

theorem toList_uniqueGenerationName (nanos pid sequence : Nat) :
    (uniqueGenerationName nanos pid sequence).toList =
      'g' :: ("eneration-".toList ++ (toString nanos).toList ++ "-".toList ++
        (toString pid).toList ++ "-".toList ++ (toString sequence).toList) := by
  delta uniqueGenerationName
  simp only [String.toList_append]
  rfl

theorem slash_not_mem_uniqueGenerationName (nanos pid sequence : Nat) :
    '/' ∉ (uniqueGenerationName nanos pid sequence).toList := by
  rw [toList_uniqueGenerationName]
  simp only [List.mem_cons, List.mem_append, not_or]
  exact ⟨by decide, ⟨⟨⟨⟨by decide, slash_not_mem_toString nanos⟩, by decide⟩,
    slash_not_mem_toString pid⟩, by decide⟩, slash_not_mem_toString sequence⟩

/-- A name that is drawn begins with a letter. -/
theorem uniqueGenerationName_head (nanos pid sequence : Nat) :
    ∃ rest, (uniqueGenerationName nanos pid sequence).toList = 'g' :: rest :=
  ⟨_, toList_uniqueGenerationName nanos pid sequence⟩

theorem isSafeGenerationName_unique (nanos pid sequence : Nat) :
    isSafeGenerationName (uniqueGenerationName nanos pid sequence) = true := by
  obtain ⟨rest, hrest⟩ := uniqueGenerationName_head nanos pid sequence
  have hslash := slash_not_mem_uniqueGenerationName nanos pid sequence
  simp only [isSafeGenerationName, Text.startsWith]
  rw [hrest] at hslash ⊢
  rw [List.splitOn_eq_singleton hslash]
  simp [List.isPrefixOf]

theorem temporaryName_ne (generation : String) (nanos pid sequence : Nat) :
    uniqueGenerationName nanos pid sequence ≠ temporaryName generation := by
  intro h
  obtain ⟨rest, hrest⟩ := uniqueGenerationName_head nanos pid sequence
  have hlist := congrArg String.toList h
  rw [hrest, temporaryName, String.toList_append, String.toList_append] at hlist
  have hhead : 'g' = '.' := (List.cons.inj hlist).1
  exact absurd hhead (by decide)

/-! ## Files that go -/

section Within

variable {I V : Type*} {usearch : Usearch I V}

/-- A file is what it was, or gone. -/
def FileOf.Within {α : Type*} (part whole : FileOf α) : Prop :=
  part = .missing ∨ part = whole

structure Files.Within (part whole : Files I) : Prop where
  index : part.index.Within whole.index
  ids : part.ids.Within whole.ids
  metadata : part.metadata.Within whole.metadata

theorem Files.Within.refl (files : Files I) : files.Within files :=
  ⟨.inr rfl, .inr rfl, .inr rfl⟩

theorem Files.none_within (files : Files I) : Files.none.Within files :=
  ⟨.inl rfl, .inl rfl, .inl rfl⟩

theorem Files.Within.unlink {part whole : Files I} (h : part.Within whole) (file : FileName) :
    (part.unlink file).Within whole := by
  cases file with
  | index => exact ⟨.inl rfl, h.ids, h.metadata⟩
  | ids => exact ⟨h.index, .inl rfl, h.metadata⟩
  | metadata => exact ⟨h.index, h.ids, .inl rfl⟩

theorem FileOf.Within.load {α : Type*} {part whole : FileOf α} (h : part.Within whole)
    {file : String} {content : α} (hload : part.load file = .ok content) :
    whole.load file = .ok content := by
  rcases h with rfl | rfl
  · cases hload
  · exact hload

theorem FileOf.Within.loadDocIds {part whole : FileOf Bytes} (h : part.Within whole)
    {docIds : Finset UInt64} (hload : loadDocIds part = .ok docIds) :
    loadDocIds whole = .ok docIds := by
  rcases h with rfl | rfl
  · cases hload
  · exact hload

theorem FileOf.Within.loadStorageMetadata {part whole : FileOf Metadata} (h : part.Within whole)
    {metadata : Option Metadata} (hload : loadStorageMetadata true part = .ok metadata) :
    loadStorageMetadata true whole = .ok metadata := by
  rcases h with rfl | rfl
  · cases hload
  · exact hload

theorem except_bind_eq_ok {ε α β : Type*} {value : Except ε α} {next : α → Except ε β} {result : β}
    (h : value.bind next = .ok result) :
    ∃ middle, value = .ok middle ∧ next middle = .ok result := by
  cases value with
  | error error => cases h
  | ok middle => exact ⟨middle, rfl, h⟩

end Within

/-! ## What the writer keeps -/

section Runs

variable {I V R : Type*} {usearch : Usearch I V} {order : Iteration}

def WriterSound (store : Store I R) : Writer I → Prop
  | .idle => True
  | .staging generation _ => generation ∈ store.drawn ∧ store.staged generation = none
  | .staged generation => generation ∉ store.published ∧ (store.staged generation).isSome ∧
      store.disk.entries generation = store.staged generation
  | .dropping generation => generation ∉ store.published
  | .published generation => store.published.head? = some generation

/-- What lies under a drawn name is a part of what was moved there, and under the pointer it is the
whole. -/
structure StoreSound (usearch : Usearch I V) (flat : Files I) (store : Store I R) : Prop where
  drawn : ∀ name ∈ store.drawn, ∃ nanos pid sequence,
    name = uniqueGenerationName nanos pid sequence
  entry_drawn : ∀ nanos pid sequence files,
    store.disk.entries (uniqueGenerationName nanos pid sequence) = some files →
      uniqueGenerationName nanos pid sequence ∈ store.drawn
  staged_drawn : ∀ name files, store.staged name = some files → name ∈ store.drawn
  opens : ∀ name files, store.staged name = some files →
    ∃ vectors, openFromStorage usearch true files = .ok vectors
  within : ∀ name ∈ store.drawn, ∀ files, store.disk.entries name = some files →
    ∃ whole, store.staged name = some whole ∧ files.Within whole
  nodup : store.published.Nodup
  published_staged : ∀ name ∈ store.published, (store.staged name).isSome
  pointer : store.disk.pointer = store.published.head?.map fun name => ⟨1, name⟩
  active : ∀ name, store.published.head? = some name →
    store.disk.entries name = store.staged name
  flat : store.disk.flat.Within flat
  writer : WriterSound store store.writer

variable {flat : Files I} {store next : Store I R}

theorem sound_initial (flat : Files I) :
    StoreSound usearch flat (Store.initial flat : Store I R) where
  drawn _ h := by cases h
  entry_drawn _ _ _ _ h := by cases h
  staged_drawn _ _ h := by cases h
  opens _ _ h := by cases h
  within _ h := by cases h
  nodup := List.nodup_nil
  published_staged _ h := by cases h
  pointer := rfl
  active _ h := by cases h
  flat := .refl flat
  writer := trivial

theorem StoreSound.temporary_not_drawn (h : StoreSound usearch flat store) (generation : String) :
    temporaryName generation ∉ store.drawn := by
  intro hmem
  obtain ⟨nanos, pid, sequence, heq⟩ := h.drawn _ hmem
  exact temporaryName_ne generation nanos pid sequence heq.symm

theorem StoreSound.published_drawn (h : StoreSound usearch flat store) {name : String}
    (hname : name ∈ store.published) : name ∈ store.drawn := by
  obtain ⟨files, hfiles⟩ := Option.isSome_iff_exists.mp (h.published_staged name hname)
  exact h.staged_drawn name files hfiles

/-- The writer changes what lies under a name that is not drawn: its temporary directory. -/
theorem StoreSound.setEntry_temporary (h : StoreSound usearch flat store) (generation : String)
    (files : Option (Files I)) (writer : Writer I) (hwriter : WriterSound store writer) :
    StoreSound usearch flat
      { store with disk := store.disk.setEntry (temporaryName generation) files, writer } := by
  have hother : ∀ name ∈ store.drawn,
      (store.disk.setEntry (temporaryName generation) files).entries name =
        store.disk.entries name := by
    intro name hname
    apply Disk.setEntry_of_ne
    rintro rfl
    exact h.temporary_not_drawn generation hname
  refine { h with entry_drawn := ?_, within := ?_, active := ?_, writer := ?_ }
  · intro nanos pid sequence found hfound
    rw [Disk.setEntry_of_ne _ (temporaryName_ne generation nanos pid sequence)] at hfound
    exact h.entry_drawn nanos pid sequence found hfound
  · intro name hname found hfound
    rw [hother name hname] at hfound
    exact h.within name hname found hfound
  · intro name hname
    rw [hother name (h.published_drawn (List.mem_of_mem_head? hname))]
    exact h.active name hname
  · cases writer with
    | staged other =>
        refine ⟨hwriter.1, hwriter.2.1, ?_⟩
        obtain ⟨whole, hwhole⟩ := Option.isSome_iff_exists.mp hwriter.2.1
        exact (hother other (h.staged_drawn other whole hwhole)).trans hwriter.2.2
    | _ => exact hwriter

/-- The writer removes a part of what lies under a name that is not active. -/
theorem StoreSound.removeEntry (h : StoreSound usearch flat store) {entry : String}
    (hremoves : store.writer.removes entry = true) {files : Option (Files I)}
    (hpart : ∀ found, files = some found → ∃ old, store.disk.entries entry = some old ∧
      ∀ whole, old.Within whole → found.Within whole) :
    StoreSound usearch flat { store with disk := store.disk.setEntry entry files } := by
  have hinactive : store.published.head? ≠ some entry := by
    intro hhead
    have hwriter := h.writer
    cases hphase : store.writer with
    | dropping generation =>
        rw [hphase] at hremoves hwriter
        obtain rfl : entry = generation := of_decide_eq_true hremoves
        exact hwriter (List.mem_of_mem_head? hhead)
    | published generation =>
        rw [hphase] at hremoves hwriter
        obtain rfl : entry = generation := Option.some.inj (hhead.symm.trans hwriter)
        simp [Writer.removes, isInactive] at hremoves
    | _ =>
        rw [hphase] at hremoves
        cases hremoves
  have hentry : ∀ name found, (store.disk.setEntry entry files).entries name = some found →
      ∃ old, store.disk.entries name = some old ∧
        ∀ whole, old.Within whole → found.Within whole := by
    intro name found hfound
    by_cases heq : name = entry
    · subst heq
      exact hpart found ((Disk.setEntry_self ..).symm.trans hfound)
    · exact ⟨found, (Disk.setEntry_of_ne _ heq _).symm.trans hfound, fun _ hwithin => hwithin⟩
  refine { h with entry_drawn := ?_, within := ?_, active := ?_, writer := ?_ }
  · intro nanos pid sequence found hfound
    obtain ⟨old, hold, -⟩ := hentry _ found hfound
    exact h.entry_drawn nanos pid sequence old hold
  · intro name hname found hfound
    obtain ⟨old, hold, hfrom⟩ := hentry name found hfound
    obtain ⟨whole, hwhole, hwithin⟩ := h.within name hname old hold
    exact ⟨whole, hwhole, hfrom whole hwithin⟩
  · intro name hname
    have hne : name ≠ entry := fun heq => hinactive (heq ▸ hname)
    exact (Disk.setEntry_of_ne _ hne _).trans (h.active name hname)
  · have hwriter := h.writer
    show WriterSound _ store.writer
    cases hphase : store.writer with
    | staged generation =>
        rw [hphase] at hremoves
        cases hremoves
    | _ =>
        rw [hphase] at hwriter
        exact hwriter

theorem StoreSound.begin (h : StoreSound usearch flat store) {nanos pid sequence : Nat}
    {vectors : VectorIndex I}
    (hstep : store.begin (uniqueGenerationName nanos pid sequence) vectors = some next) :
    StoreSound usearch flat next := by
  rw [Store.begin] at hstep
  split at hstep
  · split at hstep
    · cases hstep
    · next hfresh =>
      set generation := uniqueGenerationName nanos pid sequence
      have hnone : store.staged generation = none := by
        cases hstaged : store.staged generation with
        | none => rfl
        | some files => exact absurd (h.staged_drawn _ files hstaged) hfresh
      have hnew := h.setEntry_temporary generation (some Files.none) .idle trivial
      obtain rfl := Option.some.inj hstep
      refine
        { hnew with drawn := ?_, entry_drawn := ?_, staged_drawn := ?_, within := ?_, writer := ?_ }
      · intro name hname
        obtain rfl | hname := List.mem_cons.mp hname
        · exact ⟨nanos, pid, sequence, rfl⟩
        · exact h.drawn name hname
      · exact fun nanos pid sequence files hfiles =>
          List.mem_cons_of_mem _ (hnew.entry_drawn nanos pid sequence files hfiles)
      · exact fun name files hstaged => List.mem_cons_of_mem _ (h.staged_drawn name files hstaged)
      · intro name hname files hfiles
        obtain rfl | hname := List.mem_cons.mp hname
        · exact absurd (hnew.entry_drawn nanos pid sequence files hfiles) hfresh
        · exact hnew.within name hname files hfiles
      · exact ⟨List.mem_cons_self, hnone⟩
  · cases hstep

theorem StoreSound.write (h : StoreSound usearch flat store) {file : FileName}
    (hstep : store.write usearch order file = some next) : StoreSound usearch flat next := by
  rw [Store.write] at hstep
  split at hstep
  · next generation vectors hphase =>
    obtain rfl := Option.some.inj hstep
    have hwriter := h.writer
    rw [hphase] at hwriter
    have hsound := h.setEntry_temporary generation
      ((store.disk.entries (temporaryName generation)).map fun files =>
        files.write (vectors.files usearch order) file) (.staging generation vectors)
      hwriter
    rwa [← hphase] at hsound
  · cases hstep

theorem StoreSound.move (h : StoreSound usearch flat store)
    (hstep : store.move usearch = some next) : StoreSound usearch flat next := by
  rw [Store.move] at hstep
  split at hstep
  · next generation vectors hphase =>
    split at hstep
    · cases hstep
    · next files hfiles =>
      split at hstep
      · cases hstep
      · next opened hopened =>
        have hwriter := h.writer
        rw [hphase] at hwriter
        obtain ⟨hdrawn, hnone⟩ := hwriter
        have hnew : generation ∉ store.published := by
          intro hmem
          have hsome := h.published_staged generation hmem
          rw [hnone] at hsome
          cases hsome
        have hmoved : StoreSound usearch flat
            { store with
              disk := store.disk.setEntry generation (some files)
              writer := .idle
              staged := Function.update store.staged generation (some files) } := by
          have hstaged : ∀ name ≠ generation,
              Function.update store.staged generation (some files) name = store.staged name :=
            fun name hne => Function.update_of_ne hne ..
          have hself : Function.update store.staged generation (some files) generation =
              some files := Function.update_self ..
          have hpublished : ∀ name ∈ store.published, name ≠ generation :=
            fun name hname heq => hnew (heq ▸ hname)
          refine
            { h with
              entry_drawn := ?_, staged_drawn := ?_, opens := ?_, within := ?_,
              published_staged := ?_, active := ?_, writer := trivial }
          · intro nanos pid sequence found hfound
            by_cases heq : uniqueGenerationName nanos pid sequence = generation
            · exact heq ▸ hdrawn
            · rw [Disk.setEntry_of_ne _ heq] at hfound
              exact h.entry_drawn nanos pid sequence found hfound
          · intro name found hfound
            by_cases heq : name = generation
            · exact heq ▸ hdrawn
            · exact h.staged_drawn name found ((hstaged name heq).symm.trans hfound)
          · intro name found hfound
            by_cases heq : name = generation
            · subst heq
              obtain rfl := Option.some.inj (hself.symm.trans hfound)
              exact ⟨opened, hopened⟩
            · exact h.opens name found ((hstaged name heq).symm.trans hfound)
          · intro name hname found hfound
            by_cases heq : name = generation
            · subst heq
              rw [Disk.setEntry_self] at hfound
              obtain rfl := Option.some.inj hfound
              exact ⟨files, hself, .refl files⟩
            · rw [Disk.setEntry_of_ne _ heq] at hfound
              obtain ⟨whole, hwhole, hwithin⟩ := h.within name hname found hfound
              exact ⟨whole, (hstaged name heq).trans hwhole, hwithin⟩
          · intro name hname
            show (Function.update store.staged generation (some files) name).isSome
            rw [hstaged name (hpublished name hname)]
            exact h.published_staged name hname
          · intro name hname
            have hne := hpublished name (List.mem_of_mem_head? hname)
            exact ((Disk.setEntry_of_ne _ hne _).trans (h.active name hname)).trans
              (hstaged name hne).symm
        obtain rfl := Option.some.inj hstep
        refine hmoved.setEntry_temporary generation none (.staged generation) ?_
        exact ⟨hnew, by simp, by simp⟩
  · cases hstep

theorem StoreSound.publish (h : StoreSound usearch flat store)
    (hstep : store.publish = some next) : StoreSound usearch flat next := by
  rw [Store.publish] at hstep
  split at hstep
  · next generation hphase =>
    obtain rfl := Option.some.inj hstep
    have hwriter := h.writer
    rw [hphase] at hwriter
    obtain ⟨hnew, hstaged, hentry⟩ := hwriter
    refine { h with
      nodup := ?_, published_staged := ?_, pointer := rfl, active := ?_, writer := rfl }
    · exact List.nodup_cons.mpr ⟨hnew, h.nodup⟩
    · intro name hname
      obtain rfl | hname := List.mem_cons.mp hname
      · exact hstaged
      · exact h.published_staged name hname
    · intro name hname
      obtain rfl : generation = name := Option.some.inj hname
      exact hentry
  · cases hstep

theorem StoreSound.drop (h : StoreSound usearch flat store)
    (hstep : store.drop = some next) : StoreSound usearch flat next := by
  rw [Store.drop] at hstep
  split at hstep
  · next generation hphase =>
    obtain rfl := Option.some.inj hstep
    have hwriter := h.writer
    rw [hphase] at hwriter
    exact { h with writer := hwriter.1 }
  · cases hstep

theorem StoreSound.unlinkFlat (h : StoreSound usearch flat store) {file : FileName}
    (hstep : store.unlinkFlat file = some next) : StoreSound usearch flat next := by
  rw [Store.unlinkFlat] at hstep
  split at hstep
  · next generation hphase =>
    obtain rfl := Option.some.inj hstep
    have hwriter := h.writer
    rw [hphase] at hwriter
    refine { h with flat := h.flat.unlink file, writer := ?_ }
    show WriterSound _ store.writer
    rw [hphase]
    exact hwriter
  · cases hstep

theorem StoreSound.stop (h : StoreSound usearch flat store) {left : Option (Files I)}
    (hstep : store.stop left = some next) : StoreSound usearch flat next := by
  rw [Store.stop] at hstep
  split at hstep
  · cases hstep
  · next generation vectors hphase =>
    obtain rfl := Option.some.inj hstep
    exact h.setEntry_temporary generation left .idle trivial
  · obtain rfl := Option.some.inj hstep
    exact { h with writer := trivial }

theorem StoreSound.setEntry (h : StoreSound usearch flat store) {entry : String}
    {files : Option (Files I)}
    (hpart : ∀ found, files = some found → ∃ old, store.disk.entries entry = some old ∧
      ∀ whole, old.Within whole → found.Within whole)
    (hstep : store.setEntry entry files = some next) : StoreSound usearch flat next := by
  rw [Store.setEntry] at hstep
  split at hstep
  · next hremoves =>
    obtain rfl := Option.some.inj hstep
    exact h.removeEntry hremoves hpart
  · cases hstep

/-- The history goes on. -/
structure Grows (store next : Store I R) : Prop where
  staged : ∀ name files, store.staged name = some files → next.staged name = some files
  published : ∃ more, next.published = more ++ store.published

theorem Grows.of_eq (hstaged : next.staged = store.staged)
    (hpublished : next.published = store.published) : Grows store next :=
  ⟨fun name files h => by rw [hstaged, h], [], by rw [hpublished]; rfl⟩

section Step

variable [DecidableEq R]

theorem StoreSound.setReader (h : StoreSound usearch flat store) (reader : R) (phase : Reader I) :
    StoreSound usearch flat (store.setReader reader phase) := by
  refine { h with writer := ?_ }
  have hwriter := h.writer
  show WriterSound _ store.writer
  cases hphase : store.writer with
  | _ =>
      rw [hphase] at hwriter
      exact hwriter

/-- Every step keeps the store sound. -/
theorem StoreSound.step (h : StoreSound usearch flat store) {label : Step I R}
    (hstep : store.step usearch order label = some next) : StoreSound usearch flat next := by
  cases label with
  | begin nanos pid sequence vectors => exact h.begin hstep
  | write file => exact h.write hstep
  | move => exact h.move hstep
  | publish => exact h.publish hstep
  | drop => exact h.drop hstep
  | unlink entry file =>
      refine h.setEntry (fun found hfound => ?_) hstep
      obtain ⟨old, hold, rfl⟩ := Option.map_eq_some_iff.mp hfound
      exact ⟨old, hold, fun whole hwithin => hwithin.unlink file⟩
  | removeDirectory entry => exact h.setEntry (fun found hfound => by cases hfound) hstep
  | unlinkFlat file => exact h.unlinkFlat hstep
  | stop left => exact h.stop hstep
  | openStore reader =>
      rw [Store.step, Store.openStore] at hstep
      split at hstep
      · obtain rfl := Option.some.inj hstep
        exact h.setReader reader _
      · cases hstep
  | read reader =>
      obtain ⟨phase, -, rfl⟩ := Option.map_eq_some_iff.mp hstep
      exact h.setReader reader phase

/-- A step opens the store for a reader, is a read of one, or is the writer's. -/
theorem StoreSound.step_cases (h : StoreSound usearch flat store) {label : Step I R}
    (hstep : store.step usearch order label = some next) :
    (∃ reader, store.readers reader = .idle ∧ next = store.setReader reader (.pointing none)) ∨
      (∃ reader phase, (store.readers reader).read usearch store.disk = some phase ∧
        next = store.setReader reader phase) ∨
      (next.readers = store.readers ∧ Grows store next) := by
  cases label with
  | openStore reader =>
      rw [Store.step, Store.openStore] at hstep
      split at hstep
      · next hidle => exact Or.inl ⟨reader, hidle, (Option.some.inj hstep).symm⟩
      · cases hstep
  | read reader =>
      obtain ⟨phase, hphase, rfl⟩ := Option.map_eq_some_iff.mp hstep
      exact Or.inr (Or.inl ⟨reader, phase, hphase, rfl⟩)
  | begin nanos pid sequence vectors =>
      rw [Store.step, Store.begin] at hstep
      split at hstep
      · split at hstep <;> cases hstep
        exact Or.inr (Or.inr ⟨rfl, .of_eq rfl rfl⟩)
      · cases hstep
  | write file =>
      rw [Store.step, Store.write] at hstep
      split at hstep <;> cases hstep
      exact Or.inr (Or.inr ⟨rfl, .of_eq rfl rfl⟩)
  | move =>
      rw [Store.step, Store.move] at hstep
      split at hstep
      · next generation vectors hphase =>
        have hwriter := h.writer
        rw [hphase] at hwriter
        split at hstep
        · cases hstep
        · split at hstep <;> cases hstep
          refine Or.inr (Or.inr ⟨rfl, fun name files hfiles => ?_, [], rfl⟩)
          have hne : name ≠ generation := by
            rintro rfl
            rw [hwriter.2] at hfiles
            cases hfiles
          exact (Function.update_of_ne hne ..).trans hfiles
      · cases hstep
  | publish =>
      rw [Store.step, Store.publish] at hstep
      split at hstep <;> cases hstep
      exact Or.inr (Or.inr ⟨rfl, fun _ _ hfiles => hfiles, [_], rfl⟩)
  | drop =>
      rw [Store.step, Store.drop] at hstep
      split at hstep <;> cases hstep
      exact Or.inr (Or.inr ⟨rfl, .of_eq rfl rfl⟩)
  | unlink entry file | removeDirectory entry =>
      rw [Store.step, Store.setEntry] at hstep
      split at hstep <;> cases hstep
      exact Or.inr (Or.inr ⟨rfl, .of_eq rfl rfl⟩)
  | unlinkFlat file =>
      rw [Store.step, Store.unlinkFlat] at hstep
      split at hstep <;> cases hstep
      exact Or.inr (Or.inr ⟨rfl, .of_eq rfl rfl⟩)
  | stop left =>
      rw [Store.step, Store.stop] at hstep
      split at hstep <;> cases hstep
      · exact Or.inr (Or.inr ⟨rfl, .of_eq rfl rfl⟩)
      · exact Or.inr (Or.inr ⟨rfl, .of_eq rfl rfl⟩)

end Step

end Runs

end Memex.Vectors
