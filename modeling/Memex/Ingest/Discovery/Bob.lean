import Memex.Ingest.Discovery.Transcripts

/-! # Bob discovery

`discover_bob` of `ingest/discovery.rs`: each task of a Bob database is a
virtual file. Tasks gone from a readable database, and all tasks of an absent
or excluded one, are dropped from the checkpoint. -/

namespace Memex.Ingest

open Overlay State

/-- What a configured database turned out to be. -/
inductive BobDatabaseState where
  /-- Excluded, or deleted from a readable directory. -/
  | absent (skipped : Nat)
  /-- Present but unreadable, or in an unreadable directory. -/
  | unreadable (reported : Bool)
  | notAFile
  | readable (tasks : List BobTask)

structure BobDiscovery where
  tasks : List FileTask := []
  unchangedIdentities : List (String × FileIdentity) := []
  filesScanned : Nat := 0
  filesSkipped : Nat := 0
  totalBytes : Nat := 0
  /-- Virtual paths whose task vanished, was excluded or lost its database. -/
  missingPaths : Finset String := ∅
  unreadableDatabases : List String := []
  unreadableSources : List String := []

/-- The alias of a database in its canonical directory, when it is another
spelling. -/
def bobCanonicalDatabase (inv : Inventory) (database : String) : Option String :=
  (inv.bobAlias database).filter (· ≠ database)

def inspectBobDatabase (inv : Inventory) (options : IngestOptions) (database : String) :
    BobDatabaseState :=
  let excluder := options.excluder
  if excluder.isExcluded database ||
      (bobCanonicalDatabase inv database).any fun canonical => excluder.isExcluded canonical then
    .absent 1
  else
    let store := inv.bobStore database
    match store.stat with
    | .notFound => if store.parentIsDir then .absent 0 else .unreadable false
    | .error => .unreadable true
    | .found metadata =>
        if metadata.isFile then
          match store.enumerateTasks with
          | some tasks => .readable tasks
          | none => .unreadable true
        else .notAFile

/-- Exclusions of a task are checked on its path and on the canonical alias. -/
def bobTaskExcluded (inv : Inventory) (options : IngestOptions) (database : String)
    (task : BobTask) : Bool :=
  options.excluder.isExcluded (inv.bobVirtualPath database task.id) ||
    (bobCanonicalDatabase inv database).any fun canonical =>
      options.excluder.isExcluded (inv.bobVirtualPath canonical task.id)

def bobIdentity (database : String) (task : BobTask) : FileIdentity where
  bobDatabase := some database
  prefixSha256 := some task.fingerprint
  prefixBytes := 1

/-- Task aggregates drive change detection; there is no byte offset. -/
def bobFileTask (inv : Inventory) (options : IngestOptions) (database : String) (task : BobTask)
    (previous : Option FileState) : FileTask :=
  let parserVersion := inv.indexVersion .bob options.includeReasoning
  let identity := bobIdentity database task
  let size := task.messageCount
  let mtime : Int := (task.updatedAt / 1000 : Nat)
  { path := inv.bobVirtualPath database task.id
    source := .bob
    offset := 0
    turnId := 0
    legacyTurnId := none
    size, mtime, identity, parserVersion
    change := classifyFile .bob size mtime identity parserVersion previous
    pendingToolCalls := ∅
    codexMetadataOffsets := none
    claudeBackground := none }

/-- Read one task of a readable database. -/
def discoverBobTask (inv : Inventory) (options : IngestOptions) (database : String)
    (task : BobTask) : CheckpointSession × BobDiscovery → CheckpointSession × BobDiscovery
  | (session, result) =>
      let key := inv.bobVirtualPath database task.id
      if bobTaskExcluded inv options database task then
        let result := { result with filesSkipped := result.filesSkipped + 1 }
        if (session.row key).isSome then
          (session.deleteFile key,
            { result with missingPaths := insert key result.missingPaths })
        else (session, result)
      else
        let fileTask := bobFileTask inv options database task (session.row key)
        let result :=
          { result with
            filesScanned := result.filesScanned + 1
            totalBytes := result.totalBytes + task.messageCount }
        if fileTask.change = .unchanged then
          (session,
            { result with
              filesSkipped := result.filesSkipped + 1
              unchangedIdentities := result.unchangedIdentities ++ [(key, fileTask.identity)] })
        else (session, { result with tasks := result.tasks ++ [fileTask] })

/-- Read one configured database. -/
def discoverBobDatabase (inv : Inventory) (options : IngestOptions)
    (state : CheckpointSession × BobDiscovery) (database : String) :
    CheckpointSession × BobDiscovery :=
  let (session, result) := state
  match inspectBobDatabase inv options database with
  | .absent skipped =>
      (session, { result with filesSkipped := result.filesSkipped + skipped })
  | .notAFile => (session, result)
  | .unreadable reported =>
      (session,
        { result with
          filesSkipped := result.filesSkipped + if reported then 1 else 0
          unreadableSources := result.unreadableSources ++ if reported then [database] else []
          unreadableDatabases := result.unreadableDatabases ++ [database] })
  | .readable tasks =>
      let keys := tasks.map fun task => inv.bobVirtualPath database task.id
      tasks.foldl (fun state task => discoverBobTask inv options database task state)
        (session.preload keys .targeted false, result)

/-- The databases whose tasks are all dropped in this pass. -/
def bobAbsent (inv : Inventory) (options : IngestOptions) (databases : List String) :
    List String :=
  databases.filter fun database =>
    match inspectBobDatabase inv options database with
    | .absent _ => true
    | _ => false

def bobReadable (inv : Inventory) (options : IngestOptions) (databases : List String) :
    List String :=
  databases.filter fun database =>
    match inspectBobDatabase inv options database with
    | .readable _ => true
    | _ => false

/-- The virtual paths of one database, when it can be read. -/
def bobKeys (inv : Inventory) (options : IngestOptions) (database : String) : List String :=
  match inspectBobDatabase inv options database with
  | .readable tasks => tasks.map fun task => inv.bobVirtualPath database task.id
  | _ => []

/-- Whether a tracked key belongs to an absent database, or to a readable one
that lists no such task. -/
def bobVanished (inv : Inventory) (options : IngestOptions) (databases : List String)
    (key : String) : Bool :=
  match inv.bobOwner key with
  | none => false
  | some owner =>
      owner ∈ bobAbsent inv options databases ||
        (owner ∈ bobReadable inv options databases &&
          key ∉ databases.flatMap (bobKeys inv options))

/-- The configured databases, or the selected ones. -/
def bobDatabasesToRead (inv : Inventory) (selected : Option (List SourceFile)) : List String :=
  match selected with
  | some files => files.map SourceFile.path
  | none => inv.bobDatabases

/-- The closing pass over the tracked keys, which the generic sweep for missing
files does not cover. -/
def dropVanishedBobTasks (inv : Inventory) (options : IngestOptions) (databases : List String)
    (session : CheckpointSession) (result : BobDiscovery) : CheckpointSession × BobDiscovery :=
  if bobReadable inv options databases = [] ∧ bobAbsent inv options databases = [] then
    (session, result)
  else
    let vanished := session.fileKeys.filter fun key => bobVanished inv options databases key = true
    (session.deleteFiles vanished, { result with missingPaths := result.missingPaths ∪ vanished })

/-- Bob tasks of the configured databases, or of the selected ones. -/
def discoverBob (inv : Inventory) (options : IngestOptions) (session : CheckpointSession)
    (selected : Option (List SourceFile)) : CheckpointSession × BobDiscovery :=
  if options.includeBob then
    let databases := bobDatabasesToRead inv selected
    let read := databases.foldl (discoverBobDatabase inv options) (session, {})
    dropVanishedBobTasks inv options databases read.1 read.2
  else (session, {})

section Base

variable (inv : Inventory) (options : IngestOptions)

theorem discoverBobTask_sameBase (database : String) (task : BobTask)
    (state : CheckpointSession × BobDiscovery) :
    SameBase state.1 (discoverBobTask inv options database task state).1 := by
  obtain ⟨session, result⟩ := state
  unfold discoverBobTask
  dsimp only
  split
  · split
    · exact SameBase.deleteFile session _
    · exact SameBase.refl session
  · split <;> exact SameBase.refl session

theorem discoverBobDatabase_sameBase (state : CheckpointSession × BobDiscovery)
    (database : String) : SameBase state.1 (discoverBobDatabase inv options state database).1 := by
  obtain ⟨session, result⟩ := state
  unfold discoverBobDatabase
  dsimp only
  cases inspectBobDatabase inv options database with
  | absent skipped => exact SameBase.refl session
  | unreadable reported => exact SameBase.refl session
  | notAFile => exact SameBase.refl session
  | readable tasks =>
      have hfold (state : CheckpointSession × BobDiscovery) : SameBase state.1
          (tasks.foldl (fun state task => discoverBobTask inv options database task state)
            state).1 := by
        induction tasks generalizing state with
        | nil => exact SameBase.refl state.1
        | cons task rest ih =>
            exact (discoverBobTask_sameBase inv options database task state).trans (ih _)
      exact (SameBase.preload session _ .targeted false).trans (hfold (_, result))

theorem discoverBob_sameBase (session : CheckpointSession) (selected : Option (List SourceFile)) :
    SameBase session (discoverBob inv options session selected).1 := by
  have hfold (databases : List String) (state : CheckpointSession × BobDiscovery) :
      SameBase state.1 (databases.foldl (discoverBobDatabase inv options) state).1 := by
    induction databases generalizing state with
    | nil => exact SameBase.refl state.1
    | cons database rest ih =>
        exact (discoverBobDatabase_sameBase inv options state database).trans (ih _)
  unfold discoverBob
  split
  · refine (hfold (bobDatabasesToRead inv selected) (session, {})).trans ?_
    dsimp only [dropVanishedBobTasks]
    split
    · exact SameBase.refl _
    · exact SameBase.deleteFiles _ _
  · exact SameBase.refl session

/-- Each dropped path had a row and is reported as missing. -/
def DropsMissing (state state' : CheckpointSession × BobDiscovery) : Prop :=
  ∃ removed, Drops state.1 state'.1 removed ∧ removed ⊆ state.1.rows.keys ∧
    state'.2.missingPaths = state.2.missingPaths ∪ removed

variable {inv options}

theorem DropsMissing.of_drops {state state' : CheckpointSession × BobDiscovery}
    (h : Drops state.1 state'.1 ∅) (hmissing : state'.2.missingPaths = state.2.missingPaths) :
    DropsMissing state state' :=
  ⟨∅, h, Finset.empty_subset _, by rw [hmissing, Finset.union_empty]⟩

theorem DropsMissing.trans {state state' state'' : CheckpointSession × BobDiscovery}
    (h : DropsMissing state state') (h' : DropsMissing state' state'') :
    DropsMissing state state'' := by
  obtain ⟨removed, hdrops, hsubset, hmissing⟩ := h
  obtain ⟨removed', hdrops', hsubset', hmissing'⟩ := h'
  refine ⟨removed ∪ removed', hdrops.trans hdrops', ?_, ?_⟩
  · rw [hdrops.keys] at hsubset'
    exact Finset.union_subset hsubset (hsubset'.trans Finset.sdiff_subset)
  · rw [hmissing', hmissing, Finset.union_assoc]

theorem DropsMissing.coherent {state state' : CheckpointSession × BobDiscovery}
    (h : DropsMissing state state') : state'.1.Coherent := by
  obtain ⟨removed, hdrops, -⟩ := h
  exact hdrops.coherent

theorem discoverBobTask_drops (inv : Inventory) (options : IngestOptions) (database : String)
    (task : BobTask) {state : CheckpointSession × BobDiscovery} (h : state.1.Coherent) :
    DropsMissing state (discoverBobTask inv options database task state) := by
  obtain ⟨session, result⟩ := state
  have hrefl : Drops session session ∅ := Drops.refl h
  unfold discoverBobTask
  dsimp only
  split
  · split
    · rename_i hrow
      refine ⟨_, Drops.deleteFile h _, ?_, by rw [Finset.insert_eq, Finset.union_comm]⟩
      exact Finset.singleton_subset_iff.mpr (h.mem_rows_of_row hrow)
    · exact .of_drops hrefl rfl
  · split
    · exact .of_drops hrefl rfl
    · exact .of_drops hrefl rfl

theorem discoverBobDatabase_drops {state : CheckpointSession × BobDiscovery}
    (h : state.1.Coherent) (database : String) :
    DropsMissing state (discoverBobDatabase inv options state database) := by
  obtain ⟨session, result⟩ := state
  have hrefl : Drops session session ∅ := Drops.refl h
  unfold discoverBobDatabase
  dsimp only
  cases inspectBobDatabase inv options database with
  | absent skipped => exact .of_drops hrefl rfl
  | unreadable reported => exact .of_drops hrefl rfl
  | notAFile => exact .of_drops hrefl rfl
  | readable tasks =>
      have hpreload := (Drops.preload h
        (tasks.map fun task => inv.bobVirtualPath database task.id) .targeted).1
      have hstart : DropsMissing (session, result)
          (session.preload (tasks.map fun task => inv.bobVirtualPath database task.id)
            .targeted false, result) := .of_drops hpreload rfl
      have hfold (tasks : List BobTask) (state : CheckpointSession × BobDiscovery)
          (hstate : state.1.Coherent) :
          DropsMissing state
            (tasks.foldl (fun state task => discoverBobTask inv options database task state)
              state) := by
        induction tasks generalizing state with
        | nil => exact .of_drops (Drops.refl hstate) rfl
        | cons task rest ih =>
            have hstep : DropsMissing state (discoverBobTask inv options database task state) :=
              discoverBobTask_drops inv options database task hstate
            exact hstep.trans (ih _ hstep.coherent)
      exact hstart.trans (hfold tasks _ hstart.coherent)

/-- Bob discovery drops exactly the rows it reports as missing. -/
theorem discoverBob_drops (inv : Inventory) (options : IngestOptions)
    {session : CheckpointSession} (h : session.Coherent)
    (selected : Option (List SourceFile)) :
    Drops session (discoverBob inv options session selected).1
        (discoverBob inv options session selected).2.missingPaths ∧
      (discoverBob inv options session selected).2.missingPaths ⊆ session.rows.keys := by
  have hfold (databases : List String) (state : CheckpointSession × BobDiscovery)
      (hstate : state.1.Coherent) :
      DropsMissing state (databases.foldl (discoverBobDatabase inv options) state) := by
    induction databases generalizing state with
    | nil => exact .of_drops (Drops.refl hstate) rfl
    | cons database rest ih =>
        have hstep : DropsMissing state (discoverBobDatabase inv options state database) :=
          discoverBobDatabase_drops hstate database
        exact hstep.trans (ih _ hstep.coherent)
  unfold discoverBob
  split
  · obtain ⟨removed, hdrops, hsubset, hmissing⟩ :=
      hfold (bobDatabasesToRead inv selected) (session, {}) h
    have hread : (bobDatabasesToRead inv selected |>.foldl (discoverBobDatabase inv options)
        (session, {})).2.missingPaths = removed := by
      rw [hmissing]
      exact Finset.empty_union removed
    dsimp only [dropVanishedBobTasks]
    split
    · rw [hread]
      exact ⟨hdrops, hsubset⟩
    · rw [hread]
      refine ⟨hdrops.trans (Drops.deleteFiles hdrops.coherent _), Finset.union_subset hsubset ?_⟩
      refine (Finset.filter_subset _ _).trans ?_
      rw [hdrops.coherent.fileKeys_eq, hdrops.keys]
      exact Finset.sdiff_subset
  · exact ⟨Drops.refl h, Finset.empty_subset _⟩

end Base

section Gone

variable (inv : Inventory) (options : IngestOptions)

/-- The tasks of one database that can be read. -/
def readableTasks (database : String) : List (String × BobTask) :=
  match inspectBobDatabase inv options database with
  | .readable tasks => tasks.map fun task => (database, task)
  | _ => []

def BobListed (entries : List (String × BobTask)) (path : String)
    (property : String → BobTask → Prop) : Prop :=
  ∃ entry ∈ entries, inv.bobVirtualPath entry.1 entry.2.id = path ∧ property entry.1 entry.2

/-- One of the listed tasks at the path is excluded. -/
def BobExcluded (entries : List (String × BobTask)) (path : String) : Prop :=
  BobListed inv entries path fun database task => bobTaskExcluded inv options database task = true

/-- One of the listed tasks at the path is read again from scratch, for the row
it has. -/
def BobReplaced (entries : List (String × BobTask)) (path : String) (row : Option FileState) :
    Prop :=
  BobListed inv entries path fun database task =>
    bobTaskExcluded inv options database task = false ∧
      (bobFileTask inv options database task row).deleteFirst = true

/-- A tracked task that Bob discovery drops: it is excluded, or it vanished
from the databases that were read. -/
def BobGone (databases : List String) (path : String) : Prop :=
  BobExcluded inv options (databases.flatMap (readableTasks inv options)) path ∨
    bobVanished inv options databases path = true

theorem bobListed_append {entries others : List (String × BobTask)} {path : String}
    {property : String → BobTask → Prop} :
    BobListed inv (entries ++ others) path property ↔
      BobListed inv entries path property ∨ BobListed inv others path property := by
  unfold BobListed
  constructor
  · rintro ⟨entry, hentry, hproperty⟩
    rcases List.mem_append.mp hentry with hentry | hentry
    · exact .inl ⟨entry, hentry, hproperty⟩
    · exact .inr ⟨entry, hentry, hproperty⟩
  · rintro (⟨entry, hentry, hproperty⟩ | ⟨entry, hentry, hproperty⟩)
    · exact ⟨entry, List.mem_append_left _ hentry, hproperty⟩
    · exact ⟨entry, List.mem_append_right _ hentry, hproperty⟩

/-- Where Bob discovery is after reading some listed tasks, starting from a
session with the given rows. -/
structure BobProgress (rows : Table String FileState) (entries : List (String × BobTask))
    (state : CheckpointSession × BobDiscovery) : Prop where
  coherent : state.1.Coherent
  lookup : ∀ path, state.1.rows.lookup path =
    if path ∈ state.2.missingPaths then none else rows.lookup path
  missing : ∀ path, path ∈ state.2.missingPaths ↔
    path ∈ rows.keys ∧ BobExcluded inv options entries path
  replaced : ∀ path, path ∈ deleteFirstPaths state.2.tasks →
    BobReplaced inv options entries path (rows.lookup path)
  covered : ∀ path, BobReplaced inv options entries path (rows.lookup path) →
    path ∈ state.2.missingPaths ∨ path ∈ deleteFirstPaths state.2.tasks

variable {inv options} {rows : Table String FileState}
  {entries : List (String × BobTask)} {state : CheckpointSession × BobDiscovery}

theorem bobFileTask_new {database : String} {task : BobTask} :
    (bobFileTask inv options database task none).deleteFirst = false := rfl

theorem BobProgress.task (h : BobProgress inv options rows entries state) (database : String)
    (task : BobTask)
    (hloaded : inv.bobVirtualPath database task.id ∈ state.1.loaded.keys) :
    BobProgress inv options rows (entries ++ [(database, task)])
      (discoverBobTask inv options database task state) := by
  obtain ⟨session, result⟩ := state
  set key := inv.bobVirtualPath database task.id with hkey
  have hrow : session.row key = if key ∈ result.missingPaths then none else rows.lookup key := by
    rw [h.coherent.row_eq hloaded]
    exact h.lookup key
  have hsingle (path : String) (property : String → BobTask → Prop) :
      BobListed inv [(database, task)] path property ↔ key = path ∧ property database task := by
    unfold BobListed
    simp only [List.mem_singleton, exists_eq_left]
    rfl
  have hexcluded (path : String) : BobExcluded inv options (entries ++ [(database, task)]) path ↔
      BobExcluded inv options entries path ∨
        (key = path ∧ bobTaskExcluded inv options database task = true) := by
    unfold BobExcluded
    rw [bobListed_append, hsingle]
  have hreplaced (path : String) (row : Option FileState) :
      BobReplaced inv options (entries ++ [(database, task)]) path row ↔
        BobReplaced inv options entries path row ∨
          (key = path ∧ bobTaskExcluded inv options database task = false ∧
            (bobFileTask inv options database task row).deleteFirst = true) := by
    unfold BobReplaced
    rw [bobListed_append, hsingle]
  unfold discoverBobTask
  dsimp only
  rw [← hkey]
  by_cases hcase : bobTaskExcluded inv options database task = true
  · rw [if_pos hcase]
    have hcovered (path : String)
        (hpath : BobReplaced inv options (entries ++ [(database, task)]) path (rows.lookup path)) :
        path ∈ result.missingPaths ∨ path ∈ deleteFirstPaths result.tasks := by
      rcases (hreplaced path _).mp hpath with hpath | ⟨-, hnot, -⟩
      · exact h.covered path hpath
      · rw [hcase] at hnot
        cases hnot
    by_cases hsome : (session.row key).isSome = true
    · rw [if_pos hsome]
      have htracked : key ∈ rows.keys := by
        rw [hrow] at hsome
        rw [Finmap.mem_keys, ← Finmap.lookup_isSome]
        split at hsome
        · cases hsome
        · exact hsome
      have hdrops := Drops.deleteFile h.coherent key
      refine ⟨hdrops.coherent, fun path => ?_, fun path => ?_, fun path hpath => ?_,
        fun path hpath => ?_⟩
      · have hlookup := h.lookup path
        dsimp only at hlookup ⊢
        rw [hdrops.rows, lookup_eraseAll, hlookup]
        by_cases hpath : path = key
        · simp [hpath]
        · simp [hpath]
      · rw [Finset.mem_insert, h.missing path, hexcluded]
        constructor
        · rintro (rfl | ⟨hpath, hlisted⟩)
          · exact ⟨htracked, .inr ⟨rfl, hcase⟩⟩
          · exact ⟨hpath, .inl hlisted⟩
        · rintro ⟨hpath, hlisted | ⟨rfl, -⟩⟩
          · exact .inr ⟨hpath, hlisted⟩
          · exact .inl rfl
      · exact (hreplaced path _).mpr (.inl (h.replaced path hpath))
      · rcases hcovered path hpath with hpath | hpath
        · exact .inl (Finset.mem_insert_of_mem hpath)
        · exact .inr hpath
    · rw [if_neg hsome]
      refine ⟨h.coherent, h.lookup, fun path => ?_, fun path hpath => ?_, hcovered⟩
      · rw [hexcluded]
        refine (h.missing path).trans (and_congr_right fun hpath => ?_)
        refine ⟨.inl, fun hlisted => ?_⟩
        rcases hlisted with hlisted | ⟨rfl, -⟩
        · exact hlisted
        · rw [hrow] at hsome
          by_cases hmissing : key ∈ result.missingPaths
          · exact ((h.missing key).mp hmissing).2
          · rw [if_neg hmissing, Finmap.lookup_isSome, ← Finmap.mem_keys] at hsome
            exact absurd hpath hsome
      · exact (hreplaced path _).mpr (.inl (h.replaced path hpath))
  · rw [if_neg hcase]
    have hfalse : bobTaskExcluded inv options database task = false := Bool.eq_false_iff.mpr hcase
    have hmissing (path : String) : path ∈ result.missingPaths ↔
        path ∈ rows.keys ∧ BobExcluded inv options (entries ++ [(database, task)]) path := by
      rw [hexcluded]
      refine (h.missing path).trans (and_congr_right fun _ => ⟨.inl, fun hlisted => ?_⟩)
      rcases hlisted with hlisted | ⟨-, hnot⟩
      · exact hlisted
      · exact absurd hnot hcase
    have hsame (hkey : key ∉ result.missingPaths) : session.row key = rows.lookup key := by
      rw [hrow, if_neg hkey]
    split
    · rename_i hunchanged
      refine ⟨h.coherent, h.lookup, hmissing, fun path hpath => ?_, fun path hpath => ?_⟩
      · exact (hreplaced path _).mpr (.inl (h.replaced path hpath))
      · rcases (hreplaced path _).mp hpath with hpath | ⟨rfl, -, hfirst⟩
        · exact h.covered path hpath
        · by_cases hkey : key ∈ result.missingPaths
          · exact .inl hkey
          · rw [← hsame hkey, FileTask.deleteFirst, hunchanged] at hfirst
            cases hfirst
    · refine ⟨h.coherent, h.lookup, hmissing, fun path hpath => ?_, fun path hpath => ?_⟩
      · rw [deleteFirstPaths_append] at hpath
        rcases Finset.mem_union.mp hpath with hpath | hpath
        · exact (hreplaced path _).mpr (.inl (h.replaced path hpath))
        · obtain ⟨fileTask, hfileTask, hfirst, rfl⟩ := mem_deleteFirstPaths.mp hpath
          rw [List.mem_singleton] at hfileTask
          subst hfileTask
          refine (hreplaced _ _).mpr (.inr ⟨rfl, hfalse, ?_⟩)
          by_cases hkey : key ∈ result.missingPaths
          · rw [hrow, if_pos hkey, bobFileTask_new] at hfirst
            cases hfirst
          · rw [hsame hkey] at hfirst
            exact hfirst
      · rw [deleteFirstPaths_append]
        rcases (hreplaced path _).mp hpath with hpath | ⟨rfl, -, hfirst⟩
        · rcases h.covered path hpath with hpath | hpath
          · exact .inl hpath
          · exact .inr (Finset.mem_union_left _ hpath)
        · by_cases hkey : key ∈ result.missingPaths
          · exact .inl hkey
          · refine .inr (Finset.mem_union_right _ (mem_deleteFirstPaths.mpr
              ⟨_, List.mem_singleton_self _, ?_, rfl⟩))
            rw [hsame hkey]
            exact hfirst

/-- The answers of a whole database. -/
theorem BobProgress.database (h : BobProgress inv options rows entries state) (database : String) :
    BobProgress inv options rows (entries ++ readableTasks inv options database)
      (discoverBobDatabase inv options state database) := by
  obtain ⟨session, result⟩ := state
  unfold discoverBobDatabase readableTasks
  dsimp only
  cases inspectBobDatabase inv options database with
  | absent skipped =>
      rw [List.append_nil]
      exact ⟨h.coherent, h.lookup, h.missing, h.replaced, h.covered⟩
  | unreadable reported =>
      rw [List.append_nil]
      exact ⟨h.coherent, h.lookup, h.missing, h.replaced, h.covered⟩
  | notAFile =>
      rw [List.append_nil]
      exact ⟨h.coherent, h.lookup, h.missing, h.replaced, h.covered⟩
  | readable tasks =>
      dsimp only
      obtain ⟨hpreload, hloaded⟩ := Drops.preload h.coherent
        (tasks.map fun task => inv.bobVirtualPath database task.id) .targeted
      have hstart : BobProgress inv options rows entries
          (session.preload (tasks.map fun task => inv.bobVirtualPath database task.id)
            .targeted false, result) := by
        refine ⟨hpreload.coherent, fun path => ?_, h.missing, h.replaced, h.covered⟩
        dsimp only
        rw [hpreload.rows, eraseAll_empty]
        exact h.lookup path
      have hfold (tasks : List BobTask) (entries : List (String × BobTask))
          (state : CheckpointSession × BobDiscovery)
          (hstate : BobProgress inv options rows entries state)
          (hloaded : ∀ task ∈ tasks, inv.bobVirtualPath database task.id ∈ state.1.loaded.keys) :
          BobProgress inv options rows (entries ++ tasks.map fun task => (database, task))
            (tasks.foldl (fun state task => discoverBobTask inv options database task state)
              state) := by
        induction tasks generalizing entries state with
        | nil => simpa using hstate
        | cons task rest ih =>
            have hstep := hstate.task database task (hloaded task List.mem_cons_self)
            obtain ⟨removed, hdrops, -⟩ :=
              discoverBobTask_drops inv options database task hstate.coherent
            have hrest := ih (entries ++ [(database, task)]) _ hstep fun other hother =>
              hdrops.loaded (hloaded other (List.mem_cons_of_mem _ hother))
            rw [List.append_assoc] at hrest
            exact hrest
      refine hfold tasks entries _ hstart fun task htask => ?_
      exact hloaded _ (List.mem_map_of_mem htask)

/-- Bob discovery drops the tracked tasks that are gone, and replaces the listed
ones that changed, by the rows the session stands for. -/
theorem discoverBob_closed {session : CheckpointSession} (hsession : session.Coherent)
    (selected : Option (List SourceFile)) (hinclude : options.includeBob = true) :
    let databases := bobDatabasesToRead inv selected
    let found := (discoverBob inv options session selected).2
    (∀ path, path ∈ found.missingPaths ↔
        path ∈ session.rows.keys ∧ BobGone inv options databases path) ∧
      (∀ path, path ∈ deleteFirstPaths found.tasks →
        BobReplaced inv options (databases.flatMap (readableTasks inv options)) path
          (session.rows.lookup path)) ∧
      ∀ path, BobReplaced inv options (databases.flatMap (readableTasks inv options)) path
          (session.rows.lookup path) →
        path ∈ found.missingPaths ∨ path ∈ deleteFirstPaths found.tasks := by
  intro databases found
  have hstart : BobProgress inv options session.rows [] (session, {}) := by
    refine ⟨hsession, fun path => by simp, fun path => ?_, fun path hpath => ?_,
      fun path hpath => ?_⟩
    · simp [BobExcluded, BobListed]
    · simp [deleteFirstPaths] at hpath
    · obtain ⟨entry, hentry, -⟩ := hpath
      exact absurd hentry List.not_mem_nil
  have hfold (databases : List String) (entries : List (String × BobTask))
      (state : CheckpointSession × BobDiscovery)
      (hstate : BobProgress inv options session.rows entries state) :
      BobProgress inv options session.rows
        (entries ++ databases.flatMap (readableTasks inv options))
        (databases.foldl (discoverBobDatabase inv options) state) := by
    induction databases generalizing entries state with
    | nil => simpa using hstate
    | cons database rest ih =>
        have hrest := ih _ _ (hstate.database database)
        rw [List.append_assoc] at hrest
        exact hrest
  have hread := hfold databases [] (session, {}) hstart
  rw [List.nil_append] at hread
  have hvanish (path : String) (hvanished : bobVanished inv options databases path = true) :
      ¬ (bobReadable inv options databases = [] ∧ bobAbsent inv options databases = []) := by
    rintro ⟨hreadable, habsent⟩
    unfold bobVanished at hvanished
    rw [hreadable, habsent] at hvanished
    split at hvanished <;> simp at hvanished
  have hfound : found = (dropVanishedBobTasks inv options databases
      (databases.foldl (discoverBobDatabase inv options) (session, {})).1
      (databases.foldl (discoverBobDatabase inv options) (session, {})).2).2 := by
    unfold found discoverBob
    rw [if_pos hinclude]
  have htasks : found.tasks =
      (databases.foldl (discoverBobDatabase inv options) (session, {})).2.tasks := by
    rw [hfound]
    dsimp only [dropVanishedBobTasks]
    split <;> rfl
  have hkeys (path : String) :
      path ∈ (databases.foldl (discoverBobDatabase inv options) (session, {})).1.fileKeys ↔
        path ∈ session.rows.keys ∧
          path ∉
            (databases.foldl (discoverBobDatabase inv options) (session, {})).2.missingPaths := by
    rw [hread.coherent.fileKeys_eq, Finmap.mem_keys, ← Finmap.lookup_isSome, hread.lookup,
      Finmap.mem_keys, ← Finmap.lookup_isSome]
    split <;> simp_all
  have hmissing (path : String) : path ∈ found.missingPaths ↔
      path ∈ session.rows.keys ∧ BobGone inv options databases path := by
    have hexcluded := hread.missing path
    have htracked := hkeys path
    rw [hfound]
    dsimp only [dropVanishedBobTasks]
    unfold BobGone
    split
    · rename_i hnone
      have hnot : ¬ bobVanished inv options databases path = true := fun h => hvanish path h hnone
      rw [hexcluded, or_iff_left hnot]
    · dsimp only
      rw [Finset.mem_union, Finset.mem_filter, htracked, hexcluded]
      by_cases hrow : path ∈ session.rows.keys <;>
        by_cases hlisted : BobExcluded inv options
          (databases.flatMap (readableTasks inv options)) path <;>
        simp [hrow, hlisted]
  refine ⟨hmissing, fun path hpath => ?_, fun path hpath => ?_⟩
  · rw [htasks] at hpath
    exact hread.replaced path hpath
  · rw [htasks]
    rcases hread.covered path hpath with hpath | hpath
    · obtain ⟨hrow, hlisted⟩ := (hread.missing path).mp hpath
      exact .inl ((hmissing path).mpr ⟨hrow, .inl hlisted⟩)
    · exact .inr hpath

end Gone

end Memex.Ingest
