import Mathlib.Algebra.Order.Ring.Int
import Mathlib.Data.Int.ConditionallyCompleteOrder
import Mathlib.Data.List.Destutter
import Mathlib.Data.List.Sort
import Mathlib.Data.String.Basic
import Mathlib.Order.Lattice.Nat
import Memex.Ingest.SessionRows
import Memex.Ingest.Inventory

/-! # Transcript discovery

`discover_transcripts` and `prepare_file_task` of `ingest/discovery.rs`: every
transcript handed over by enumeration, or by a narrowed selection, is compared
with its checkpoint row and becomes a task unless it is unchanged. A stat error
aborts the refresh. -/

namespace Memex.Ingest

open Overlay State

def fileIdentityPrefixBytes : Nat := 4096

def i64Max : Int := 2 ^ 63 - 1

def i64Min : Int := -2 ^ 63

def saturate (value : Int) : Int :=
  max i64Min (min i64Max value)

def modifiedNs (metadata : Metadata) : Option Int :=
  metadata.modified.map fun nanos => min (nanos : Int) i64Max

def changedNs (metadata : Metadata) : Option Int :=
  if metadata.ctimeNsec ≠ 0 then
    some (saturate (saturate (metadata.ctime * 1000000000) + metadata.ctimeNsec))
  else none

/-- Metadata that still identifies the file of the row, so that its prefix
need not be read again. -/
def unchangedFileMetadata (previous : FileState) (metadata : Metadata) (parserVersion : Nat) :
    Bool :=
  previous.size = metadata.len && previous.parserVersion = parserVersion &&
    previous.identity.device = some metadata.device &&
    previous.identity.inode = some metadata.inode &&
    previous.identity.modifiedNs.isSome &&
    previous.identity.modifiedNs = modifiedNs metadata &&
    previous.identity.changedNs.isSome &&
    previous.identity.changedNs = changedNs metadata

def fileIdentity (inv : Inventory) (path : String) (metadata : Metadata) (prefixBytes : Nat) :
    FileIdentity where
  prefixSha256 := if metadata.isFile then inv.prefixSha256 path prefixBytes else none
  prefixBytes := prefixBytes
  device := some metadata.device
  inode := some metadata.inode
  modifiedNs := modifiedNs metadata
  changedNs := changedNs metadata

/-- The file-level background marker of a Claude transcript, and whether its
late discovery asks for a full reparse. -/
structure ClaudeBackground where
  background : Option Bool := none
  reparse : Bool := false
  deriving DecidableEq

def resolveClaudeBackground (inv : Inventory) (path : String) (source : SourceKind) (size : Nat)
    (previous : Option FileState) (change : FileChange) : ClaudeBackground :=
  if source ≠ .claude then {}
  -- a replacement must rediscover the marker from the new contents
  else if change.replacesRecords then {}
  else
    let offset := (previous.map FileState.offset).getD 0
    match previous.bind FileState.claudeBackground with
    | some true => { background := some true }
    | some false =>
        if offset < size then
          match inv.hasBackgroundSessionKindSince path offset size with
          | some false => { background := some false }
          | _ => { background := none, reparse := true }
        else { background := some false }
    | none =>
        match previous with
        | none => {}
        | some row =>
            let background := inv.hasBackgroundSessionKindSince path 0 size
            { background, reparse := background = some true && 0 < row.offset }

/-- The task of one file, and whether the file can be skipped as unchanged. -/
def prepareFileTask (inv : Inventory) (path : String) (source : SourceKind)
    (includeReasoning : Bool) (metadata : Metadata) (previous : Option FileState) :
    FileTask × Bool :=
  let size := metadata.len
  let mtime : Int := ((metadata.modified.map fun nanos => nanos / 1000000000).getD 0 : Nat)
  let prefixBytes := min size <| match previous with
    | some row =>
        if 0 < row.identity.prefixBytes then row.identity.prefixBytes
        else min row.size fileIdentityPrefixBytes
    | none => min size fileIdentityPrefixBytes
  let parserVersion := inv.indexVersion source includeReasoning
  let observed := match previous with
    | some row =>
        if unchangedFileMetadata row metadata parserVersion then row.identity
        else fileIdentity inv path metadata prefixBytes
    | none => fileIdentity inv path metadata prefixBytes
  let identity :=
    if source = .antigravity && inv.isAntigravityDb path then
      { observed with sqliteWal := some (inv.sqliteWal path) }
    else observed
  let classified := classifyFile source size mtime identity parserVersion previous
  let claude := resolveClaudeBackground inv path source size previous classified
  let change := if claude.reparse then .replaced else classified
  let resumed := match classified, previous with
    | .append, some row => if claude.reparse then none else some row
    | .unchanged, some row => if claude.reparse then none else some row
    | _, _ => none
  let offset := (resumed.map FileState.offset).getD 0
  ({ path, source, offset, size, mtime, change, identity, parserVersion
     turnId := (resumed.map FileState.turnId).getD 0
     pendingToolCalls := (resumed.map FileState.pendingToolCalls).getD ∅
     legacyTurnId :=
       if (source = .claude || source = .codex) && offset = 0 then some 0
       else previous.bind FileState.legacyTurnId
     codexMetadataOffsets :=
       if source = .codex && 0 < offset && !change.replacesRecords then
         previous.bind FileState.codexMetadataOffsets
       else none
     claudeBackground := claude.background },
   change = .unchanged)

/-- The first projection of a conversation that exists as a file; `none` when a
stat call fails. -/
def winningProjection (inv : Inventory) : List String → Option (Option String)
  | [] => some none
  | candidate :: rest =>
      match inv.stat candidate with
      | .found metadata =>
          if metadata.isFile then some (some candidate) else winningProjection inv rest
      | .notFound => winningProjection inv rest
      | .error => none

/-- An Antigravity hint stands for the projection that owns its conversation;
the other projections are superseded. -/
def resolveProjection (inv : Inventory) (excluder : PathExcluder) (file : SourceFile) :
    Option (SourceFile × List String) :=
  if file.source ≠ .antigravity then some (file, [])
  else
    match inv.projectionSessionId file.path with
    | none => some (file, [])
    | some session =>
        let projections := inv.projectionPaths session
        (winningProjection inv projections).map fun
          | some winner =>
              ({ file with path := winner },
                if excluder.isExcluded winner then [] else projections.filter (· ≠ winner))
          | none => (file, [])

/-- Order the files by path and drop adjacent repetitions. -/
def sortFiles (files : List SourceFile) : List SourceFile :=
  (files.insertionSort fun left right => pathLe left.path right.path).destutter (· ≠ ·)

inductive Observed where
  | excluded
  | missing (sessionId : Option String)
  | file (task : FileTask) (skip : Bool) (sessionId : Option String)

def observe (inv : Inventory) (options : IngestOptions) (session : CheckpointSession)
    (file : SourceFile) : Option Observed :=
  if options.excluder.isExcluded file.path then some .excluded
  else
    let sessionId :=
      if file.source = .codex && !inv.isHistoryPath file.path then
        inv.sessionIdFromPath file.path
      else none
    match inv.stat file.path with
    | .error => none
    | .notFound => some (.missing sessionId)
    | .found metadata =>
        let (task, skip) := prepareFileTask inv file.path file.source options.includeReasoning
          metadata (session.row file.path)
        some (.file task skip sessionId)

structure TranscriptDiscovery where
  tasks : List FileTask
  unchangedIdentities : List (String × FileIdentity)
  filesScanned : Nat
  filesSkipped : Nat
  totalBytes : Nat
  sessionIds : Finset String
  supersededProjections : Finset String

def Observed.task? : Observed → Option FileTask
  | .file task false _ => some task
  | _ => none

def Observed.unchanged? : Observed → Option (String × FileIdentity)
  | .file task true _ => some (task.path, task.identity)
  | _ => none

def Observed.sessionId? : Observed → Option String
  | .excluded => none
  | .missing sessionId => sessionId
  | .file _ _ sessionId => sessionId

def Observed.bytes : Observed → Nat
  | .file task _ _ => task.size
  | _ => 0

def Observed.scanned : Observed → Bool
  | .file _ _ _ => true
  | _ => false

def Observed.skipped : Observed → Bool
  | .file _ skip _ => skip
  | _ => true

/-- Sessions already known to own Codex history lines in a narrowed batch. -/
def codexSessionIds (inv : Inventory) (session : CheckpointSession) (files : List SourceFile) :
    Finset String :=
  let hinted := (files.filter fun file => file.source = .codex).map SourceFile.path
  let tracked := session.fileKeys ∪ hinted.toFinset
  (tracked.filter fun path => ¬ inv.isHistoryPath path = true).biUnion fun path =>
    (inv.rolloutSessionId path).toFinset

def discoverTranscripts (inv : Inventory) (options : IngestOptions) (session : CheckpointSession)
    (selected : Option (List SourceFile)) : Option (CheckpointSession × TranscriptDiscovery) := do
  let resolved ← (selected.getD inv.transcripts).mapM (resolveProjection inv options.excluder)
  let files := sortFiles (resolved.map Prod.fst)
  let preloaded := session.preload
    ((files.filter fun file => !options.excluder.isExcluded file.path).map SourceFile.path)
    (if selected.isNone then .bulk else .targeted) false
  let historySessions := match selected with
    | some chosen =>
        if files.any fun file => file.source = .codex && inv.isHistoryPath file.path then
          codexSessionIds inv preloaded chosen
        else ∅
    | none => ∅
  let observations ← files.mapM (observe inv options preloaded)
  some (preloaded,
    { tasks := observations.filterMap Observed.task?
      unchangedIdentities := observations.filterMap Observed.unchanged?
      filesScanned := observations.countP Observed.scanned
      filesSkipped := observations.countP Observed.skipped
      totalBytes := (observations.map Observed.bytes).sum
      sessionIds := historySessions ∪ (observations.filterMap Observed.sessionId?).toFinset
      supersededProjections := (resolved.flatMap Prod.snd).toFinset })

/-- The session that `discoverTranscripts` compares files with. -/
def preloadTranscripts (options : IngestOptions) (session : CheckpointSession)
    (selected : Option (List SourceFile)) (files : List SourceFile) : CheckpointSession :=
  session.preload
    ((files.filter fun file => !options.excluder.isExcluded file.path).map SourceFile.path)
    (if selected.isNone then .bulk else .targeted) false

section Answers

variable {α β : Type} {answer : α → Option β}

/-- Each result of a traversal that did not abort answers one of its inputs. -/
theorem exists_of_mem_mapM {inputs : List α} {results : List β}
    (h : inputs.mapM answer = some results) {result : β} (hmem : result ∈ results) :
    ∃ input ∈ inputs, answer input = some result := by
  induction inputs generalizing results with
  | nil =>
      cases h
      exact absurd hmem List.not_mem_nil
  | cons input rest ih =>
      simp only [List.mapM_cons, Option.pure_def, Option.bind_eq_bind, Option.bind_eq_some_iff,
        Option.some.injEq] at h
      obtain ⟨first, hfirst, others, hothers, rfl⟩ := h
      rcases List.mem_cons.mp hmem with rfl | hmem
      · exact ⟨input, List.mem_cons_self, hfirst⟩
      · obtain ⟨found, hfound, hanswer⟩ := ih hothers hmem
        exact ⟨found, List.mem_cons_of_mem _ hfound, hanswer⟩

/-- Each input of a traversal that did not abort has a result. -/
theorem exists_result_of_mem {inputs : List α} {results : List β}
    (h : inputs.mapM answer = some results) {input : α} (hmem : input ∈ inputs) :
    ∃ result ∈ results, answer input = some result := by
  induction inputs generalizing results with
  | nil => exact absurd hmem List.not_mem_nil
  | cons first rest ih =>
      simp only [List.mapM_cons, Option.pure_def, Option.bind_eq_bind, Option.bind_eq_some_iff,
        Option.some.injEq] at h
      obtain ⟨head, hhead, others, hothers, rfl⟩ := h
      rcases List.mem_cons.mp hmem with rfl | hmem
      · exact ⟨head, List.mem_cons_self, hhead⟩
      · obtain ⟨result, hresult, hanswer⟩ := ih hothers hmem
        exact ⟨result, List.mem_cons_of_mem _ hresult, hanswer⟩

end Answers

/-- What observing one file can show. -/
theorem observe_eq_some {inv : Inventory} {options : IngestOptions} {session : CheckpointSession}
    {file : SourceFile} {observed : Observed}
    (h : observe inv options session file = some observed) :
    (options.excluder.isExcluded file.path = true ∧ observed = .excluded) ∨
      (options.excluder.isExcluded file.path = false ∧ inv.stat file.path = .notFound ∧
        ∃ sessionId, observed = .missing sessionId) ∨
      (options.excluder.isExcluded file.path = false ∧
        ∃ metadata sessionId, inv.stat file.path = .found metadata ∧
          observed = .file
            (prepareFileTask inv file.path file.source options.includeReasoning metadata
              (session.row file.path)).1
            (prepareFileTask inv file.path file.source options.includeReasoning metadata
              (session.row file.path)).2 sessionId) := by
  unfold observe at h
  cases hexcluded : options.excluder.isExcluded file.path with
  | true =>
      rw [if_pos hexcluded] at h
      exact .inl ⟨rfl, (Option.some.inj h).symm⟩
  | false =>
      rw [if_neg (by simp [hexcluded])] at h
      dsimp only at h
      cases hstat : inv.stat file.path with
      | error =>
          rw [hstat] at h
          cases h
      | notFound =>
          rw [hstat] at h
          exact .inr (.inl ⟨rfl, rfl, _, (Option.some.inj h).symm⟩)
      | found metadata =>
          rw [hstat] at h
          exact .inr (.inr ⟨rfl, metadata, _, rfl, (Option.some.inj h).symm⟩)

theorem Observed.task?_eq_some {observed : Observed} {task : FileTask}
    (h : observed.task? = some task) : ∃ sessionId, observed = .file task false sessionId := by
  unfold Observed.task? at h
  split at h
  · cases h
    exact ⟨_, rfl⟩
  · cases h

/-- A task was observed at the path of a file and is not unchanged. -/
theorem observe_task {inv : Inventory} {options : IngestOptions} {session : CheckpointSession}
    {file : SourceFile} {observed : Observed} {task : FileTask}
    (h : observe inv options session file = some observed) (htask : observed.task? = some task) :
    options.excluder.isExcluded file.path = false ∧
      ∃ metadata, inv.stat file.path = .found metadata ∧
        prepareFileTask inv file.path file.source options.includeReasoning metadata
          (session.row file.path) = (task, false) := by
  obtain ⟨sessionId, rfl⟩ := Observed.task?_eq_some htask
  rcases observe_eq_some h with ⟨-, heq⟩ | ⟨-, -, _, heq⟩ |
    ⟨hexcluded, metadata, _, hstat, heq⟩
  · cases heq
  · cases heq
  · injection heq with htask hskip
    exact ⟨hexcluded, metadata, hstat, Prod.ext htask.symm hskip.symm⟩

theorem prepareFileTask_path (inv : Inventory) (path : String) (source : SourceKind)
    (includeReasoning : Bool) (metadata : Metadata) (previous : Option FileState) :
    (prepareFileTask inv path source includeReasoning metadata previous).1.path = path := rfl

theorem mem_sortFiles_of_mem {files : List SourceFile} {file : SourceFile}
    (h : file ∈ sortFiles files) : file ∈ files :=
  List.mem_insertionSort _ |>.mp ((List.destutter_sublist _ _).subset h)

/-- What a transcript discovery that did not abort has done. -/
theorem discoverTranscripts_eq_some {inv : Inventory} {options : IngestOptions}
    {session state : CheckpointSession} {selected : Option (List SourceFile)}
    {found : TranscriptDiscovery}
    (h : discoverTranscripts inv options session selected = some (state, found)) :
    ∃ resolved observations,
      (selected.getD inv.transcripts).mapM (resolveProjection inv options.excluder) =
        some resolved ∧
      state = preloadTranscripts options session selected (sortFiles (resolved.map Prod.fst)) ∧
      (sortFiles (resolved.map Prod.fst)).mapM (observe inv options state) = some observations ∧
      found.tasks = observations.filterMap Observed.task? ∧
      found.unchangedIdentities = observations.filterMap Observed.unchanged? ∧
      found.supersededProjections = (resolved.flatMap Prod.snd).toFinset := by
  unfold discoverTranscripts at h
  simp only [Option.bind_eq_bind, Option.bind_eq_some_iff, Option.some.injEq,
    Prod.mk.injEq] at h
  obtain ⟨resolved, hresolved, observations, hobservations, hstate, hfound⟩ := h
  subst hstate hfound
  exact ⟨resolved, observations, hresolved, rfl, hobservations, rfl, rfl, rfl⟩

theorem discoverTranscripts_sameBase {inv : Inventory} {options : IngestOptions}
    {session state : CheckpointSession} {selected : Option (List SourceFile)}
    {found : TranscriptDiscovery}
    (h : discoverTranscripts inv options session selected = some (state, found)) :
    SameBase session state := by
  obtain ⟨resolved, -, -, hstate, -⟩ := discoverTranscripts_eq_some h
  rw [hstate]
  exact SameBase.preload _ _ _ _

/-- A listed transcript whose records are deleted before it is read again, for
the row it has. -/
def TranscriptReplaced (inv : Inventory) (options : IngestOptions) (files : List SourceFile)
    (path : String) (row : Option FileState) : Prop :=
  ∃ file ∈ files, file.path = path ∧ options.excluder.isExcluded path = false ∧
    ∃ metadata, inv.stat path = .found metadata ∧
      (prepareFileTask inv path file.source options.includeReasoning metadata row).1.deleteFirst =
        true

theorem prepareFileTask_skip {inv : Inventory} {path : String} {source : SourceKind}
    {includeReasoning : Bool} {metadata : Metadata} {row : Option FileState}
    (h : (prepareFileTask inv path source includeReasoning metadata row).1.deleteFirst = true) :
    (prepareFileTask inv path source includeReasoning metadata row).2 = false := by
  have hskip : (prepareFileTask inv path source includeReasoning metadata row).2 = decide
      ((prepareFileTask inv path source includeReasoning metadata row).1.change = .unchanged) := rfl
  rw [hskip, decide_eq_false_iff_not]
  intro hunchanged
  rw [FileTask.deleteFirst, hunchanged] at h
  cases h

/-- A file without a row replaces nothing. -/
theorem prepareFileTask_new {inv : Inventory} {path : String} {source : SourceKind}
    {includeReasoning : Bool} {metadata : Metadata} :
    (prepareFileTask inv path source includeReasoning metadata none).1.deleteFirst = false := by
  have hchange : (prepareFileTask inv path source includeReasoning metadata none).1.change =
      .new := by
    have hclassified (size : Nat) (mtime : Int) (identity : FileIdentity) (version : Nat) :
        classifyFile source size mtime identity version none = .new := rfl
    have hclaude (size : Nat) : resolveClaudeBackground inv path source size none .new = {} := by
      unfold resolveClaudeBackground
      split <;> rfl
    simp only [prepareFileTask, hclassified, hclaude]
    rfl
  rw [FileTask.deleteFirst, hchange]
  rfl

/-- The transcripts that are replaced, by the rows the session stands for. -/
theorem discoverTranscripts_deleteFirst {inv : Inventory} {options : IngestOptions}
    {session state : CheckpointSession} {selected : Option (List SourceFile)}
    {found : TranscriptDiscovery} (hsession : session.Coherent)
    (h : discoverTranscripts inv options session selected = some (state, found)) :
    ∃ resolved,
      (selected.getD inv.transcripts).mapM (resolveProjection inv options.excluder) =
          some resolved ∧
        found.supersededProjections = (resolved.flatMap Prod.snd).toFinset ∧
        ∀ path, path ∈ deleteFirstPaths found.tasks ↔
          TranscriptReplaced inv options (sortFiles (resolved.map Prod.fst)) path
            (session.rows.lookup path) := by
  obtain ⟨resolved, observations, hresolved, hstate, hobservations, htasks, -, hsuperseded⟩ :=
    discoverTranscripts_eq_some h
  refine ⟨resolved, hresolved, hsuperseded, fun path => ?_⟩
  have hpreload := Drops.preload hsession
    (((sortFiles (resolved.map Prod.fst)).filter fun file =>
      !options.excluder.isExcluded file.path).map SourceFile.path)
    (if selected.isNone then .bulk else .targeted)
  have hrow (file : SourceFile) (hfile : file ∈ sortFiles (resolved.map Prod.fst))
      (hexcluded : options.excluder.isExcluded file.path = false) :
      state.row file.path = session.rows.lookup file.path := by
    have hloaded := hpreload.2 file.path
      (List.mem_map_of_mem (List.mem_filter.mpr ⟨hfile, by simp [hexcluded]⟩))
    rw [hstate, preloadTranscripts, hpreload.1.coherent.row_eq hloaded, hpreload.1.rows,
      eraseAll_empty]
  rw [mem_deleteFirstPaths, htasks]
  constructor
  · rintro ⟨task, htask, hfirst, rfl⟩
    obtain ⟨observed, hobserved, htask⟩ := List.mem_filterMap.mp htask
    obtain ⟨file, hfile, hanswer⟩ := exists_of_mem_mapM hobservations hobserved
    obtain ⟨hexcluded, metadata, hstat, hprepared⟩ := observe_task hanswer htask
    have hpath : task.path = file.path := by
      rw [← prepareFileTask_path inv file.path file.source options.includeReasoning metadata
        (state.row file.path), hprepared]
    rw [hrow file hfile hexcluded] at hprepared
    rw [hpath]
    exact ⟨file, hfile, rfl, hexcluded, metadata, hstat, by rw [hprepared]; exact hfirst⟩
  · rintro ⟨file, hfile, rfl, hexcluded, metadata, hstat, hfirst⟩
    obtain ⟨observed, hobserved, hanswer⟩ := exists_result_of_mem hobservations hfile
    have hskip := prepareFileTask_skip hfirst
    rcases observe_eq_some hanswer
      with ⟨hother, -⟩ | ⟨-, hother, -⟩ | ⟨-, metadata', _, hstat', heq⟩
    · rw [hexcluded] at hother
      cases hother
    · rw [hstat] at hother
      cases hother
    · rw [hstat] at hstat'
      cases hstat'
      rw [hrow file hfile hexcluded, hskip] at heq
      exact ⟨_, List.mem_filterMap.mpr ⟨observed, hobserved, by rw [heq]; rfl⟩, hfirst, rfl⟩

/-- Transcript discovery drops no row and has loaded the rows it compares. -/
theorem discoverTranscripts_drops {inv : Inventory} {options : IngestOptions}
    {session state : CheckpointSession} {selected : Option (List SourceFile)}
    {found : TranscriptDiscovery} (hsession : session.Coherent)
    (h : discoverTranscripts inv options session selected = some (state, found)) :
    Drops session state ∅ := by
  obtain ⟨resolved, -, -, hstate, -⟩ := discoverTranscripts_eq_some h
  rw [hstate]
  exact (Drops.preload hsession _ _).1

end Memex.Ingest
