import Mathlib.Data.Finset.Max
import Memex.Ingest.Discovery.Bob
import Memex.Ingest.DocIds

/-! # OpenCode discovery

`discover_opencode` of `ingest/discovery.rs`: scans and hydrates the databases,
decides which database owns each session, and derives from that the scopes and
databases to delete, the scopes of an interrupted refresh that stay deferred,
and the legacy JSON sessions that remain in use. -/

namespace Memex.Ingest

open Overlay State

/-- A database whose changed sessions have been read into its spool. -/
structure PreparedOpencodeDatabase where
  path : String
  scan : DatabaseScan
  spool : List Record
  deriving DecidableEq

structure OpencodeDiscovery where
  readyDatabases : List PreparedOpencodeDatabase := []
  readyOwnedSessions : Table String (Finset String) := ∅
  scopeTargets : Finset SessionScope := ∅
  databaseStates : Table String OpencodeDatabaseState := ∅
  databasePathsToDelete : Finset String := ∅
  databaseOutcomes : Table String OpencodeDatabaseOutcome := ∅
  legacyPathsToDelete : Finset String := ∅
  tasks : List FileTask := []
  unchangedIdentities : List (String × FileIdentity) := []
  filesScanned : Nat := 0
  filesSkipped : Nat := 0
  totalBytes : Nat := 0
  deferredPendingScopes : Finset SessionScope := ∅

/-- A narrowed discovery may fail, or find that it needs the full inventory. -/
inductive OpencodeStep (α : Type) where
  | aborted
  | escalated
  | done (value : α)

def OpencodeStep.bind {α β : Type} : OpencodeStep α → (α → OpencodeStep β) → OpencodeStep β
  | aborted, _ => aborted
  | escalated, _ => escalated
  | done value, next => next value

/-- What scanning one database showed. -/
inductive OpencodeInspection where
  | excluded
  /-- Unusable, with its size when the stat call itself succeeded. -/
  | failed (bytes : Option Nat)
  | planned (bytes : Nat) (scan : DatabaseScan)
  deriving DecidableEq

def OpencodeInspection.bytes : OpencodeInspection → Option Nat
  | excluded => none
  | failed bytes => bytes
  | planned bytes _ => some bytes

def OpencodeInspection.scan : OpencodeInspection → Option DatabaseScan
  | planned _ scan => some scan
  | _ => none

def OpencodeInspection.hasFailed : OpencodeInspection → Bool
  | failed _ => true
  | _ => false

def opencodeStateVersion : Nat := 4

/-- Stat and scan one database. Only a full scan tolerates a failure; a
narrowed one escalates when the database vanished or its set of sessions is
not the owned one. -/
def inspectOpencodeDatabase (inv : Inventory) (options : IngestOptions) (fullScan : Bool)
    (states : Table String OpencodeDatabaseState) (path : String) :
    OpencodeStep OpencodeInspection :=
  if options.excluder.isExcluded path then .done .excluded
  else
    let store := inv.opencodeStore path
    let previous := states.lookup path
    match store.stat with
    | .error => if fullScan then .done (.failed none) else .aborted
    | .notFound => if fullScan then .done (.failed none) else .escalated
    | .found metadata =>
        match store.scan previous with
        | none => if fullScan then .done (.failed (some metadata.len)) else .aborted
        | some scan =>
            let sessions := (scan.sessions.map OpencodeSession.id).toFinset
            let owned := previous.any fun state => state.ownedSessionIds = sessions
            if !fullScan && !owned then .escalated else .done (.planned metadata.len scan)

/-- Inspect the databases in order; the first failure or escalation ends a
narrowed discovery. -/
def inspectOpencodeDatabases (inv : Inventory) (options : IngestOptions) (fullScan : Bool)
    (states : Table String OpencodeDatabaseState) :
    List String → OpencodeStep (List (String × OpencodeInspection))
  | [] => .done []
  | path :: rest =>
      (inspectOpencodeDatabase inv options fullScan states path).bind fun inspection =>
        (inspectOpencodeDatabases inv options fullScan states rest).bind fun others =>
          .done ((path, inspection) :: others)

/-- The sessions to read: the changed ones and those of the interrupted
refresh. -/
def hydrationSessionIds (pending : Option PendingIngest) (path : String) (scan : DatabaseScan) :
    Finset String :=
  match pending with
  | none => scan.dirtySessionIds
  | some pending =>
      scan.dirtySessionIds ∪
        (pending.sessionScopes.filter fun scope => scope.sourcePath = path).image
          SessionScope.sessionId

/-- Hydrate the planned databases in path order, drawing ids as records are
read, also for a database that then fails. -/
def hydrateDatabases (inv : Inventory) (fullScan : Bool) (pending : Option PendingIngest) :
    Nat → List (String × DatabaseScan) →
      OpencodeStep (Nat × List PreparedOpencodeDatabase × List String)
  | next, [] => .done (next, [], [])
  | next, (path, scan) :: rest =>
      let hydration := (inv.opencodeStore path).hydrate scan (hydrationSessionIds pending path scan)
      let after := next + hydration.records.length
      if hydration.complete then
        (hydrateDatabases inv fullScan pending after rest).bind fun (last, ready, failed) =>
          .done (last, { path, scan, spool := drawIds next hydration.records } :: ready, failed)
      else if fullScan then
        (hydrateDatabases inv fullScan pending after rest).bind fun (last, ready, failed) =>
          .done (last, ready, path :: failed)
      else .aborted

/-- The databases of one discovery after scanning and hydration. -/
structure OpencodeScan where
  fullScan : Bool
  inspections : List (String × OpencodeInspection)
  ready : List PreparedOpencodeDatabase
  unhydrated : List String

/-- Scan the databases, then hydrate the planned ones in path order. The
second component counts the ids drawn. -/
def scanOpencodeDatabases (inv : Inventory) (options : IngestOptions) (fullScan : Bool)
    (states : Table String OpencodeDatabaseState) (pending : Option PendingIngest) (next : Nat)
    (databases : List String) : OpencodeStep (OpencodeScan × Nat) :=
  (inspectOpencodeDatabases inv options fullScan states databases).bind fun inspections =>
    let planned := (inspections.filterMap fun entry =>
      entry.2.scan.map fun scan => (entry.1, scan)).insertionSort
        fun left right => pathLe left.1 right.1
    (hydrateDatabases inv fullScan pending next planned).bind fun (next, ready, unhydrated) =>
      .done ({ fullScan, inspections, ready, unhydrated }, next)

/-- The sessions a stored database state owns. -/
def ownedSessionIds (states : Table String OpencodeDatabaseState) (path : String) :
    Finset String :=
  ((states.lookup path).map OpencodeDatabaseState.ownedSessionIds).getD ∅

/-- The first path in order, if there is one. -/
def leastPath (paths : Finset String) : Option String :=
  if h : paths.Nonempty then some (paths.min' h) else none

namespace OpencodeScan

variable (scan : OpencodeScan)

/-- The databases that are not excluded. -/
def discovered : List String :=
  (scan.inspections.filter fun entry => entry.2 ≠ .excluded).map Prod.fst

/-- Outcomes after hydration: planned databases became ready or failed, and
failures of a full scan are recorded. -/
def outcomes : Table String OpencodeDatabaseOutcome :=
  let failed := (scan.inspections.filter fun entry => entry.2.hasFailed).map Prod.fst
  insertAll (fun _ => .failed) scan.unhydrated
    (insertAll (fun _ => .ready) (scan.ready.map PreparedOpencodeDatabase.path)
      (insertAll (fun _ => .failed) failed ∅))

/-- The state a database is in for this refresh. -/
def outcome (path : String) : OpencodeDatabaseOutcome :=
  classifyOpencodeDatabaseOutcome (scan.outcomes.lookup path) (path ∈ scan.discovered)
    scan.fullScan

/-- The database that owns a session. Databases that failed keep what they
owned, the first path first; the rest goes to the first ready database that
lists the session. -/
def owner (states : Table String OpencodeDatabaseState) (session : String) : Option String :=
  let failed := states.keys.filter fun path =>
    scan.outcome path = .failed ∧ session ∈ ownedSessionIds states path
  (leastPath failed).or
    ((scan.ready.find? fun database =>
      session ∈ database.scan.sessions.map OpencodeSession.id).map PreparedOpencodeDatabase.path)

/-- Scopes whose records are deleted: sessions a ready database lost to
another, sessions it replays, and every scope of the interrupted refresh whose
database is ready. -/
def scopeTargets (states : Table String OpencodeDatabaseState)
    (pending : Option PendingIngest) : Finset SessionScope :=
  let lost := (states.keys.filter fun path => scan.outcome path = .ready).biUnion fun path =>
    ((ownedSessionIds states path).filter fun session =>
      scan.owner states session ≠ some path).image (SessionScope.mk path)
  let replayed := (scan.ready.map fun database =>
    (database.scan.dirtySessionIds.filter fun session =>
      scan.owner states session = some database.path).image
        (SessionScope.mk database.path)).foldr (· ∪ ·) ∅
  let recovered := match pending with
    | none => ∅
    | some pending => pending.sessionScopes.filter fun scope =>
        scan.outcomes.lookup scope.sourcePath = some .ready
  lost ∪ replayed ∪ recovered

/-- The scopes of the interrupted refresh that have to wait for their
database. -/
def deferredScopes (pending : Option PendingIngest) : Finset SessionScope :=
  match pending with
  | none => ∅
  | some pending => pending.sessionScopes.filter fun scope =>
      scan.outcome scope.sourcePath = .failed

/-- Stored databases that are known to be gone. -/
def pathsToDelete (states : Table String OpencodeDatabaseState) : Finset String :=
  states.keys.filter fun path => scan.outcome path = .confirmedAbsent

end OpencodeScan

/-- The sessions of a ready database that it owns. -/
def readyOwned (owner : String → Option String) (database : PreparedOpencodeDatabase) :
    Finset String :=
  ((database.scan.sessions.map OpencodeSession.id).filter fun session =>
    owner session = some database.path).toFinset

/-- The state installed for a ready database once the refresh commits. -/
def readyState (owner : String → Option String) (database : PreparedOpencodeDatabase) :
    OpencodeDatabaseState where
  parserVersion := opencodeStateVersion
  eventRowid := database.scan.eventRowid
  eventId := database.scan.eventId
  ownedSessionIds := readyOwned owner database
  sessionCursors := database.scan.sessionCursors

/-- A table with one row for each ready database. -/
def readyTable {α : Type} (row : PreparedOpencodeDatabase → α)
    (ready : List PreparedOpencodeDatabase) : Table String α :=
  ready.foldl (fun table database => table.insert database.path (row database)) ∅

/-- A healthy v2 database owns its root's history, and any database owns the
sessions it lists; frozen JSON must not bring them back. -/
def databaseOwnsLegacy (inv : Inventory) (ready : List PreparedOpencodeDatabase)
    (owner : String → Option String) (path : String) : Bool :=
  let v2Roots := (ready.filter fun database => database.scan.v2).filterMap fun database =>
    inv.databaseRoot database.path
  (inv.legacyRoot path).any (fun root => root ∈ v2Roots) ||
    (inv.legacySessionName path).any fun session => (owner session).isSome

/-- Read one legacy session: delete it when a database owns it, else prepare
it like a transcript. -/
def discoverLegacySession (inv : Inventory) (options : IngestOptions) (ownsLegacy : String → Bool)
    (cleanup : Finset String) (state : CheckpointSession × OpencodeDiscovery) (path : String) :
    Option (CheckpointSession × OpencodeDiscovery) :=
  let (session, result) := state
  let skipped := { result with filesSkipped := result.filesSkipped + 1 }
  if options.excluder.isExcluded path then some (session, skipped)
  else if ownsLegacy path then
    if session.containsFile path || path ∈ cleanup then
      some (session.deleteFile path,
        { skipped with legacyPathsToDelete := insert path result.legacyPathsToDelete })
    else some (session, skipped)
  else
    match inv.stat path with
    | .error => none
    | .notFound => some (session, skipped)
    | .found metadata =>
        let (task, skip) := prepareFileTask inv path .opencode options.includeReasoning metadata
          (session.row path)
        let scanned :=
          { result with
            filesScanned := result.filesScanned + 1
            totalBytes := result.totalBytes + metadata.len }
        if skip then
          some (session,
            { scanned with
              filesSkipped := scanned.filesSkipped + 1
              unchangedIdentities := scanned.unchangedIdentities ++ [(path, task.identity)] })
        else some (session, { scanned with tasks := scanned.tasks ++ [task] })

/-- The findings about the databases alone. -/
def databaseFindings (scan : OpencodeScan) (states : Table String OpencodeDatabaseState)
    (pending : Option PendingIngest) : OpencodeDiscovery :=
  let owner := scan.owner states
  let sizes := scan.inspections.filterMap fun entry => entry.2.bytes
  { readyDatabases := scan.ready
    readyOwnedSessions := readyTable (readyOwned owner) scan.ready
    scopeTargets := scan.scopeTargets states pending
    databaseStates := readyTable (readyState owner) scan.ready
    databasePathsToDelete := scan.pathsToDelete states
    databaseOutcomes := scan.outcomes
    filesScanned := sizes.length
    totalBytes := sizes.sum
    filesSkipped := scan.unhydrated.length +
      scan.inspections.countP fun entry => entry.2.scan.isNone
    deferredPendingScopes := scan.deferredScopes pending }

/-- Add the legacy JSON sessions, which only a full scan looks at. -/
def settleLegacy (inv : Inventory) (options : IngestOptions) (session : CheckpointSession)
    (scan : OpencodeScan) (pending : Option PendingIngest) (indexed : Finset String) :
    Option (CheckpointSession × OpencodeDiscovery) :=
  let states := session.opencodeDatabases
  let ownsLegacy := databaseOwnsLegacy inv scan.ready (scan.owner states)
  let legacy := if scan.fullScan then inv.opencodeSessions else []
  let candidates := (legacy.filter fun path =>
    !options.excluder.isExcluded path && ownsLegacy path).toFinset
  let cleanup := candidates ∩ (indexed ∪ inv.analyticsPaths)
  let session := session.preload
    (legacy.filter fun path => !options.excluder.isExcluded path && !ownsLegacy path)
    (if scan.fullScan then .bulk else .targeted) false
  legacy.foldlM (discoverLegacySession inv options ownsLegacy cleanup)
    (session, databaseFindings scan states pending)

/-- Full or narrowed discovery of OpenCode. `indexed` holds the source paths
with records in the index and `next` is the number of ids drawn. -/
def discoverOpencode (inv : Inventory) (options : IngestOptions) (session : CheckpointSession)
    (selected : Option (List SourceFile)) (pending : Option PendingIngest)
    (indexed : Finset String) (next : Nat) :
    OpencodeStep (CheckpointSession × OpencodeDiscovery × Nat) :=
  if !options.includeOpencode || selected.any List.isEmpty then
    .done (session,
      { deferredPendingScopes := (pending.map PendingIngest.sessionScopes).getD ∅ }, next)
  else
    let databases := (selected.map fun files => files.map SourceFile.path).getD
      inv.opencodeDatabases
    (scanOpencodeDatabases inv options selected.isNone session.opencodeDatabases pending next
      databases).bind fun (scan, next) =>
        match settleLegacy inv options session scan pending indexed with
        | none => .aborted
        | some (session, result) => .done (session, result, next)

section Results

variable {inv : Inventory} {options : IngestOptions}

theorem OpencodeStep.bind_eq_done {α β : Type} {step : OpencodeStep α}
    {next : α → OpencodeStep β} {result : β} (h : step.bind next = .done result) :
    ∃ value, step = .done value ∧ next value = .done result := by
  cases step with
  | aborted => cases h
  | escalated => cases h
  | done value => exact ⟨value, rfl, h⟩

theorem OpencodeStep.bind_eq_escalated {α β : Type} {step : OpencodeStep α}
    {next : α → OpencodeStep β} (h : step.bind next = .escalated) :
    step = .escalated ∨ ∃ value, step = .done value ∧ next value = .escalated := by
  cases step with
  | aborted => cases h
  | escalated => exact .inl rfl
  | done value => exact .inr ⟨value, rfl, h⟩

/-- What a finished discovery of OpenCode has done. -/
theorem discoverOpencode_eq_done {session state : CheckpointSession}
    {selected : Option (List SourceFile)} {pending : Option PendingIngest}
    {indexed : Finset String} {next after : Nat} {found : OpencodeDiscovery}
    (h : discoverOpencode inv options session selected pending indexed next =
      .done (state, found, after)) :
    (state = session ∧ after = next ∧
        found = { deferredPendingScopes := (pending.map PendingIngest.sessionScopes).getD ∅ } ∧
        (options.includeOpencode = false ∨ selected = some [])) ∨
      options.includeOpencode = true ∧ ∃ scan,
        scanOpencodeDatabases inv options selected.isNone session.opencodeDatabases pending
          next ((selected.map fun files => files.map SourceFile.path).getD
            inv.opencodeDatabases) = .done (scan, after) ∧
        settleLegacy inv options session scan pending indexed = some (state, found) := by
  unfold discoverOpencode at h
  split at h
  · rename_i hidle
    obtain ⟨hstate, hfound, hafter⟩ : session = state ∧ _ = found ∧ next = after := by
      simpa only [OpencodeStep.done.injEq, Prod.mk.injEq] using h
    refine .inl ⟨hstate.symm, hafter.symm, hfound.symm, ?_⟩
    rcases Bool.or_eq_true _ _ ▸ hidle with hidle | hidle
    · exact .inl (by simpa using hidle)
    · cases selected with
      | none => simp at hidle
      | some files => exact .inr (by rw [List.isEmpty_iff.mp hidle])
  · rename_i hactive
    have hinclude : options.includeOpencode = true := by
      cases hcase : options.includeOpencode with
      | true => rfl
      | false => simp [hcase] at hactive
    obtain ⟨⟨scan, count⟩, hscan, h⟩ := OpencodeStep.bind_eq_done h
    refine .inr ⟨hinclude, scan, ?_⟩
    dsimp only at h
    cases hsettle : settleLegacy inv options session scan pending indexed with
    | none => rw [hsettle] at h; cases h
    | some settled =>
        rw [hsettle] at h
        obtain ⟨state', found'⟩ := settled
        simp only [OpencodeStep.done.injEq, Prod.mk.injEq] at h
        obtain ⟨rfl, rfl, rfl⟩ := h
        exact ⟨hscan, rfl⟩

/-- Hydration draws the ids of the spools one after the other. -/
theorem hydrateDatabases_idsWithin {fullScan : Bool} {pending : Option PendingIngest}
    {planned : List (String × DatabaseScan)} {next after : Nat}
    {ready : List PreparedOpencodeDatabase} {failed : List String}
    (h : hydrateDatabases inv fullScan pending next planned = .done (after, ready, failed)) :
    next ≤ after ∧
      (after ≤ docIdLimit →
        IdsWithin next after (ready.flatMap PreparedOpencodeDatabase.spool)) := by
  induction planned generalizing next ready failed with
  | nil =>
      cases h
      exact ⟨le_rfl, fun _ => IdsWithin.nil⟩
  | cons entry rest ih =>
      obtain ⟨path, scan⟩ := entry
      unfold hydrateDatabases at h
      dsimp only at h
      set hydration :=
        (inv.opencodeStore path).hydrate scan (hydrationSessionIds pending path scan)
      split at h
      · obtain ⟨⟨after', ready', failed'⟩, hrest, h⟩ := OpencodeStep.bind_eq_done h
        cases h
        obtain ⟨hle, hids⟩ := ih hrest
        refine ⟨by omega, fun hlimit => ?_⟩
        rw [List.flatMap_cons]
        have hdrawn : IdsWithin next (next + hydration.records.length)
            (drawIds next hydration.records) := IdsWithin.drawIds (by omega)
        exact hdrawn.append (hids hlimit) (by omega) hle
      · split at h
        · obtain ⟨⟨after', ready', failed'⟩, hrest, h⟩ := OpencodeStep.bind_eq_done h
          cases h
          obtain ⟨hle, hids⟩ := ih hrest
          exact ⟨by omega, fun hlimit => (hids hlimit).mono (by omega) le_rfl⟩
        · cases h

/-- The legacy sessions change nothing of what was found about databases. -/
structure SameDatabases (found other : OpencodeDiscovery) : Prop where
  readyDatabases : other.readyDatabases = found.readyDatabases
  readyOwnedSessions : other.readyOwnedSessions = found.readyOwnedSessions
  scopeTargets : other.scopeTargets = found.scopeTargets
  databaseStates : other.databaseStates = found.databaseStates
  databasePathsToDelete : other.databasePathsToDelete = found.databasePathsToDelete
  databaseOutcomes : other.databaseOutcomes = found.databaseOutcomes
  deferredPendingScopes : other.deferredPendingScopes = found.deferredPendingScopes

namespace SameDatabases

variable {found other third : OpencodeDiscovery}

theorem refl (found : OpencodeDiscovery) : SameDatabases found found :=
  ⟨rfl, rfl, rfl, rfl, rfl, rfl, rfl⟩

theorem trans (h : SameDatabases found other) (h' : SameDatabases other third) :
    SameDatabases found third :=
  ⟨h'.readyDatabases.trans h.readyDatabases, h'.readyOwnedSessions.trans h.readyOwnedSessions,
    h'.scopeTargets.trans h.scopeTargets, h'.databaseStates.trans h.databaseStates,
    h'.databasePathsToDelete.trans h.databasePathsToDelete,
    h'.databaseOutcomes.trans h.databaseOutcomes,
    h'.deferredPendingScopes.trans h.deferredPendingScopes⟩

end SameDatabases

theorem discoverLegacySession_frame {ownsLegacy : String → Bool} {cleanup : Finset String}
    {state state' : CheckpointSession × OpencodeDiscovery} {path : String}
    (h : discoverLegacySession inv options ownsLegacy cleanup state path = some state') :
    SameBase state.1 state'.1 ∧ SameDatabases state.2 state'.2 := by
  obtain ⟨session, result⟩ := state
  unfold discoverLegacySession at h
  dsimp only at h
  split at h
  · cases h; exact ⟨SameBase.refl session, ⟨rfl, rfl, rfl, rfl, rfl, rfl, rfl⟩⟩
  · split at h
    · split at h
      · cases h; exact ⟨SameBase.deleteFile session path, ⟨rfl, rfl, rfl, rfl, rfl, rfl, rfl⟩⟩
      · cases h; exact ⟨SameBase.refl session, ⟨rfl, rfl, rfl, rfl, rfl, rfl, rfl⟩⟩
    · split at h
      · cases h
      · cases h; exact ⟨SameBase.refl session, ⟨rfl, rfl, rfl, rfl, rfl, rfl, rfl⟩⟩
      · split at h <;>
          (cases h; exact ⟨SameBase.refl session, ⟨rfl, rfl, rfl, rfl, rfl, rfl, rfl⟩⟩)

theorem discoverLegacySession_drops {ownsLegacy : String → Bool} {cleanup : Finset String}
    {state state' : CheckpointSession × OpencodeDiscovery} {path : String}
    (hstate : state.1.Coherent)
    (h : discoverLegacySession inv options ownsLegacy cleanup state path = some state') :
    ∃ removed, Drops state.1 state'.1 removed ∧
      state'.2.legacyPathsToDelete = state.2.legacyPathsToDelete ∪ removed := by
  obtain ⟨session, result⟩ := state
  have hrefl : Drops session session ∅ := Drops.refl hstate
  unfold discoverLegacySession at h
  dsimp only at h
  split at h
  · cases h
    exact ⟨∅, hrefl, by simp⟩
  · split at h
    · split at h
      · cases h
        exact ⟨{path}, Drops.deleteFile hstate path, by rw [Finset.insert_eq, Finset.union_comm]⟩
      · cases h
        exact ⟨∅, hrefl, by simp⟩
    · split at h
      · cases h
      · cases h
        exact ⟨∅, hrefl, by simp⟩
      · split at h <;>
          (cases h; exact ⟨∅, hrefl, by simp⟩)

theorem settleLegacy_frame {session state : CheckpointSession} {scan : OpencodeScan}
    {pending : Option PendingIngest} {indexed : Finset String} {found : OpencodeDiscovery}
    (h : settleLegacy inv options session scan pending indexed = some (state, found)) :
    SameBase session state ∧
      SameDatabases (databaseFindings scan session.opencodeDatabases pending) found := by
  have hfold (ownsLegacy : String → Bool) (cleanup : Finset String) (paths : List String)
      (start : CheckpointSession × OpencodeDiscovery) (result)
      (hfold : paths.foldlM (discoverLegacySession inv options ownsLegacy cleanup) start =
        some result) : SameBase start.1 result.1 ∧ SameDatabases start.2 result.2 := by
    induction paths generalizing start with
    | nil =>
        cases hfold
        exact ⟨SameBase.refl _, SameDatabases.refl _⟩
    | cons path rest ih =>
        rw [List.foldlM_cons, Option.bind_eq_bind, Option.bind_eq_some_iff] at hfold
        obtain ⟨middle, hmiddle, hrest⟩ := hfold
        obtain ⟨hbase, hfound⟩ := discoverLegacySession_frame hmiddle
        obtain ⟨hbase', hfound'⟩ := ih middle hrest
        exact ⟨hbase.trans hbase', hfound.trans hfound'⟩
  obtain ⟨hbase, hfound⟩ := hfold _ _ _ _ _ h
  exact ⟨(SameBase.preload session _ _ _).trans hbase, hfound⟩

theorem discoverOpencode_sameBase {session state : CheckpointSession}
    {selected : Option (List SourceFile)} {pending : Option PendingIngest}
    {indexed : Finset String} {next after : Nat} {found : OpencodeDiscovery}
    (h : discoverOpencode inv options session selected pending indexed next =
      .done (state, found, after)) : SameBase session state := by
  rcases discoverOpencode_eq_done h with ⟨rfl, -⟩ | ⟨-, scan, -, hsettle⟩
  · exact SameBase.refl state
  · exact (settleLegacy_frame hsettle).1

theorem scanOpencodeDatabases_fullScan {fullScan : Bool}
    {states : Table String OpencodeDatabaseState} {pending : Option PendingIngest}
    {next after : Nat} {databases : List String} {scan : OpencodeScan}
    (h : scanOpencodeDatabases inv options fullScan states pending next databases =
      .done (scan, after)) : scan.fullScan = fullScan := by
  obtain ⟨inspections, -, h⟩ := OpencodeStep.bind_eq_done h
  obtain ⟨⟨count, ready, unhydrated⟩, -, h⟩ := OpencodeStep.bind_eq_done h
  cases h
  rfl

/-- Scanning draws ids only for the spools of the ready databases. -/
theorem scanOpencodeDatabases_idsWithin {fullScan : Bool}
    {states : Table String OpencodeDatabaseState} {pending : Option PendingIngest}
    {next after : Nat} {databases : List String} {scan : OpencodeScan}
    (h : scanOpencodeDatabases inv options fullScan states pending next databases =
      .done (scan, after)) :
    next ≤ after ∧ (after ≤ docIdLimit →
      IdsWithin next after (scan.ready.flatMap PreparedOpencodeDatabase.spool)) := by
  obtain ⟨inspections, -, h⟩ := OpencodeStep.bind_eq_done h
  obtain ⟨⟨count, ready, unhydrated⟩, hhydrate, h⟩ := OpencodeStep.bind_eq_done h
  cases h
  exact hydrateDatabases_idsWithin hhydrate

theorem discoverOpencode_idsWithin {session state : CheckpointSession}
    {selected : Option (List SourceFile)} {pending : Option PendingIngest}
    {indexed : Finset String} {next after : Nat} {found : OpencodeDiscovery}
    (h : discoverOpencode inv options session selected pending indexed next =
      .done (state, found, after)) :
    next ≤ after ∧ (after ≤ docIdLimit →
      IdsWithin next after (found.readyDatabases.flatMap PreparedOpencodeDatabase.spool)) := by
  rcases discoverOpencode_eq_done h with ⟨-, rfl, rfl, -⟩ | ⟨-, scan, hscan, hsettle⟩
  · exact ⟨le_rfl, fun _ => IdsWithin.nil⟩
  · rw [(settleLegacy_frame hsettle).2.readyDatabases]
    exact scanOpencodeDatabases_idsWithin hscan

/-- Legacy discovery drops exactly the rows it reports for deletion. -/
theorem settleLegacy_drops {session state : CheckpointSession} {scan : OpencodeScan}
    {pending : Option PendingIngest} {indexed : Finset String} {found : OpencodeDiscovery}
    (hsession : session.Coherent)
    (h : settleLegacy inv options session scan pending indexed = some (state, found)) :
    Drops session state found.legacyPathsToDelete := by
  have hfold (ownsLegacy : String → Bool) (cleanup : Finset String) (paths : List String)
      (start : CheckpointSession × OpencodeDiscovery) (hstart : start.1.Coherent) (result)
      (hfold : paths.foldlM (discoverLegacySession inv options ownsLegacy cleanup) start =
        some result) : ∃ removed, Drops start.1 result.1 removed ∧
          result.2.legacyPathsToDelete = start.2.legacyPathsToDelete ∪ removed := by
    induction paths generalizing start with
    | nil =>
        cases hfold
        exact ⟨∅, Drops.refl hstart, by simp⟩
    | cons path rest ih =>
        rw [List.foldlM_cons, Option.bind_eq_bind, Option.bind_eq_some_iff] at hfold
        obtain ⟨middle, hmiddle, hrest⟩ := hfold
        have hstep := discoverLegacySession_drops hstart hmiddle
        obtain ⟨removed, hdrops, hreported⟩ := hstep
        obtain ⟨removed', hdrops', hreported'⟩ := ih middle hdrops.coherent hrest
        refine ⟨removed ∪ removed', hdrops.trans hdrops', ?_⟩
        rw [hreported', hreported, Finset.union_assoc]
  have hpreload (paths : List String) (scope : FileLoadScope) :=
    (Drops.preload hsession paths scope).1
  obtain ⟨removed, hdrops, hreported⟩ := hfold _ _ _ _ (hpreload _ _).coherent _ h
  have hremoved : found.legacyPathsToDelete = removed := by
    rw [hreported]
    exact Finset.empty_union removed
  rw [hremoved, ← Finset.empty_union removed]
  exact (hpreload _ _).trans hdrops

theorem discoverOpencode_drops {session state : CheckpointSession}
    {selected : Option (List SourceFile)} {pending : Option PendingIngest}
    {indexed : Finset String} {next after : Nat} {found : OpencodeDiscovery}
    (hsession : session.Coherent)
    (h : discoverOpencode inv options session selected pending indexed next =
      .done (state, found, after)) : Drops session state found.legacyPathsToDelete := by
  rcases discoverOpencode_eq_done h with ⟨rfl, -, rfl, -⟩ | ⟨-, scan, -, hsettle⟩
  · exact Drops.refl hsession
  · exact settleLegacy_drops hsession hsettle

end Results

section Legacy

variable (inv : Inventory) (options : IngestOptions) (ownsLegacy : String → Bool)

/-- A listed legacy session that a database owns. -/
def LegacyOwned (legacy : List String) (path : String) : Prop :=
  path ∈ legacy ∧ options.excluder.isExcluded path = false ∧ ownsLegacy path = true

/-- A listed legacy session in use that is read again from scratch, for the row
it has. -/
def LegacyReplaced (legacy : List String) (path : String) (row : Option FileState) : Prop :=
  path ∈ legacy ∧ options.excluder.isExcluded path = false ∧ ownsLegacy path = false ∧
    ∃ metadata, inv.stat path = .found metadata ∧
      (prepareFileTask inv path .opencode options.includeReasoning metadata row).1.deleteFirst =
        true

/-- Where legacy discovery is after some listed sessions, starting from a
session with the given rows. -/
structure LegacyProgress (cleanup : Finset String) (rows : Table String FileState)
    (legacy : List String) (state : CheckpointSession × OpencodeDiscovery) : Prop where
  coherent : state.1.Coherent
  lookup : ∀ path, state.1.rows.lookup path =
    if path ∈ state.2.legacyPathsToDelete then none else rows.lookup path
  deleted : ∀ path, path ∈ state.2.legacyPathsToDelete ↔
    LegacyOwned options ownsLegacy legacy path ∧ (path ∈ rows.keys ∨ path ∈ cleanup)
  replaced : ∀ path, path ∈ deleteFirstPaths state.2.tasks ↔
    LegacyReplaced inv options ownsLegacy legacy path (rows.lookup path)

variable {inv options ownsLegacy} {cleanup : Finset String} {rows : Table String FileState}
  {legacy : List String}

theorem legacyOwned_append {path other : String} :
    LegacyOwned options ownsLegacy (legacy ++ [other]) path ↔
      LegacyOwned options ownsLegacy legacy path ∨
        (path = other ∧ options.excluder.isExcluded other = false ∧ ownsLegacy other = true) := by
  unfold LegacyOwned
  rw [List.mem_append, List.mem_singleton]
  constructor
  · rintro ⟨hlisted | rfl, hrest⟩
    · exact .inl ⟨hlisted, hrest⟩
    · exact .inr ⟨rfl, hrest⟩
  · rintro (⟨hlisted, hrest⟩ | ⟨rfl, hrest⟩)
    · exact ⟨.inl hlisted, hrest⟩
    · exact ⟨.inr rfl, hrest⟩

theorem legacyReplaced_append {path other : String} {row : Option FileState} :
    LegacyReplaced inv options ownsLegacy (legacy ++ [other]) path row ↔
      LegacyReplaced inv options ownsLegacy legacy path row ∨
        (path = other ∧ LegacyReplaced inv options ownsLegacy [other] other row) := by
  unfold LegacyReplaced
  rw [List.mem_append, List.mem_singleton, List.mem_singleton]
  constructor
  · rintro ⟨hlisted | rfl, hrest⟩
    · exact .inl ⟨hlisted, hrest⟩
    · exact .inr ⟨rfl, rfl, hrest⟩
  · rintro (⟨hlisted, hrest⟩ | ⟨rfl, -, hrest⟩)
    · exact ⟨.inl hlisted, hrest⟩
    · exact ⟨.inr rfl, hrest⟩

theorem LegacyProgress.session {state state' : CheckpointSession × OpencodeDiscovery}
    {path : String} (h : LegacyProgress inv options ownsLegacy cleanup rows legacy state)
    (hloaded : options.excluder.isExcluded path = false → ownsLegacy path = false →
      path ∈ state.1.loaded.keys)
    (hstep : discoverLegacySession inv options ownsLegacy cleanup state path = some state') :
    LegacyProgress inv options ownsLegacy cleanup rows (legacy ++ [path]) state' := by
  obtain ⟨session, result⟩ := state
  have hunowned (hcase : ¬ (options.excluder.isExcluded path = false ∧ ownsLegacy path = true))
      (other : String) : other ∈ result.legacyPathsToDelete ↔
        LegacyOwned options ownsLegacy (legacy ++ [path]) other ∧
          (other ∈ rows.keys ∨ other ∈ cleanup) := by
    rw [legacyOwned_append, h.deleted other]
    simp only [hcase, and_false, or_false]
  have hkept (hcase : ¬ LegacyReplaced inv options ownsLegacy [path] path (rows.lookup path))
      (other : String) : other ∈ deleteFirstPaths result.tasks ↔
        LegacyReplaced inv options ownsLegacy (legacy ++ [path]) other (rows.lookup other) := by
    rw [legacyReplaced_append, h.replaced other]
    refine ⟨.inl, fun hother => ?_⟩
    rcases hother with hother | ⟨rfl, hother⟩
    · exact hother
    · exact absurd hother hcase
  unfold discoverLegacySession at hstep
  dsimp only at hstep
  cases hexcluded : options.excluder.isExcluded path with
  | true =>
      rw [if_pos hexcluded] at hstep
      cases hstep
      refine ⟨h.coherent, h.lookup, hunowned (by simp [hexcluded]), hkept ?_⟩
      rintro ⟨-, hnot, -⟩
      rw [hexcluded] at hnot
      cases hnot
  | false =>
      rw [if_neg (by simp [hexcluded])] at hstep
      cases howns : ownsLegacy path with
      | true =>
          rw [if_pos howns] at hstep
          have hkept := hkept (by
            rintro ⟨-, -, hnot, -⟩
            rw [howns] at hnot
            cases hnot)
          have hcontains : session.containsFile path = true ↔
              path ∈ rows.keys ∧ path ∉ result.legacyPathsToDelete := by
            have hlookup := h.lookup path
            dsimp only at hlookup
            rw [h.coherent.containsFile_iff, Finmap.mem_keys, ← Finmap.lookup_isSome, hlookup,
              Finmap.mem_keys, ← Finmap.lookup_isSome]
            split <;> simp_all
          have hpath : path ∈ result.legacyPathsToDelete →
              path ∈ rows.keys ∨ path ∈ cleanup := fun hmem => ((h.deleted path).mp hmem).2
          split at hstep
          · rename_i hknown
            cases hstep
            have hdrops := Drops.deleteFile h.coherent path
            refine ⟨hdrops.coherent, fun other => ?_, fun other => ?_, hkept⟩
            · have hlookup := h.lookup other
              dsimp only at hlookup ⊢
              rw [hdrops.rows, lookup_eraseAll, hlookup]
              by_cases hother : other = path
              · simp [hother]
              · simp [hother]
            · rw [Finset.mem_insert, h.deleted other, legacyOwned_append]
              have htarget : path ∈ rows.keys ∨ path ∈ cleanup := by
                rcases Bool.or_eq_true _ _ ▸ hknown with hknown | hknown
                · exact .inl (hcontains.mp hknown).1
                · exact .inr (of_decide_eq_true hknown)
              constructor
              · rintro (rfl | ⟨hother, hrest⟩)
                · exact ⟨.inr ⟨rfl, hexcluded, howns⟩, htarget⟩
                · exact ⟨.inl hother, hrest⟩
              · rintro ⟨hother | ⟨rfl, -⟩, hrest⟩
                · exact .inr ⟨hother, hrest⟩
                · exact .inl rfl
          · rename_i hunknown
            cases hstep
            refine ⟨h.coherent, h.lookup, fun other => ?_, hkept⟩
            rw [legacyOwned_append]
            constructor
            · intro hother
              exact ⟨.inl ((h.deleted other).mp hother).1, ((h.deleted other).mp hother).2⟩
            · rintro ⟨hother | ⟨rfl, -⟩, hrest⟩
              · exact (h.deleted other).mpr ⟨hother, hrest⟩
              · by_contra hnot
                rcases hrest with hrest | hrest
                · exact hunknown (by simp [hcontains.mpr ⟨hrest, hnot⟩])
                · exact hunknown (by simp [hrest])
      | false =>
          rw [if_neg (by simp [howns])] at hstep
          have hunowned := hunowned (by simp [howns])
          have hrow : session.row path = rows.lookup path := by
            have hnot : path ∉ result.legacyPathsToDelete := by
              intro hmem
              have howned := ((h.deleted path).mp hmem).1.2.2
              rw [howns] at howned
              cases howned
            have hlookup := h.lookup path
            dsimp only at hlookup
            rw [h.coherent.row_eq (hloaded hexcluded howns), hlookup, if_neg hnot]
          have hreplaced (metadata : Metadata) (hstat : inv.stat path = .found metadata)
              (hpath : LegacyReplaced inv options ownsLegacy [path] path (rows.lookup path)) :
              (prepareFileTask inv path .opencode options.includeReasoning metadata
                (session.row path)).1.deleteFirst = true := by
            obtain ⟨-, -, -, metadata', hstat', hfirst⟩ := hpath
            rw [hstat] at hstat'
            cases hstat'
            rw [hrow]
            exact hfirst
          split at hstep
          · cases hstep
          · rename_i hstat
            cases hstep
            refine ⟨h.coherent, h.lookup, hunowned, hkept ?_⟩
            rintro ⟨-, -, -, metadata, hfound, -⟩
            rw [hstat] at hfound
            cases hfound
          · rename_i metadata hstat
            split at hstep
            · rename_i hskip
              cases hstep
              refine ⟨h.coherent, h.lookup, hunowned, hkept fun hpath => ?_⟩
              have hnoskip := prepareFileTask_skip (hreplaced metadata hstat hpath)
              rw [hskip] at hnoskip
              cases hnoskip
            · cases hstep
              refine ⟨h.coherent, h.lookup, hunowned, fun other => ?_⟩
              rw [deleteFirstPaths_append, Finset.mem_union, h.replaced other,
                legacyReplaced_append, mem_deleteFirstPaths]
              refine or_congr_right ?_
              constructor
              · rintro ⟨task, htask, hfirst, rfl⟩
                rw [List.mem_singleton] at htask
                subst htask
                rw [hrow] at hfirst ⊢
                exact ⟨rfl, List.mem_singleton_self _, hexcluded, howns, metadata, hstat, hfirst⟩
              · rintro ⟨rfl, hother⟩
                exact ⟨_, List.mem_singleton_self _, hreplaced metadata hstat hother, rfl⟩

/-- Legacy discovery deletes the owned sessions that are tracked, indexed or
catalogued, and replaces the changed ones, by the rows the session stands
for. -/
theorem settleLegacy_closed {session state : CheckpointSession} {scan : OpencodeScan}
    {pending : Option PendingIngest} {indexed : Finset String} {found : OpencodeDiscovery}
    (hsession : session.Coherent) (hfull : scan.fullScan = true)
    (h : settleLegacy inv options session scan pending indexed = some (state, found)) :
    let owns := databaseOwnsLegacy inv scan.ready (scan.owner session.opencodeDatabases)
    (∀ path, path ∈ found.legacyPathsToDelete ↔
        LegacyOwned options owns inv.opencodeSessions path ∧
          (path ∈ session.rows.keys ∨ path ∈ indexed ∨ path ∈ inv.analyticsPaths)) ∧
      ∀ path, path ∈ deleteFirstPaths found.tasks ↔
        LegacyReplaced inv options owns inv.opencodeSessions path (session.rows.lookup path) := by
  intro owns
  unfold settleLegacy at h
  dsimp only at h
  rw [hfull] at h
  simp only [if_true] at h
  set cleanup := (inv.opencodeSessions.filter fun path =>
    !options.excluder.isExcluded path && owns path).toFinset ∩ (indexed ∪ inv.analyticsPaths)
    with hcleanup
  obtain ⟨hpreload, hloaded⟩ := Drops.preload hsession
    (inv.opencodeSessions.filter fun path => !options.excluder.isExcluded path && !owns path) .bulk
  have hstart : LegacyProgress inv options owns cleanup session.rows []
      (session.preload (inv.opencodeSessions.filter fun path =>
        !options.excluder.isExcluded path && !owns path) .bulk false,
        databaseFindings scan session.opencodeDatabases pending) := by
    refine ⟨hpreload.coherent, fun path => ?_, fun path => ?_, fun path => ?_⟩
    · dsimp only
      rw [hpreload.rows, eraseAll_empty]
      rfl
    · refine iff_of_false (Finset.notMem_empty path) ?_
      rintro ⟨⟨hnone, -⟩, -⟩
      exact List.not_mem_nil hnone
    · refine iff_of_false (Finset.notMem_empty path) ?_
      rintro ⟨hnone, -⟩
      exact List.not_mem_nil hnone
  have hfold (paths done : List String) (start : CheckpointSession × OpencodeDiscovery) (result)
      (hstart : LegacyProgress inv options owns cleanup session.rows done start)
      (hread : ∀ path ∈ paths, options.excluder.isExcluded path = false → owns path = false →
        path ∈ start.1.loaded.keys)
      (hfold : paths.foldlM (discoverLegacySession inv options owns cleanup) start = some result) :
      LegacyProgress inv options owns cleanup session.rows (done ++ paths) result := by
    induction paths generalizing done start with
    | nil =>
        cases hfold
        rw [List.append_nil]
        exact hstart
    | cons path rest ih =>
        rw [List.foldlM_cons, Option.bind_eq_bind, Option.bind_eq_some_iff] at hfold
        obtain ⟨middle, hmiddle, hrest⟩ := hfold
        have hstep := hstart.session (hread path List.mem_cons_self) hmiddle
        obtain ⟨removed, hdrops, -⟩ := discoverLegacySession_drops hstart.coherent hmiddle
        have hresult := ih (done ++ [path]) middle hstep (fun other hother hexcluded howns =>
          hdrops.loaded (hread other (List.mem_cons_of_mem _ hother) hexcluded howns)) hrest
        rw [List.append_assoc] at hresult
        exact hresult
  have hresult := hfold inv.opencodeSessions [] _ (state, found) hstart
    (fun path hpath hexcluded howns => hloaded path
      (List.mem_filter.mpr ⟨hpath, by simp [hexcluded, howns]⟩)) h
  rw [List.nil_append] at hresult
  refine ⟨fun path => (hresult.deleted path).trans ?_, hresult.replaced⟩
  refine and_congr_right fun howned => or_congr_right ?_
  rw [hcleanup, Finset.mem_inter, Finset.mem_union]
  refine and_iff_right (List.mem_toFinset.mpr (List.mem_filter.mpr ⟨howned.1, ?_⟩))
  simp [howned.2.1, howned.2.2]

end Legacy

section FullScan

variable (inv : Inventory) (options : IngestOptions)

/-- What a full scan sees of one database; it never aborts or escalates. -/
def fullInspection (states : Table String OpencodeDatabaseState) (path : String) :
    OpencodeInspection :=
  if options.excluder.isExcluded path then .excluded
  else
    match (inv.opencodeStore path).stat with
    | .error => .failed none
    | .notFound => .failed none
    | .found metadata =>
        match (inv.opencodeStore path).scan (states.lookup path) with
        | none => .failed (some metadata.len)
        | some scan => .planned metadata.len scan

theorem inspectOpencodeDatabase_full (states : Table String OpencodeDatabaseState)
    (path : String) : inspectOpencodeDatabase inv options true states path =
      .done (fullInspection inv options states path) := by
  unfold inspectOpencodeDatabase fullInspection
  split
  · rfl
  · dsimp only
    cases (inv.opencodeStore path).stat with
    | error => rfl
    | notFound => rfl
    | found metadata =>
        dsimp only
        cases (inv.opencodeStore path).scan (states.lookup path) with
        | none => rfl
        | some scan => rfl

theorem inspectOpencodeDatabases_full (states : Table String OpencodeDatabaseState)
    (databases : List String) : inspectOpencodeDatabases inv options true states databases =
      .done (databases.map fun path => (path, fullInspection inv options states path)) := by
  induction databases with
  | nil => rfl
  | cons path rest ih =>
      rw [inspectOpencodeDatabases, inspectOpencodeDatabase_full, OpencodeStep.bind, ih]
      rfl

theorem hydrateDatabases_ne_escalated {fullScan : Bool} {pending : Option PendingIngest}
    (planned : List (String × DatabaseScan)) (next : Nat) :
    hydrateDatabases inv fullScan pending next planned ≠ .escalated := by
  induction planned generalizing next with
  | nil => simp [hydrateDatabases]
  | cons entry rest ih =>
      intro h
      unfold hydrateDatabases at h
      dsimp only at h
      split at h
      · rcases OpencodeStep.bind_eq_escalated h with hrest | ⟨value, -, hdone⟩
        · exact ih _ hrest
        · cases hdone
      · split at h
        · rcases OpencodeStep.bind_eq_escalated h with hrest | ⟨value, -, hdone⟩
          · exact ih _ hrest
          · cases hdone
        · cases h

/-- Only a narrowed discovery escalates, and only with OpenCode switched on. -/
theorem discoverOpencode_eq_escalated {session : CheckpointSession}
    {selected : Option (List SourceFile)} {pending : Option PendingIngest}
    {indexed : Finset String} {next : Nat}
    (h : discoverOpencode inv options session selected pending indexed next = .escalated) :
    options.includeOpencode = true ∧ selected.isSome = true := by
  unfold discoverOpencode at h
  split at h
  · cases h
  · rename_i hactive
    refine ⟨?_, ?_⟩
    · cases hcase : options.includeOpencode with
      | true => rfl
      | false => simp [hcase] at hactive
    · cases selected with
      | some files => rfl
      | none =>
          have hscan : scanOpencodeDatabases inv options true session.opencodeDatabases pending next
              inv.opencodeDatabases ≠ .escalated := by
            intro hscan
            unfold scanOpencodeDatabases at hscan
            rw [inspectOpencodeDatabases_full] at hscan
            rcases OpencodeStep.bind_eq_escalated hscan with hinspect | ⟨inspections, -, hscan⟩
            · cases hinspect
            · rcases OpencodeStep.bind_eq_escalated hscan with hhydrate | ⟨value, -, hdone⟩
              · exact hydrateDatabases_ne_escalated inv _ _ hhydrate
              · cases hdone
          rcases OpencodeStep.bind_eq_escalated h with hescalated | ⟨value, -, hsettle⟩
          · exact absurd hescalated hscan
          · dsimp only at hsettle
            split at hsettle <;> cases hsettle

/-- What hydration reads of a database. -/
def hydrationOf (pending : Option PendingIngest) (path : String) (scan : DatabaseScan) :
    Hydration :=
  (inv.opencodeStore path).hydrate scan (hydrationSessionIds pending path scan)

/-- A planned database is ready when it was read to its end, and has failed
otherwise. -/
structure Hydrated (pending : Option PendingIngest) (planned : List (String × DatabaseScan))
    (ready : List PreparedOpencodeDatabase) (failed : List String) : Prop where
  paths : (ready.map PreparedOpencodeDatabase.path).Sublist (planned.map Prod.fst)
  readyRead : ∀ database ∈ ready, (database.path, database.scan) ∈ planned ∧
    (hydrationOf inv pending database.path database.scan).complete = true ∧
    database.spool.map Record.body =
      (hydrationOf inv pending database.path database.scan).records.map Record.body
  readComplete : ∀ path scan, (path, scan) ∈ planned →
    (hydrationOf inv pending path scan).complete →
    ∃ database ∈ ready, database.path = path
  failedRead : ∀ path ∈ failed, ∃ scan, (path, scan) ∈ planned ∧
    (hydrationOf inv pending path scan).complete = false
  readIncomplete : ∀ path scan, (path, scan) ∈ planned →
    (hydrationOf inv pending path scan).complete = false → path ∈ failed

/-- Hydration that was not aborted; in a narrowed discovery every database was
read to its end. -/
theorem hydrateDatabases_hydrated {fullScan : Bool} {pending : Option PendingIngest}
    {planned : List (String × DatabaseScan)} {next after : Nat}
    {ready : List PreparedOpencodeDatabase} {failed : List String}
    (h : hydrateDatabases inv fullScan pending next planned = .done (after, ready, failed)) :
    Hydrated inv pending planned ready failed ∧ (fullScan = false → failed = []) := by
  induction planned generalizing next ready failed with
  | nil =>
      cases h
      exact ⟨⟨List.Sublist.refl _, by simp, by simp, by simp, by simp⟩, fun _ => rfl⟩
  | cons entry rest ih =>
      obtain ⟨path, scan⟩ := entry
      have hhydration : (inv.opencodeStore path).hydrate scan
          (hydrationSessionIds pending path scan) = hydrationOf inv pending path scan := rfl
      unfold hydrateDatabases at h
      dsimp only at h
      rw [hhydration] at h
      split at h
      · rename_i hcomplete
        obtain ⟨⟨after', ready', failed'⟩, hrest, h⟩ := OpencodeStep.bind_eq_done h
        cases h
        obtain ⟨hih, hnone⟩ := ih hrest
        refine ⟨⟨?_, ?_, ?_, ?_, ?_⟩, hnone⟩
        · exact hih.paths.cons_cons path
        · intro database hmem
          rcases List.mem_cons.mp hmem with rfl | hmem
          · exact ⟨List.mem_cons_self, hcomplete, drawIds_map_body _ _⟩
          · obtain ⟨hplanned, hrest⟩ := hih.readyRead database hmem
            exact ⟨List.mem_cons_of_mem _ hplanned, hrest⟩
        · intro other scan' hmem hdone
          rcases List.mem_cons.mp hmem with heq | hmem
          · cases heq
            exact ⟨_, List.mem_cons_self, rfl⟩
          · obtain ⟨database, hdatabase, hpath⟩ := hih.readComplete other scan' hmem hdone
            exact ⟨database, List.mem_cons_of_mem _ hdatabase, hpath⟩
        · intro other hmem
          obtain ⟨scan', hplanned, hfailed⟩ := hih.failedRead other hmem
          exact ⟨scan', List.mem_cons_of_mem _ hplanned, hfailed⟩
        · intro other scan' hmem hfailed
          rcases List.mem_cons.mp hmem with heq | hmem
          · cases heq
            rw [hcomplete] at hfailed
            cases hfailed
          · exact hih.readIncomplete other scan' hmem hfailed
      · rename_i hincomplete
        split at h
        case isFalse => cases h
        rename_i hfull
        obtain ⟨⟨after', ready', failed'⟩, hrest, h⟩ := OpencodeStep.bind_eq_done h
        cases h
        obtain ⟨hih, -⟩ := ih hrest
        refine ⟨⟨?_, ?_, ?_, ?_, ?_⟩, fun hnarrowed => by simp [hfull] at hnarrowed⟩
        · exact hih.paths.cons path
        · intro database hmem
          obtain ⟨hplanned, hrest⟩ := hih.readyRead database hmem
          exact ⟨List.mem_cons_of_mem _ hplanned, hrest⟩
        · intro other scan' hmem hdone
          rcases List.mem_cons.mp hmem with heq | hmem
          · cases heq
            exact absurd hdone hincomplete
          · exact hih.readComplete other scan' hmem hdone
        · intro other hmem
          rcases List.mem_cons.mp hmem with rfl | hmem
          · exact ⟨scan, List.mem_cons_self, Bool.eq_false_iff.mpr hincomplete⟩
          · obtain ⟨scan', hplanned, hfailed⟩ := hih.failedRead other hmem
            exact ⟨scan', List.mem_cons_of_mem _ hplanned, hfailed⟩
        · intro other scan' hmem hfailed
          rcases List.mem_cons.mp hmem with heq | hmem
          · cases heq
            exact List.mem_cons_self
          · exact List.mem_cons_of_mem _ (hih.readIncomplete other scan' hmem hfailed)

/-- A database that a full scan could open and scan. -/
def Scannable (states : Table String OpencodeDatabaseState) (path : String)
    (scan : DatabaseScan) : Prop :=
  options.excluder.isExcluded path = false ∧
    (∃ metadata, (inv.opencodeStore path).stat = .found metadata) ∧
    (inv.opencodeStore path).scan (states.lookup path) = some scan

theorem scan_fullInspection {states : Table String OpencodeDatabaseState} {path : String}
    {scan : DatabaseScan} : (fullInspection inv options states path).scan = some scan ↔
      Scannable inv options states path scan := by
  unfold fullInspection Scannable
  cases hexcluded : options.excluder.isExcluded path with
  | true => simp [OpencodeInspection.scan]
  | false =>
      cases hstat : (inv.opencodeStore path).stat with
      | error => simp [OpencodeInspection.scan]
      | notFound => simp [OpencodeInspection.scan]
      | found metadata =>
          cases hscan : (inv.opencodeStore path).scan (states.lookup path) <;>
            simp [OpencodeInspection.scan]

/-- The databases of a full scan: the ready ones were read to their end, and
every listed database that is not excluded is ready or has failed. -/
structure ScannedFully (states : Table String OpencodeDatabaseState)
    (pending : Option PendingIngest) (databases : List String) (scan : OpencodeScan) : Prop where
  nodup : (scan.ready.map PreparedOpencodeDatabase.path).Nodup
  ready : ∀ database ∈ scan.ready, database.path ∈ databases ∧
    Scannable inv options states database.path database.scan ∧
    (hydrationOf inv pending database.path database.scan).complete = true ∧
    database.spool.map Record.body =
      (hydrationOf inv pending database.path database.scan).records.map Record.body
  outcomes : ∀ path, scan.outcomes.lookup path =
    if path ∈ databases ∧ options.excluder.isExcluded path = false then
      if path ∈ scan.ready.map PreparedOpencodeDatabase.path then some .ready else some .failed
    else none
  outcome : ∀ path, scan.outcome path =
    if path ∈ databases ∧ options.excluder.isExcluded path = false then
      if path ∈ scan.ready.map PreparedOpencodeDatabase.path then .ready else .failed
    else .confirmedAbsent

variable {inv options} {states : Table String OpencodeDatabaseState}
  {pending : Option PendingIngest} {databases : List String}

/-- The databases that a full scan plans to read. -/
theorem mem_planned {path : String} {scan : DatabaseScan} :
    (path, scan) ∈
      ((databases.map fun path => (path, fullInspection inv options states path)).filterMap
        fun entry => entry.2.scan.map fun scan => (entry.1, scan)) ↔
      path ∈ databases ∧ Scannable inv options states path scan := by
  rw [← scan_fullInspection, List.mem_filterMap]
  constructor
  · rintro ⟨⟨other, inspection⟩, hmem, hscan⟩
    obtain ⟨listed, hlisted, heq⟩ := List.mem_map.mp hmem
    obtain ⟨found, hfound, hpair⟩ := Option.map_eq_some_iff.mp hscan
    cases heq
    cases hpair
    exact ⟨hlisted, hfound⟩
  · rintro ⟨hlisted, hscan⟩
    exact ⟨(path, fullInspection inv options states path), List.mem_map_of_mem hlisted,
      by rw [hscan]; rfl⟩

theorem planned_sublist (databases : List String) :
    (((databases.map fun path => (path, fullInspection inv options states path)).filterMap
        fun entry => entry.2.scan.map fun scan => (entry.1, scan)).map Prod.fst).Sublist
      databases := by
  induction databases with
  | nil => exact List.Sublist.refl _
  | cons path rest ih =>
      rw [List.map_cons, List.filterMap_cons]
      cases hscan : (fullInspection inv options states path).scan with
      | none => simpa [hscan] using ih.cons path
      | some scan => simpa [hscan] using ih.cons_cons path

/-- A path is reported as failed before hydration when its database is listed
but could not be scanned. -/
theorem hasFailed_fullInspection {path : String} :
    (fullInspection inv options states path).hasFailed = true ↔
      options.excluder.isExcluded path = false ∧
        ∀ scan, ¬ Scannable inv options states path scan := by
  have hscan (scan : DatabaseScan) : (fullInspection inv options states path).scan = some scan ↔
      Scannable inv options states path scan := scan_fullInspection inv options
  constructor
  · intro hfailed
    refine ⟨?_, fun scan hscannable => ?_⟩
    · cases hexcluded : options.excluder.isExcluded path with
      | true =>
          rw [fullInspection, if_pos hexcluded] at hfailed
          cases hfailed
      | false => rfl
    · have hplanned := (hscan scan).mpr hscannable
      cases hcase : fullInspection inv options states path with
      | excluded =>
          rw [hcase] at hfailed
          cases hfailed
      | failed bytes =>
          rw [hcase] at hplanned
          cases hplanned
      | planned bytes scan' =>
          rw [hcase] at hfailed
          cases hfailed
  · rintro ⟨hexcluded, hnone⟩
    cases hcase : fullInspection inv options states path with
    | excluded =>
        have hsome : fullInspection inv options states path ≠ .excluded := by
          unfold fullInspection
          rw [if_neg (by simp [hexcluded])]
          split
          · simp
          · simp
          · split <;> simp
        exact absurd hcase hsome
    | failed bytes => rfl
    | planned bytes scan =>
        exact absurd ((hscan scan).mp (by rw [hcase]; rfl)) (hnone scan)

theorem scanOpencodeDatabases_full {next after : Nat} {scan : OpencodeScan}
    (hnodup : databases.Nodup)
    (h : scanOpencodeDatabases inv options true states pending next databases =
      .done (scan, after)) : ScannedFully inv options states pending databases scan := by
  unfold scanOpencodeDatabases at h
  rw [inspectOpencodeDatabases_full] at h
  obtain ⟨inspections, hinspections, h⟩ := OpencodeStep.bind_eq_done h
  cases hinspections
  obtain ⟨⟨count, ready, unhydrated⟩, hhydrate, h⟩ := OpencodeStep.bind_eq_done h
  cases h
  set listed := (databases.map fun path => (path, fullInspection inv options states path)).filterMap
    fun entry => entry.2.scan.map fun scan => (entry.1, scan) with hlisted
  have hread := (hydrateDatabases_hydrated inv hhydrate).1
  have hperm := List.perm_insertionSort
    (fun left right : String × DatabaseScan => pathLe left.1 right.1) listed
  have hplanned (path : String) (scan : DatabaseScan) :
      (path, scan) ∈ listed.insertionSort (fun left right => pathLe left.1 right.1) ↔
        path ∈ databases ∧ Scannable inv options states path scan := by
    rw [hperm.mem_iff]
    exact mem_planned
  have hpaths : (listed.map Prod.fst).Nodup := hnodup.sublist (planned_sublist databases)
  have hready : (ready.map PreparedOpencodeDatabase.path).Nodup :=
    ((hperm.map Prod.fst).nodup_iff.mpr hpaths).sublist hread.paths
  have hscan (database : PreparedOpencodeDatabase) (hmem : database ∈ ready) :
      database.path ∈ databases ∧ Scannable inv options states database.path database.scan :=
    (hplanned _ _).mp (hread.readyRead database hmem).1
  have hsame {path : String} {scan scan' : DatabaseScan}
      (h : Scannable inv options states path scan) (h' : Scannable inv options states path scan') :
      scan = scan' := Option.some.inj (h.2.2.symm.trans h'.2.2)
  have houtcomes (path : String) :
      (OpencodeScan.mk true
        (databases.map fun path => (path, fullInspection inv options states path))
        ready unhydrated).outcomes.lookup path =
        if path ∈ databases ∧ options.excluder.isExcluded path = false then
          if path ∈ ready.map PreparedOpencodeDatabase.path then some .ready else some .failed
        else none := by
    have hfailed : path ∈ ((databases.map fun path =>
        (path, fullInspection inv options states path)).filter fun entry =>
          entry.2.hasFailed).map Prod.fst ↔
        path ∈ databases ∧ (fullInspection inv options states path).hasFailed = true := by
      simp only [List.mem_map, List.mem_filter]
      constructor
      · rintro ⟨entry, ⟨⟨other, hother, rfl⟩, hcase⟩, rfl⟩
        exact ⟨hother, hcase⟩
      · rintro ⟨hother, hcase⟩
        exact ⟨_, ⟨⟨path, hother, rfl⟩, hcase⟩, rfl⟩
    rw [hasFailed_fullInspection] at hfailed
    simp only [OpencodeScan.outcomes, lookup_insertAll, Finmap.lookup_empty]
    by_cases hunhydrated : path ∈ unhydrated
    · obtain ⟨scan, hmem, hincomplete⟩ := hread.failedRead path hunhydrated
      obtain ⟨hdatabases, hscannable⟩ := (hplanned path scan).mp hmem
      have hnot : path ∉ ready.map PreparedOpencodeDatabase.path := by
        intro hmem
        obtain ⟨database, hdatabase, rfl⟩ := List.mem_map.mp hmem
        have hcomplete := (hread.readyRead database hdatabase).2.1
        rw [hsame (hscan database hdatabase).2 hscannable, hincomplete] at hcomplete
        cases hcomplete
      rw [if_pos hunhydrated, if_pos ⟨hdatabases, hscannable.1⟩, if_neg hnot]
    · rw [if_neg hunhydrated]
      by_cases hmem : path ∈ ready.map PreparedOpencodeDatabase.path
      · obtain ⟨database, hdatabase, hpath⟩ := List.mem_map.mp hmem
        obtain ⟨hdatabases, hscannable⟩ := hscan database hdatabase
        rw [hpath] at hdatabases hscannable
        rw [if_pos hmem, if_pos ⟨hdatabases, hscannable.1⟩, if_pos hmem]
      · rw [if_neg hmem]
        by_cases hdatabases : path ∈ databases ∧ options.excluder.isExcluded path = false
        · have hnone (scan : DatabaseScan) : ¬ Scannable inv options states path scan := by
            intro hscannable
            have hlist := (hplanned path scan).mpr ⟨hdatabases.1, hscannable⟩
            cases hcomplete : (hydrationOf inv pending path scan).complete with
            | true =>
                obtain ⟨database, hdatabase, rfl⟩ := hread.readComplete path scan hlist hcomplete
                exact hmem (List.mem_map_of_mem hdatabase)
            | false => exact hunhydrated (hread.readIncomplete path scan hlist hcomplete)
          rw [if_pos (hfailed.mpr ⟨hdatabases.1, hdatabases.2, hnone⟩), if_pos hdatabases,
            if_neg hmem]
        · have hnot := fun hcase => hdatabases ⟨(hfailed.mp hcase).1, (hfailed.mp hcase).2.1⟩
          rw [if_neg hnot, if_neg hdatabases]
  refine ⟨hready, fun database hmem => ?_, houtcomes, fun path => ?_⟩
  · exact ⟨(hscan database hmem).1, (hscan database hmem).2, (hread.readyRead database hmem).2⟩
  · unfold OpencodeScan.outcome classifyOpencodeDatabaseOutcome
    rw [houtcomes]
    by_cases hdatabases : path ∈ databases ∧ options.excluder.isExcluded path = false
    · rw [if_pos hdatabases, if_pos hdatabases]
      split <;> rfl
    · rw [if_neg hdatabases, if_neg hdatabases]
      have hnot : path ∉ (OpencodeScan.mk true
          (databases.map fun path => (path, fullInspection inv options states path)) ready
            unhydrated).discovered := by
        intro hmem
        obtain ⟨entry, hentry, rfl⟩ := List.mem_map.mp hmem
        obtain ⟨hentry, hcase⟩ := List.mem_filter.mp hentry
        obtain ⟨path, hpath, rfl⟩ := List.mem_map.mp hentry
        refine hdatabases ⟨hpath, ?_⟩
        cases hexcluded : options.excluder.isExcluded path with
        | false => rfl
        | true =>
            rw [fullInspection, if_pos hexcluded] at hcase
            simp at hcase
      simp [hnot]

end FullScan

end Memex.Ingest
