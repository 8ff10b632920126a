import Memex.Lease.LockFiles

/-! # When writers of one data directory exclude each other

Over any order of attempts, drops and deaths the holders of a lock are kept apart by its file.
They are kept apart by their data directory exactly if the paths of the roots that lead to one
directory name one lock file, and the paths that lead to different directories different
files. -/

namespace Memex.Lease

open PathLookup

variable {Pid ι : Type*} {host : Host Pid ι}

/-- No two holders of a lock of one kind write to the same directory. -/
def Exclusive (host : Host Pid ι) (table : LockTable Pid ι) : Prop :=
  table.held.Pairwise fun left right =>
    ¬ (left.kind = right.kind ∧ host.directory left.pid = host.directory right.pid)

/-- A process is refused only for a process of the same directory. -/
def BlockedByOwn (host : Host Pid ι) (table : LockTable Pid ι) : Prop :=
  ∀ pid kind holder, .busy pid kind holder ∈ table.trace →
    host.directory holder.pid = host.directory pid

/-- The lock files follow the data directories, however the roots are spelled. -/
structure LocksFollow (host : Host Pid ι) : Prop where
  shared : ∀ pid other kind place place', host.lockPlace pid kind = some place →
    host.lockPlace other kind = some place' → host.directory pid = host.directory other →
    place = place'
  apart : ∀ pid other kind kind' place, host.lockPlace pid kind = some place →
    host.lockPlace other kind' = some place → host.directory pid = host.directory other

/-- What every order of actions keeps: a lock is held on the file of its process, no file is
locked twice, and who is refused is refused for the holder of its own file. -/
structure LocksHeld (host : Host Pid ι) (table : LockTable Pid ι) : Prop where
  places : ∀ hold ∈ table.held, host.lockPlace hold.pid hold.kind = some hold.place
  distinct : table.held.Pairwise fun left right => left.place ≠ right.place
  refused : ∀ pid kind holder, .busy pid kind holder ∈ table.trace →
    host.lockPlace pid kind = some holder.place ∧
      host.lockPlace holder.pid holder.kind = some holder.place

theorem LocksHeld.filter {table : LockTable Pid ι} (h : LocksHeld host table)
    (keep : Hold Pid ι → Bool) :
    LocksHeld host { table with held := table.held.filter keep } where
  places hold hmem := h.places hold (List.mem_of_mem_filter hmem)
  distinct := h.distinct.filter keep
  refused := h.refused

/-- Locks that follow the directories keep their holders apart. -/
theorem LocksFollow.exclusive (h : LocksFollow host) {table : LockTable Pid ι}
    (hheld : LocksHeld host table) : Exclusive host table := by
  apply hheld.distinct.imp_of_mem
  rintro left right hleft hright hne ⟨hkind, hdirectory⟩
  apply hne
  refine h.shared left.pid right.pid left.kind _ _ (hheld.places left hleft) ?_ hdirectory
  rw [hkind]
  exact hheld.places right hright

theorem LocksFollow.blockedByOwn (h : LocksFollow host) {table : LockTable Pid ι}
    (hheld : LocksHeld host table) : BlockedByOwn host table := by
  intro pid kind holder hmem
  obtain ⟨hpid, hholder⟩ := hheld.refused pid kind holder hmem
  exact h.apart holder.pid pid holder.kind kind holder.place hholder hpid

section Runs

variable [DecidableEq ι] [DecidableEq Pid]

omit [DecidableEq Pid] in
theorem LocksHeld.tryAcquire {table : LockTable Pid ι} (h : LocksHeld host table) (pid : Pid)
    (kind : LockKind) : LocksHeld host (Lease.tryAcquire host table pid kind) := by
  have hevent : ∀ event : LockEvent Pid ι,
      (∀ pid' kind' holder, event = .busy pid' kind' holder →
        host.lockPlace pid' kind' = some holder.place ∧
          host.lockPlace holder.pid holder.kind = some holder.place) →
      ∀ pid' kind' holder, .busy pid' kind' holder ∈ table.trace ++ [event] →
        host.lockPlace pid' kind' = some holder.place ∧
          host.lockPlace holder.pid holder.kind = some holder.place := by
    intro event hnew pid' kind' holder hmem
    obtain hmem | hmem := List.mem_append.mp hmem
    · exact h.refused pid' kind' holder hmem
    · exact hnew pid' kind' holder (List.mem_singleton.mp hmem).symm
  rw [Lease.tryAcquire]
  cases hplace : host.lockPlace pid kind with
  | none => exact ⟨h.places, h.distinct, hevent _ (fun _ _ _ heq => by cases heq)⟩
  | some place =>
      dsimp only
      cases hfind : table.held.find? fun hold => hold.place = place with
      | some holder =>
          refine ⟨h.places, h.distinct, hevent _ ?_⟩
          intro pid' kind' holder' heq
          cases heq
          have hheld := List.mem_of_find?_eq_some hfind
          have hlocked := List.find?_some hfind
          rw [decide_eq_true_eq] at hlocked
          exact ⟨hlocked ▸ hplace, h.places holder hheld⟩
      | none =>
          have hfree := List.find?_eq_none.mp hfind
          constructor
          · intro hold hmem
            obtain hmem | hmem := List.mem_append.mp hmem
            · exact h.places hold hmem
            · rw [List.mem_singleton.mp hmem]
              exact hplace
          · refine List.pairwise_append.mpr ⟨h.distinct, List.pairwise_singleton _ _, ?_⟩
            rintro hold hmem new hnew heq
            rw [List.mem_singleton.mp hnew] at heq
            exact hfree hold hmem (decide_eq_true heq)
          · exact hevent _ (fun _ _ _ heq => by cases heq)

theorem LocksHeld.apply {table : LockTable Pid ι} (h : LocksHeld host table)
    (action : LockAction Pid) : LocksHeld host (action.apply host table) := by
  cases action with
  | tryAcquire pid kind => exact h.tryAcquire pid kind
  | drop pid kind => exact h.filter _
  | die pid => exact h.filter _

theorem locksHeld_runLocks (actions : List (LockAction Pid)) :
    LocksHeld host (runLocks host actions) := by
  refine List.foldlRecOn (motive := LocksHeld host) _ _ ?_ ?_
  · exact ⟨fun _ h => absurd h List.not_mem_nil, List.Pairwise.nil,
      fun _ _ _ h => absurd h List.not_mem_nil⟩
  · intro table h action _
    exact h.apply action

/-- Two attempts of different processes, one after the other. -/
theorem runLocks_two_attempts {pid other : Pid} {kind kind' : LockKind} {place place' : ι × OsName}
    (hplace : host.lockPlace pid kind = some place)
    (hplace' : host.lockPlace other kind' = some place') :
    runLocks host [.tryAcquire pid kind, .tryAcquire other kind'] =
      if place = place' then
        { held := [{ pid, kind, place }]
          trace := [.acquired pid kind, .busy other kind' { pid, kind, place }] }
      else
        { held := [{ pid, kind, place }, { pid := other, kind := kind', place := place' }]
          trace := [.acquired pid kind, .acquired other kind'] } := by
  have hfirst : Lease.tryAcquire host {} pid kind =
      { held := [{ pid, kind, place }], trace := [.acquired pid kind] } := by
    rw [Lease.tryAcquire, hplace]
    rfl
  rw [runLocks, List.foldl_cons, List.foldl_cons, List.foldl_nil, LockAction.apply,
    LockAction.apply, hfirst, Lease.tryAcquire, hplace']
  by_cases heq : place = place'
  · rw [if_pos heq]
    simp only [List.find?_cons, heq, decide_true]
    rfl
  · rw [if_neg heq]
    simp only [List.find?_cons, heq, decide_false, List.find?_nil]
    rfl

/-- In every order of attempts, drops and deaths at most one process holds each lock of a
directory and none is refused for another directory, exactly if the lock files follow the
directories. -/
theorem leases_exclude_iff (host : Host Pid ι) :
    (∀ actions, Exclusive host (runLocks host actions) ∧
      BlockedByOwn host (runLocks host actions)) ↔ LocksFollow host := by
  constructor
  · intro h
    constructor
    · intro pid other kind place place' hplace hplace' hdirectory
      by_contra hne
      obtain ⟨hexclusive, -⟩ := h [.tryAcquire pid kind, .tryAcquire other kind]
      rw [runLocks_two_attempts hplace hplace', if_neg hne] at hexclusive
      exact (List.pairwise_cons.mp hexclusive).1 _ (List.mem_singleton_self _)
        ⟨rfl, hdirectory⟩
    · intro pid other kind kind' place hplace hplace'
      obtain ⟨-, hblocked⟩ := h [.tryAcquire pid kind, .tryAcquire other kind']
      rw [runLocks_two_attempts hplace hplace', if_pos rfl] at hblocked
      exact hblocked other kind' _ (List.mem_cons_of_mem _ (List.mem_singleton_self _))
  · intro h actions
    have hheld : LocksHeld host (runLocks host actions) := locksHeld_runLocks actions
    exact ⟨h.exclusive hheld, h.blockedByOwn hheld⟩

end Runs

section Spellings

/-- A data directory `/data` with another one `/data/memex` in it, and a link to the first. -/
def linkedFiles : FileSystem OsName Nat where
  root := 0
  parent node := node - 1
  entry node name :=
    if node = 0 ∧ name = .text "data" then some (.directory 1)
    else if node = 0 ∧ name = .text "link" then some (.link [.normal (.text "data")])
    else if node = 1 ∧ name = .text "memex" then some (.directory 2)
    else none

/-- Processes that were given `/data`, `/link`, `.` in the data directory, and the directory
within it. -/
def spelledRoot : Nat → Process Nat
  | 0 => { cwd := 0, root := { absolute := true, segments := [.text "data"] } }
  | 1 => { cwd := 0, root := { absolute := true, segments := [.text "link"] } }
  | 2 => { cwd := 1, root := { absolute := false, segments := [.text "."] } }
  | _ => { cwd := 0, root := { absolute := true, segments := [.text "data", .text "memex"] } }

def spelledHost : Host Nat Nat where
  fs := linkedFiles
  process := spelledRoot
  rooted
    | 0 => by decide +kernel
    | 1 => by decide +kernel
    | 2 => by decide +kernel
    | _ + 3 => by
      change (linkedFiles.walk maxLinks 0
        (OsPath.components ⟨true, [.text "data", .text "memex"]⟩)).isSome
      decide +kernel

/-- The path of a link and the path of its target lock different files, so that two writers
hold the lease of one directory; `.` in a directory locks the file of a root `memex` in it, so
that the writer of one directory waits for the writer of another one. -/
theorem link_and_dot_are_not_excluded :
    ¬ (∀ actions, Exclusive spelledHost (runLocks spelledHost actions)) ∧
      ¬ (∀ actions, BlockedByOwn spelledHost (runLocks spelledHost actions)) := by
  constructor
  · intro h
    have hexclusive := h [.tryAcquire 0 .ingest, .tryAcquire 1 .ingest]
    have hheld : (runLocks spelledHost [.tryAcquire 0 .ingest, .tryAcquire 1 .ingest]).held =
        [⟨0, .ingest, 0, .text ".data.ingest.lock"⟩,
          ⟨1, .ingest, 0, .text ".link.ingest.lock"⟩] := rfl
    rw [Exclusive, hheld] at hexclusive
    exact (List.pairwise_cons.mp hexclusive).1 _ (List.mem_singleton_self _)
      ⟨rfl, by decide +kernel⟩
  · intro h
    have htrace : (runLocks spelledHost [.tryAcquire 3 .ingest, .tryAcquire 2 .ingest]).trace =
        [.acquired 3 .ingest, .busy 2 .ingest ⟨3, .ingest, 1, .text ".memex.ingest.lock"⟩] := rfl
    have hblocked := h [.tryAcquire 3 .ingest, .tryAcquire 2 .ingest] 2 .ingest
      ⟨3, .ingest, 1, .text ".memex.ingest.lock"⟩ (by
        rw [htrace]
        exact List.mem_cons_of_mem _ (List.mem_singleton_self _))
    revert hblocked
    decide +kernel

end Spellings

end Memex.Lease
