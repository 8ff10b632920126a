import Memex.Lib.PathLookup
import Memex.Lib.Replace

/-! # Lock files of a data directory

`lease.rs`: writers of one root exclude each other by locking a file beside the root. The file
is named after the path of the root as it was given; the data under the root is found by
following that path. -/

namespace Memex.Lease

open PathLookup

/-- `OsStr`: a string of UTF-8, or other bytes. -/
inductive OsName where
  | text (name : String)
  | raw (bytes : List UInt8)
deriving DecidableEq

/-- `OsStr::to_str`. -/
def OsName.toStr : OsName → Option String
  | text name => some name
  | raw _ => none

abbrev Components := List (Component OsName)

/-- A path as it is written: what stands between its slashes, and whether it begins with one. -/
structure OsPath where
  absolute : Bool
  segments : List OsName

/-- Empty segments and `.` name no component of their own. -/
def segmentComponent : OsName → Option (Component OsName)
  | .text "" => none
  | .text "." => none
  | .text ".." => some .parentDir
  | name => some (.normal name)

/-- `Path::components`: a `.` is kept only at the start of a relative path. -/
def OsPath.components (path : OsPath) : Components :=
  if path.absolute then .rootDir :: path.segments.filterMap segmentComponent
  else if path.segments.head? = some (.text ".") then
    .curDir :: path.segments.filterMap segmentComponent
  else path.segments.filterMap segmentComponent

/-- `Path::parent`. -/
def parent (path : Components) : Option Components :=
  match path.getLast? with
  | none => none
  | some .rootDir => none
  | some _ => some path.dropLast

/-- `Path::file_name`. -/
def fileName (path : Components) : Option OsName :=
  match path.getLast? with
  | some (.normal name) => some name
  | _ => none

/-- The name of a root in the names of its lock files. -/
def rootName (root : Components) : String :=
  (((fileName root).bind OsName.toStr).filter fun name => name ≠ "").getD "memex"

/-- `lease_path`: a directory and a name in it. -/
def leasePath (root : Components) : Components × String :=
  ((parent root).getD [.curDir], "." ++ rootName root ++ ".ingest.lock")

/-- `compaction_lock_path`. -/
def compactionLockPath (root : Components) : Components × String :=
  ((leasePath root).1,
    Replace.replaceString (leasePath root).2 "ingest.lock" "compaction.lock")

/-- `IngestLease` and `CompactionLock`. -/
inductive LockKind where
  | ingest
  | compaction
deriving DecidableEq

def lockPath : LockKind → Components → Components × String
  | .ingest => leasePath
  | .compaction => compactionLockPath

/-- How many links the system follows in one lookup. -/
def maxLinks : Nat := 40

/-- A process: where it was started, and the root it was given. -/
structure Process (ι : Type*) where
  cwd : ι
  root : OsPath

/-- A file system and processes on it, each of which was given an existing data directory. -/
structure Host (Pid ι : Type*) where
  fs : FileSystem OsName ι
  process : Pid → Process ι
  rooted : ∀ pid, (fs.walk maxLinks (process pid).cwd (process pid).root.components).isSome

variable {Pid ι : Type*}

namespace Host

/-- The data directory of a process. -/
def directory (host : Host Pid ι) (pid : Pid) : Option ι :=
  (host.fs.walk maxLinks (host.process pid).cwd (host.process pid).root.components).map Prod.snd

/-- The file that `open_lease_file` opens, where the lock file may be a link. -/
def lockPlace (host : Host Pid ι) (pid : Pid) (kind : LockKind) : Option (ι × OsName) :=
  host.fs.locate (maxLinks + 1) maxLinks (host.process pid).cwd
    (lockPath kind (host.process pid).root.components).1
    (.text (lockPath kind (host.process pid).root.components).2)

end Host

section Locks

/-- A lock on a file, held through a handle of a process. -/
structure Hold (Pid ι : Type*) where
  pid : Pid
  kind : LockKind
  place : ι × OsName

/-- What came of an attempt. -/
inductive LockEvent (Pid ι : Type*) where
  | acquired (pid : Pid) (kind : LockKind)
  | busy (pid : Pid) (kind : LockKind) (holder : Hold Pid ι)
  | failed (pid : Pid) (kind : LockKind)

/-- The locks that are held, and what came of the attempts so far. -/
structure LockTable (Pid ι : Type*) where
  held : List (Hold Pid ι) := []
  trace : List (LockEvent Pid ι) := []

variable [DecidableEq ι] [DecidableEq Pid]

/-- `try_acquire`: a file that is locked through another handle is busy. -/
def tryAcquire (host : Host Pid ι) (table : LockTable Pid ι) (pid : Pid) (kind : LockKind) :
    LockTable Pid ι :=
  match host.lockPlace pid kind with
  | none => { table with trace := table.trace ++ [.failed pid kind] }
  | some place =>
    match table.held.find? fun hold => hold.place = place with
    | some holder => { table with trace := table.trace ++ [.busy pid kind holder] }
    | none =>
      { held := table.held ++ [{ pid, kind, place }]
        trace := table.trace ++ [.acquired pid kind] }

inductive LockAction (Pid : Type*) where
  | tryAcquire (pid : Pid) (kind : LockKind)
  | drop (pid : Pid) (kind : LockKind)
  | die (pid : Pid)

/-- A dropped lock is released, and so are the locks of a process that ends. -/
def LockAction.apply (host : Host Pid ι) (table : LockTable Pid ι) :
    LockAction Pid → LockTable Pid ι
  | tryAcquire pid kind => Lease.tryAcquire host table pid kind
  | drop pid kind =>
    { table with held := table.held.filter fun hold => ¬ (hold.pid = pid ∧ hold.kind = kind) }
  | die pid => { table with held := table.held.filter fun hold => hold.pid ≠ pid }

/-- Any order of attempts, drops and deaths. -/
def runLocks (host : Host Pid ι) (actions : List (LockAction Pid)) : LockTable Pid ι :=
  actions.foldl (LockAction.apply host) {}

end Locks

end Memex.Lease
