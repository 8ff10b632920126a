import Memex.Lib.FileTree

/-! # Shared segment storage

The directories of an index root, the manifest that maps a generation's segment
files to their creating generation, and the checks on stored names. -/

namespace Memex.Index

/-- File contents as written. -/
abbrev Bytes := List UInt8

/-- A file or directory name. -/
abbrev Name := String

/-- The generation under which a shared segment file is stored. -/
abbrev Owner := String

/-- `MANIFEST` -/
def manifestFile : Name := ".segments.json"

/-- `FORMAT` -/
def formatFile : Name := ".storage-format"

/-- `GENERATION_LEASE_FILE` -/
def generationLeaseFile : Name := ".lease"

/-- `FORMAT_VERSION` -/
def formatVersion : String := "memex-shared-segments-v1\n"

/-- The failures the storage layer reports, with the texts of its own messages. -/
inductive IndexError where
  | message (text : String)
  | notFound
  | malformed
  | invalidInput (text : String)
  | permissionDenied (text : String)
  | fileDoesNotExist (path : Name)
  | fileAlreadyExists (path : Name)
  deriving DecidableEq, Repr

/-! ## Names -/

/-- A single path component with no separator, drive or terminator in it. -/
def safeComponent (name : Name) : Bool :=
  name ≠ "" && name ≠ "." && name ≠ ".." &&
    name.toList.all fun c => c ≠ '/' && c ≠ '\\' && c ≠ ':' && c ≠ Char.ofNat 0

/-- `u8::is_ascii_hexdigit` -/
def isAsciiHexdigit (c : Char) : Bool :=
  ('0' ≤ c && c ≤ '9') || ('a' ≤ c && c ≤ 'f') || ('A' ≤ c && c ≤ 'F')

/-- A generation name: 32 and 8 hexadecimal digits joined by a dash. -/
def safeOwner (owner : Owner) : Bool :=
  let stamp := owner.toList.takeWhile (· ≠ '-')
  match owner.toList.dropWhile (· ≠ '-') with
  | [] => false
  | _ :: pid =>
      stamp.length = 32 && pid.length = 8 && (stamp ++ pid).all isAsciiHexdigit

/-- Files every generation keeps for itself: the index metadata and all dot files. -/
def metadataFile (path : Name) : Bool :=
  path = "meta.json" || path.toList.head? = some '.'

/-- The metadata files a new staging directory copies from its source. -/
def copiedMetadata : List Name := ["meta.json", ".managed.json"]

/-- The names the storage layer keeps for its own files. -/
def reservedNames : List Name := [manifestFile, formatFile, generationLeaseFile]

/-- `checked_name` -/
def checkedName (path : Name) : Except IndexError Name :=
  if safeComponent path then .ok path else .error (.invalidInput "invalid index filename")

theorem checkedName_eq_ok {path name : Name} :
    checkedName path = .ok name ↔ safeComponent path = true ∧ path = name := by
  unfold checkedName
  split
  · next h => simp [h]
  · next h => simp [h]

theorem metadataFile_of_mem_reserved {name : Name} (h : name ∈ reservedNames) :
    metadataFile name = true := by
  simp only [reservedNames, List.mem_cons, List.not_mem_nil, or_false] at h
  obtain rfl | rfl | rfl := h <;> decide

/-! ## Manifests -/

/-- The flat references of a generation to immutable segment files. -/
structure Manifest where
  version : Nat
  files : AList fun _ : Name => Owner

instance : DecidableEq Manifest := fun left right =>
  decidable_of_iff (left.version = right.version ∧ left.files.entries = right.files.entries) <| by
    obtain ⟨_, ⟨_, _⟩⟩ := left
    obtain ⟨_, ⟨_, _⟩⟩ := right
    simp

/-- What a file holds. The small text files are kept as text, a manifest as the value that
its JSON text stands for. -/
inductive Contents where
  | bytes (data : Bytes)
  | text (text : String)
  | manifest (manifest : Manifest)
  deriving DecidableEq

/-- The directories of an index: its root, the generations and the owners in the
segment store. -/
inductive Location where
  | root
  | generation (name : Name)
  | owner (owner : Owner)
  deriving DecidableEq

/-- The path of a directory below the index root, as error texts show it. -/
def Location.display : Location → String
  | .root => ""
  | .generation name => "generations/" ++ name
  | .owner name => "segments/" ++ name

/-- The files of an index root. -/
abbrev Disk := Files.FileTree Location Name Contents

/-- The content of the format marker. -/
def formatMarker : Contents := .text formatVersion

namespace Manifest

/-- `Manifest::empty` -/
def empty : Manifest := ⟨1, ∅⟩

/-- One reference that `read` accepts. -/
def safeReference (name : Name) (owner : Owner) : Bool :=
  safeComponent name && !metadataFile name && safeOwner owner

/-- The manifest of a generation, `none` for a directory without shared segments. -/
def read (disk : Disk) (directory : Location) : Except IndexError (Option Manifest) :=
  if (disk.entry directory formatFile).isNone && (disk.entry directory manifestFile).isNone then
    .ok none
  else
    match disk.read directory formatFile with
    -- the entry of the manifest shows that the directory has not been removed meanwhile
    | none => .error (.message "read shared-segment format")
    | some format =>
        if format ≠ formatMarker then
          .error (.message ("unsupported shared-segment format in " ++ directory.display))
        else
          match disk.read directory manifestFile with
          | none => .error (.message "read segment references")
          | some (.bytes _) => .error .malformed
          | some (.text _) => .error .malformed
          | some (.manifest parsed) =>
              if parsed.version ≠ 1 then
                .error (.message
                  ("unsupported segment-reference version " ++ toString parsed.version))
              else if parsed.files.entries.all fun entry => safeReference entry.1 entry.2 then
                .ok (some parsed)
              else .error (.message "invalid shared-segment reference")

/-- Put a manifest in place, and the format marker unless there is one. -/
def write (manifest : Manifest) (directory : Location) (disk : Disk) : Disk :=
  let written := disk.create directory manifestFile (.manifest manifest)
  if (written.entry directory formatFile).isSome then written
  else written.create directory formatFile formatMarker

/-- Every reference passes the checks of `read`. -/
def Safe (manifest : Manifest) : Prop :=
  ∀ name owner, manifest.files.lookup name = some owner → safeReference name owner = true

theorem safe_empty : empty.Safe := by
  intro name owner h
  simp [empty] at h

theorem safe_iff_all {manifest : Manifest} :
    manifest.files.entries.all (fun entry => safeReference entry.1 entry.2) = true ↔
      manifest.Safe := by
  rw [List.all_eq_true]
  constructor
  · intro h name owner hlookup
    exact h ⟨name, owner⟩ (AList.mem_lookup_iff.mp hlookup)
  · rintro h ⟨name, owner⟩ hmem
    exact h name owner (AList.mem_lookup_iff.mpr hmem)

/-- What a successful `read` saw. -/
theorem read_eq_some {disk : Disk} {directory : Location} {manifest : Manifest} :
    read disk directory = .ok (some manifest) ↔
      disk.read directory formatFile = some formatMarker ∧
        disk.read directory manifestFile = some (.manifest manifest) ∧
        manifest.version = 1 ∧ manifest.Safe := by
  rw [← safe_iff_all]
  unfold read
  constructor
  · intro h
    split at h
    · cases h
    split at h
    · cases h
    next format hformat =>
    split at h
    · cases h
    next hmarker =>
    split at h
    · cases h
    · cases h
    · cases h
    next parsed hparsed =>
    split at h
    · cases h
    next hversion =>
    split at h
    · next hsafe =>
        cases h
        exact ⟨hformat.trans (congrArg some (not_not.mp hmarker)), hparsed, not_not.mp hversion,
          hsafe⟩
    · cases h
  · rintro ⟨hformat, hmanifest, hversion, hsafe⟩
    have hentry : (disk.entry directory formatFile).isNone = false := by
      unfold Files.FileTree.read at hformat
      cases hlookup : disk.entry directory formatFile with
      | none => simp [hlookup] at hformat
      | some file => rfl
    simp [hentry, hformat, hmanifest, hversion, hsafe]

variable {disk : Disk} {directory : Location} {manifest : Manifest}

theorem write_eq :
    manifest.write directory disk =
      if (disk.entry directory formatFile).isSome then
        disk.create directory manifestFile (.manifest manifest)
      else
        (disk.create directory manifestFile (.manifest manifest)).create directory formatFile
          formatMarker := by
  have hentry : (disk.create directory manifestFile (.manifest manifest)).entry directory
      formatFile = disk.entry directory formatFile := by
    rw [Files.FileTree.entry_create, if_neg]
    rintro ⟨-, h, -⟩
    exact absurd h (by decide)
  simp only [write, hentry]

/-- Writing a manifest touches no file besides the manifest and the format marker. -/
theorem entry_write {dir : Location} {name : Name}
    (h : dir ≠ directory ∨ (name ≠ manifestFile ∧ name ≠ formatFile)) :
    (manifest.write directory disk).entry dir name = disk.entry dir name := by
  have hmanifest : ¬ (dir = directory ∧ name = manifestFile ∧ directory ∈ disk.directories) := by
    rintro ⟨rfl, rfl, -⟩
    simp at h
  rw [write_eq]
  split
  · rw [Files.FileTree.entry_create, if_neg hmanifest]
  · rw [Files.FileTree.entry_create, if_neg, Files.FileTree.entry_create, if_neg hmanifest]
    rintro ⟨rfl, rfl, -⟩
    simp at h

theorem write_allocated (h : disk.Allocated) : (manifest.write directory disk).Allocated := by
  rw [write_eq]
  split
  · exact h.create
  · exact h.create.create

theorem write_content {file : Nat} (h : file < disk.fresh) :
    (manifest.write directory disk).content file = disk.content file := by
  rw [write_eq]
  split
  · exact Files.FileTree.content_create_of_lt h
  · rw [Files.FileTree.content_create_of_lt, Files.FileTree.content_create_of_lt h]
    rw [Files.FileTree.fresh_create]
    exact Nat.lt_succ_of_lt h

theorem write_fresh : disk.fresh ≤ (manifest.write directory disk).fresh := by
  rw [write_eq]
  split
  · simp
  · simp only [Files.FileTree.fresh_create]
    omega

theorem mem_directories_write (dir : Location) :
    dir ∈ (manifest.write directory disk).directories ↔ dir ∈ disk.directories := by
  rw [write_eq]
  split <;> simp

/-- A written manifest is the one that is read. -/
theorem read_write (hdirectory : directory ∈ disk.directories) :
    (manifest.write directory disk).read directory manifestFile = some (.manifest manifest) := by
  have hnames : manifestFile ≠ formatFile := by decide
  rw [write_eq]
  split
  · simp [Files.FileTree.read, Files.FileTree.entry_create, hdirectory]
  · simp [Files.FileTree.read, Files.FileTree.entry_create, hdirectory, hnames]

end Manifest

end Memex.Index
