import Mathlib.Data.Finset.Basic
import Memex.Index.Storage

/-! # The shared directory

A staged generation reads the files it inherits from the segment store and keeps
what it writes in its own directory until publication moves it to the store. -/

namespace Memex.Index

open Files (FileTree)

/-- One opened generation: its own directory, the manifest, and what has been
created and deleted since the manifest was read. -/
structure View where
  path : Location
  manifest : Manifest
  created : Finset Name
  deleted : Finset Name
  sealed : Bool

namespace View

/-! ## Reading -/

/-- The stored file a reference names. -/
def sharedPath (disk : Disk) (owner : Owner) (name : Name) : Except IndexError Contents :=
  match disk.read (.owner owner) name with
  | none => .error .notFound
  | some contents => .ok contents

/-- What the local directory answers for a file. -/
def localRead (disk : Disk) (view : View) (path : Name) : Except IndexError Contents :=
  match disk.read view.path path with
  | none => .error (.fileDoesNotExist path)
  | some contents => .ok contents

/-- `SharedDirectory::get_file_handle` -/
def getFileHandle (disk : Disk) (view : View) (path : Name) : Except IndexError Contents :=
  match checkedName path with
  | .error error => .error error
  | .ok name =>
      if path ∈ view.deleted then .error (.fileDoesNotExist path)
      else if metadataFile path || path ∈ view.created then localRead disk view path
      else
        match view.manifest.files.lookup name with
        | none => .error (.fileDoesNotExist path)
        | some owner => sharedPath disk owner name

/-- `SharedDirectory::exists` -/
def fileExists (disk : Disk) (view : View) (path : Name) : Except IndexError Bool :=
  match checkedName path with
  | .error error => .error error
  | .ok name =>
      if path ∈ view.deleted then .ok false
      else if metadataFile path || path ∈ view.created then
        .ok (disk.entry view.path path).isSome
      else
        match view.manifest.files.lookup name with
        | none => .ok false
        | some owner => (sharedPath disk owner name).map fun _ => true

/-- `SharedDirectory::atomic_read` -/
def atomicRead (disk : Disk) (view : View) (path : Name) : Except IndexError Contents :=
  match checkedName path with
  | .error error => .error error
  | .ok _ => if metadataFile path then localRead disk view path else getFileHandle disk view path

/-! ## Writing -/

/-- The refusal of every write through a sealed generation. -/
def sealedError : IndexError := .permissionDenied "sealed generation"

/-- `SharedDirectory::delete` -/
def delete (disk : Disk) (view : View) (path : Name) : Except IndexError (Disk × View) :=
  match checkedName path with
  | .error error => .error error
  | .ok _ =>
      if view.sealed then .error sealedError
      else
        let removed := { view with
          created := view.created.erase path
          deleted := insert path view.deleted }
        if (disk.entry view.path path).isSome then .ok (disk.unlink view.path path, removed)
        else if path ∈ view.manifest.files then .ok (disk, removed)
        else .error (.fileDoesNotExist path)

/-- `SharedDirectory::open_write`, with the file the returned writer appends to. -/
def openWrite (disk : Disk) (view : View) (path : Name) :
    Except IndexError (Disk × View × Nat) :=
  match checkedName path with
  | .error error => .error error
  | .ok _ =>
      if view.sealed then .error sealedError
      else if (disk.entry view.path path).isSome then .error (.fileAlreadyExists path)
      else
        .ok (disk.create view.path path (.bytes []),
          { view with
            deleted := view.deleted.erase path
            created := insert path view.created },
          disk.fresh)

/-- `SharedDirectory::atomic_write` -/
def atomicWrite (disk : Disk) (view : View) (path : Name) (data : Bytes) :
    Except IndexError (Disk × View) :=
  match checkedName path with
  | .error error => .error error
  | .ok _ =>
      if view.sealed then .error sealedError
      else
        .ok (disk.create view.path path (.bytes data),
          { view with
            deleted := view.deleted.erase path
            created := if metadataFile path then view.created else insert path view.created })

/-- `SharedDirectory::reset` -/
def reset (disk : Disk) (view : View) : Disk × View :=
  let cleared := disk.retain view.path fun name => name = generationLeaseFile
  (Manifest.empty.write view.path cleared,
    { view with manifest := Manifest.empty, created := ∅, deleted := ∅ })

end View

/-! ## Moving files to the store -/

/-- Link a file into the store under its owner, or copy it where linking fails. A file
that is stored already must have the same content. -/
def adoptFile (owner : Owner) (name : Name) (source : Location) (linked : Bool) (disk : Disk) :
    Disk × Except IndexError Unit :=
  if !safeOwner owner then (disk, .error (.message "invalid segment owner"))
  else
    match disk.entry source name with
    | none => (disk, .error .notFound)
    | some file =>
        let disk := disk.createDirectory (.owner owner)
        match checkedName name with
        | .error error => (disk, .error error)
        | .ok name =>
            match disk.entry (.owner owner) name with
            | some target =>
                if disk.content target ≠ disk.content file then
                  (disk, .error (.message ("immutable segment collision at " ++
                    (Location.owner owner).display ++ "/" ++ name)))
                else (disk, .ok ())
            | none =>
                if linked then (disk.link (.owner owner) name file, .ok ())
                else (disk.create (.owner owner) name (disk.content file), .ok ())

namespace View

/-- The loop of `prepare_publication` over the committed files, with the manifest it
has built so far. `linked` tells for which names a hard link can be made. -/
def nextManifest (owner : Owner) (linked : Name → Bool) (view : View) :
    List Name → Disk → Manifest → Disk × Except IndexError Manifest
  | [], disk, next => (disk, .ok next)
  | path :: rest, disk, next =>
      if metadataFile path then nextManifest owner linked view rest disk next
      else
        match checkedName path with
        | .error error => (disk, .error error)
        | .ok name =>
            if path ∈ view.created then
              if (disk.entry view.path path).isNone then
                (disk, .error (.message ("new committed segment file is missing: " ++ path)))
              else
                match adoptFile owner path view.path (linked path) disk with
                | (disk, .error error) => (disk, .error error)
                | (disk, .ok ()) =>
                    nextManifest owner linked view rest disk
                      { next with files := next.files.insert name owner }
            else
              match view.manifest.files.lookup name with
              | some inherited =>
                  nextManifest owner linked view rest disk
                    { next with files := next.files.insert name inherited }
              | none => nextManifest owner linked view rest disk next

/-- `SharedDirectory::prepare_publication` -/
def preparePublication (owner : Owner) (committed : List Name) (linked : Name → Bool)
    (disk : Disk) (view : View) : Disk × Except IndexError View :=
  match nextManifest owner linked view committed disk Manifest.empty with
  | (disk, .error error) => (disk, .error error)
  | (disk, .ok next) => (next.write view.path disk, .ok { view with manifest := next })

/-- `SharedDirectory::seal_at` -/
def sealAt (path : Location) (disk : Disk) (view : View) : Except IndexError View :=
  if path ∈ disk.directories then
    .ok { view with path := path, sealed := true, created := ∅, deleted := ∅ }
  else .error .notFound

/-- `SharedDirectory::open` -/
def «open» (disk : Disk) (path : Location) (sealed : Bool) : Except IndexError (Option View) :=
  match Manifest.read disk path with
  | .error error => .error error
  | .ok none => .ok none
  | .ok (some manifest) =>
      if manifest.files.entries.all fun entry => (disk.entry (.owner entry.2) entry.1).isSome then
        .ok (some ⟨path, manifest, ∅, ∅, sealed⟩)
      else .error .notFound

/-- Adopt the committed files of a source that keeps its segments in its own directory. -/
def adoptLegacy (owner : Owner) (source : Location) (linked : Name → Bool) :
    List Name → Disk → Manifest → Disk × Except IndexError Manifest
  | [], disk, manifest => (disk, .ok manifest)
  | name :: rest, disk, manifest =>
      if metadataFile name || (disk.entry source name).isNone then
        adoptLegacy owner source linked rest disk manifest
      else
        match adoptFile owner name source (linked name) disk with
        | (disk, .error error) => (disk, .error error)
        | (disk, .ok ()) =>
            adoptLegacy owner source linked rest disk
              { manifest with files := manifest.files.insert name owner }

/-- Copy the metadata files a source has. -/
def copyMetadata (source destination : Location) (names : List Name) (disk : Disk) : Disk :=
  names.foldl (fun disk name =>
    match disk.read source name with
    | none => disk
    | some contents => disk.create destination name contents) disk

/-- The manifest a staging directory starts from. `committed` are the files that the
index in a source without a manifest lists as committed. -/
def inheritedManifest (owner : Owner) (source : Option Location) (committed : List Name)
    (linked : Name → Bool) (disk : Disk) : Disk × Except IndexError Manifest :=
  match source with
  | none => (disk, .ok Manifest.empty)
  | some source =>
      match Manifest.read disk source with
      | .error error => (disk, .error error)
      | .ok (some inherited) => (disk, .ok inherited)
      | .ok none => adoptLegacy owner source linked committed disk Manifest.empty

/-- `SharedDirectory::stage` -/
def stage (owner : Owner) (destination : Location) (source : Option Location)
    (committed : List Name) (linked : Name → Bool) (disk : Disk) :
    Disk × Except IndexError View :=
  match inheritedManifest owner source committed linked disk with
  | (disk, .error error) => (disk, .error error)
  | (disk, .ok manifest) =>
      let disk := match source with
        | none => disk
        | some source => copyMetadata source destination copiedMetadata disk
      let disk := manifest.write destination disk
      match View.open disk destination false with
      | .error error => (disk, .error error)
      | .ok none => (disk, .error (.message "missing staging manifest"))
      | .ok (some view) => (disk, .ok view)

end View

end Memex.Index
