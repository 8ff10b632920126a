import Memex.Sources.Json

/-! # Paths

A path as `std::path` compares it: whether it starts at the root, and its components. -/

namespace Memex.Memory

/-- Names hold no separator; `..` is a component, and `.` only in front of a relative path. -/
structure Path where
  isAbsolute : Bool
  names : List String
  deriving DecidableEq, Repr

namespace Path

/-- `Path::components` of a text. -/
def ofText (text : String) : Path :=
  let parts := (text.toList.splitOn '/').map String.ofList
  let names := parts.filter fun name => name ≠ "" && name ≠ "."
  if text.toList.head? = some '/' then ⟨true, names⟩
  else if parts.head? = some "." then ⟨false, "." :: names⟩
  else ⟨false, names⟩

def display (path : Path) : String :=
  (if path.isAbsolute then "/" else "") ++ "/".intercalate path.names

/-- A component that names an entry of a directory. -/
def isNormal (name : String) : Bool :=
  name ≠ ".." && name ≠ "."

/-- `Path::file_name` -/
def fileName (path : Path) : Option String :=
  path.names.getLast?.filter isNormal

/-- `Path::parent` -/
def parent (path : Path) : Option Path :=
  if path.names = [] then none else some { path with names := path.names.dropLast }

/-- `Path::file_stem` -/
def fileStem (path : Path) : Option String :=
  path.fileName.map Sources.fileStem

def push (path : Path) (name : String) : Path :=
  { path with names := path.names ++ [name] }

/-- `Path::join` -/
def join (path other : Path) : Path :=
  if other.isAbsolute then other
  else { path with names := path.names ++ other.names.filter (· ≠ ".") }

/-- `Path::starts_with` -/
def startsWith (path root : Path) : Bool :=
  path.isAbsolute = root.isAbsolute && root.names.isPrefixOf path.names

/-- What a component does to the names before it. -/
def normalizeStep (names : List String) (name : String) : List String :=
  if name = "." then names else if name = ".." then names.dropLast else names ++ [name]

def normalizeLexical (path : Path) : Path :=
  { path with names := path.names.foldl normalizeStep [] }

/-- The loop of `canonicalize_with_missing`: the cursor, its last name first, and the names behind
it. -/
def canonicalizeFrom (canonicalize : Path → Option Path) (path : Path) :
    List String → List String → Path
  | reversed, suffix =>
    match canonicalize { path with names := reversed.reverse }, reversed with
    | some canonical, _ =>
        normalizeLexical { canonical with names := canonical.names ++ suffix }
    | none, [] => normalizeLexical path
    | none, name :: rest =>
        if isNormal name then canonicalizeFrom canonicalize path rest (name :: suffix)
        else normalizeLexical path

/-- The canonical form of the longest part that exists, and the rest behind it. -/
def canonicalizeWithMissing (canonicalize : Path → Option Path) (path : Path) : Path :=
  canonicalizeFrom canonicalize path path.names.reverse []

end Path

end Memex.Memory
