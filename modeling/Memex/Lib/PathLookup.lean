import Mathlib.Data.List.Basic
import Mathlib.Data.List.Induction

/-! # Paths in a graph of directories

A file system names directories, files and symbolic links in its directories. A path is
followed from the root or from a current directory, one component after the other; a link is
replaced by its target, and only so many links are followed. -/

namespace PathLookup

/-- A component of a path. -/
inductive Component (ν : Type*) where
  | rootDir
  | curDir
  | parentDir
  | normal (name : ν)
deriving DecidableEq

/-- What a directory has under a name. -/
inductive Entry (ν ι : Type*) where
  | directory (node : ι)
  | file
  | link (target : List (Component ν))

/-- Directories with what they hold, the directory above each, and the topmost one. -/
structure FileSystem (ν ι : Type*) where
  root : ι
  parent : ι → ι
  entry : ι → ν → Option (Entry ν ι)

namespace FileSystem

variable {ν ι : Type*}

/-- Follow a path, where `follow` goes on at a link. What is left of the links that may be
followed comes back with the directory. -/
def walkWith (fs : FileSystem ν ι) (follow : ι → List (Component ν) → Option (Nat × ι))
    (links : Nat) : ι → List (Component ν) → Option (Nat × ι)
  | node, [] => some (links, node)
  | _, .rootDir :: rest => walkWith fs follow links fs.root rest
  | node, .curDir :: rest => walkWith fs follow links node rest
  | node, .parentDir :: rest => walkWith fs follow links (fs.parent node) rest
  | node, .normal name :: rest =>
    match fs.entry node name with
    | some (.directory child) => walkWith fs follow links child rest
    | some (.link target) => follow node (target ++ rest)
    | _ => none

/-- The directory that a path leads to from a directory, over so many links at most. -/
def walk (fs : FileSystem ν ι) : Nat → ι → List (Component ν) → Option (Nat × ι)
  | 0 => walkWith fs (fun _ _ => none) 0
  | links + 1 => walkWith fs (walk fs links) (links + 1)

/-- A path is followed in two parts. -/
theorem walkWith_append {fs : FileSystem ν ι} {links : Nat}
    {follow : ι → List (Component ν) → Option (Nat × ι)}
    {onward : Nat × ι → Option (Nat × ι)} {right : List (Component ν)}
    (hend : ∀ node, walkWith fs follow links node right = onward (links, node))
    (hfollow : ∀ node left, follow node (left ++ right) = (follow node left).bind onward)
    (node : ι) (left : List (Component ν)) :
    walkWith fs follow links node (left ++ right) =
      (walkWith fs follow links node left).bind onward := by
  induction left generalizing node with
  | nil => exact hend node
  | cons first rest ih =>
      cases first with
      | rootDir => exact ih fs.root
      | curDir => exact ih node
      | parentDir => exact ih (fs.parent node)
      | normal name =>
          rw [List.cons_append, walkWith, walkWith]
          cases fs.entry node name with
          | none => rfl
          | some entry =>
              cases entry with
              | directory child => exact ih child
              | file => rfl
              | link target =>
                  dsimp only
                  rw [← List.append_assoc]
                  exact hfollow node (target ++ rest)

theorem walk_append (fs : FileSystem ν ι) (links : Nat) (node : ι)
    (left right : List (Component ν)) :
    fs.walk links node (left ++ right) =
      (fs.walk links node left).bind fun reached => fs.walk reached.1 reached.2 right := by
  induction links generalizing node left with
  | zero => exact walkWith_append (fun _ => rfl) (fun _ _ => rfl) node left
  | succ links ih => exact walkWith_append (fun _ => rfl) ih node left

/-- The place of the file that a path names, a directory and a name in it, where a link in the
last component is followed. No file is named where a directory is. -/
def locate (fs : FileSystem ν ι) :
    Nat → Nat → ι → List (Component ν) → ν → Option (ι × ν)
  | fuel, links, node, parent, name =>
    match fs.walk links node parent with
    | none => none
    | some (left, dir) =>
      match fs.entry dir name with
      | none => some (dir, name)
      | some .file => some (dir, name)
      | some (.directory _) => none
      | some (.link target) =>
        match fuel, left, target.getLast? with
        | fuel + 1, left + 1, some (.normal targetName) =>
          locate fs fuel left dir target.dropLast targetName
        | _, _, _ => none

/-- A name that is no link names a file in the directory that the path leads to. -/
theorem locate_of_not_link {fs : FileSystem ν ι} {fuel links left : Nat} {node dir : ι}
    {parent : List (Component ν)} {name : ν}
    (hwalk : fs.walk links node parent = some (left, dir))
    (hlink : ∀ target, fs.entry dir name ≠ some (.link target)) {place : ι × ν}
    (h : fs.locate fuel links node parent name = some place) : place = (dir, name) := by
  rw [locate, hwalk] at h
  dsimp only at h
  cases hentry : fs.entry dir name with
  | none =>
      rw [hentry] at h
      exact (Option.some.inj h).symm
  | some entry =>
      rw [hentry] at h
      cases entry with
      | directory child => cases h
      | file => exact (Option.some.inj h).symm
      | link target => exact absurd hentry (hlink target)

end FileSystem

end PathLookup
