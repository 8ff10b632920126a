import Memex.Lib.Text
import Memex.Lib.Transitions
import Memex.Vectors.Snapshot

/-! # Publishing vectors

`stage`, `publish` and `open` of `vector.rs`, file by file: one writer at a time, which the ingest
lease admits and which may stop anywhere, and any number of readers. -/

namespace Memex.Vectors

/-! ## Names -/

/-- `unique_generation_name`. -/
def uniqueGenerationName (nanos pid sequence : Nat) : String :=
  "generation-" ++ toString nanos ++ "-" ++ toString pid ++ "-" ++ toString sequence

/-- The directory a generation is written in. -/
def temporaryName (generation : String) : String :=
  "." ++ generation ++ ".tmp"

/-- `is_safe_generation_name`: the path is one ordinary component. -/
def isSafeGenerationName (name : String) : Bool :=
  let parts := name.toList.splitOn '/'
  let named := parts.filter fun part => part ≠ [] && part ≠ ['.']
  !Text.startsWith name "/" && parts.head? ≠ some ['.'] && named.length = 1 &&
    named.head? ≠ some ['.', '.']

/-- The entries that `cleanup_inactive_generations` removes. -/
def isInactive (active name : String) : Bool :=
  name ≠ active && (Text.startsWith name "generation-" ||
    (Text.startsWith name ".generation-" && Text.endsWith name ".tmp"))

/-! ## The directory -/

structure Pointer where
  version : Nat
  generation : String
  deriving DecidableEq, Repr

/-- The files of an older version, or a generation. -/
inductive Storage
  | flat
  | generation (name : String)
  deriving DecidableEq, Repr

/-- `current.json`, the directories under `generations`, and the files beside them. -/
structure Disk (I : Type*) where
  pointer : Option Pointer
  entries : String → Option (Files I)
  flat : Files I

inductive FileName
  | index
  | ids
  | metadata
  deriving DecidableEq, Repr

section Files

variable {I V : Type*}

/-- One file is written as it stands in the others. -/
def Files.write (files source : Files I) : FileName → Files I
  | .index => { files with index := source.index }
  | .ids => { files with ids := source.ids }
  | .metadata => { files with metadata := source.metadata }

def Files.unlink (files : Files I) (file : FileName) : Files I :=
  files.write Files.none file

def Disk.filesAt (disk : Disk I) : Storage → Files I
  | .flat => disk.flat
  | .generation name => (disk.entries name).getD Files.none

def Disk.setEntry (disk : Disk I) (name : String) (files : Option (Files I)) : Disk I :=
  { disk with entries := Function.update disk.entries name files }

@[simp] theorem Disk.setEntry_self (disk : Disk I) (name : String) (files : Option (Files I)) :
    (disk.setEntry name files).entries name = files :=
  Function.update_self ..

theorem Disk.setEntry_of_ne (disk : Disk I) {name other : String} (h : other ≠ name)
    (files : Option (Files I)) : (disk.setEntry name files).entries other = disk.entries other :=
  Function.update_of_ne h ..

def FileOf.present {α : Type*} : FileOf α → Bool
  | .missing => false
  | _ => true

/-! ## Readers -/

inductive OpenError
  | notFound
  | invalidPointer
  | load (error : LoadError)
  deriving DecidableEq, Repr

/-- Where an `open` has got to. A failed load is kept while the pointer is read again. -/
inductive Reader (I : Type*)
  | idle
  | pointing (failed : Option (Storage × LoadError))
  | probing (failed : Option (Storage × LoadError))
  | loading (storage : Storage)
  | loaded (storage : Storage) (index : I)
  | listed (storage : Storage) (index : I) (docIds : Finset UInt64)
  | described (index : I) (docIds : Finset UInt64)
  | closed (result : Except OpenError (VectorIndex I))

/-- What `open_active_snapshot` does with the active storage: it retries only if the pointer has
changed. -/
def resolve : Option (Storage × LoadError) → Option Storage → Reader I
  | _, none => .closed (.error .notFound)
  | none, some storage => .loading storage
  | some (old, error), some storage =>
      if storage = old then .closed (.error (.load error)) else .loading storage

/-- The end of a load. -/
def finish (storage : Storage) : Except LoadError (VectorIndex I) → Reader I
  | .ok vectors => .closed (.ok vectors)
  | .error error => .pointing (some (storage, error))

/-- The first read of `active_storage`. -/
def readPointer (failed : Option (Storage × LoadError)) : Option Pointer → Reader I
  | none => .probing failed
  | some pointer =>
      if pointer.version ≠ 1 || !isSafeGenerationName pointer.generation then
        .closed (.error .invalidPointer)
      else resolve failed (some (.generation pointer.generation))

variable (usearch : Usearch I V)

/-- The metadata of a generation is read at once; that of the flat files only if it is there. -/
def readMetadata (storage : Storage) (index : I) (docIds : Finset UInt64)
    (file : FileOf Metadata) : Reader I :=
  match storage with
  | .generation name =>
      finish (.generation name) ((loadStorageMetadata true file).bind fun metadata =>
        snapshot usearch index docIds metadata)
  | .flat =>
      if file.present then .described index docIds
      else finish .flat (snapshot usearch index docIds none)

/-- One read of a reader; none when there is nothing to read. -/
def Reader.read (disk : Disk I) : Reader I → Option (Reader I)
  | .idle => none
  | .pointing failed => some (readPointer failed disk.pointer)
  | .probing failed =>
      some (resolve failed (if disk.flat.index.present then some .flat else none))
  | .loading storage =>
      match (disk.filesAt storage).index.load indexFile with
      | .error error => some (.pointing (some (storage, error)))
      | .ok index => some (.loaded storage index)
  | .loaded storage index =>
      match loadDocIds (disk.filesAt storage).ids with
      | .error error => some (.pointing (some (storage, error)))
      | .ok docIds => some (.listed storage index docIds)
  | .listed storage index docIds =>
      some (readMetadata usearch storage index docIds (disk.filesAt storage).metadata)
  | .described index docIds =>
      match disk.flat.metadata.load metadataFile with
      | .error error => some (.pointing (some (.flat, error)))
      | .ok metadata =>
          some (finish .flat ((validateMetadataLayout metadata).bind fun _ =>
            snapshot usearch index docIds (some metadata)))
  | .closed _ => none

end Files

/-! ## The writer -/

/-- Where the one writer has got to. -/
inductive Writer (I : Type*)
  | idle
  | staging (generation : String) (vectors : VectorIndex I)
  | staged (generation : String)
  | dropping (generation : String)
  | published (generation : String)

/-- The directory, the writer and the readers. No step reads the history: the names that were drawn,
what was moved into place under each, and the names that were published, the latest first. -/
structure Store (I R : Type*) where
  disk : Disk I
  writer : Writer I
  readers : R → Reader I
  drawn : List String
  staged : String → Option (Files I)
  published : List String

inductive Step (I R : Type*)
  | begin (nanos pid sequence : Nat) (vectors : VectorIndex I)
  | write (file : FileName)
  | move
  | publish
  | drop
  | unlink (entry : String) (file : FileName)
  | removeDirectory (entry : String)
  | unlinkFlat (file : FileName)
  | stop (left : Option (Files I))
  | openStore (reader : R)
  | read (reader : R)

/-- An entry that the writer removes: of the generation it drops, or an inactive one once it has
published. -/
def Writer.removes {I : Type*} (entry : String) : Writer I → Bool
  | .dropping generation => entry = generation
  | .published generation => isInactive generation entry
  | _ => false

namespace Store

variable {I V R : Type*} [DecidableEq R] (usearch : Usearch I V) (order : Iteration)

def initial (flat : Files I) : Store I R where
  disk := ⟨none, fun _ => none, flat⟩
  writer := .idle
  readers _ := .idle
  drawn := []
  staged _ := none
  published := []

/-- The directory is made under a name that was not drawn before. -/
def begin (store : Store I R) (generation : String) (vectors : VectorIndex I) :
    Option (Store I R) :=
  match store.writer with
  | .idle =>
      if generation ∈ store.drawn then none
      else
        some
          { store with
            disk := store.disk.setEntry (temporaryName generation) (some Files.none)
            writer := .staging generation vectors
            drawn := generation :: store.drawn }
  | _ => none

def write (store : Store I R) (file : FileName) : Option (Store I R) :=
  match store.writer with
  | .staging generation vectors =>
      some
        { store with
          disk := store.disk.setEntry (temporaryName generation)
            ((store.disk.entries (temporaryName generation)).map fun files =>
              files.write (vectors.files usearch order) file) }
  | _ => none

/-- The end of `stage`: the files are moved into place once they open. -/
def move (store : Store I R) : Option (Store I R) :=
  match store.writer with
  | .staging generation _ =>
      match store.disk.entries (temporaryName generation) with
      | none => none
      | some files =>
          match openFromStorage usearch true files with
          | .error _ => none
          | .ok _ =>
              some
                { store with
                  disk := (store.disk.setEntry generation (some files)).setEntry
                    (temporaryName generation) none
                  writer := .staged generation
                  staged := Function.update store.staged generation (some files) }
  | _ => none

def publish (store : Store I R) : Option (Store I R) :=
  match store.writer with
  | .staged generation =>
      some
        { store with
          disk := { store.disk with pointer := some ⟨1, generation⟩ }
          writer := .published generation
          published := generation :: store.published }
  | _ => none

/-- A generation that is not published is removed again. -/
def drop (store : Store I R) : Option (Store I R) :=
  match store.writer with
  | .staged generation => some { store with writer := .dropping generation }
  | _ => none

def setEntry (store : Store I R) (entry : String) (files : Option (Files I)) :
    Option (Store I R) :=
  if store.writer.removes entry then some { store with disk := store.disk.setEntry entry files }
  else none

/-- `cleanup_legacy_files`. -/
def unlinkFlat (store : Store I R) (file : FileName) : Option (Store I R) :=
  match store.writer with
  | .published _ =>
      some { store with disk := { store.disk with flat := store.disk.flat.unlink file } }
  | _ => none

/-- The writer stops, at an error or anywhere else. It leaves anything in the directory it was
writing. -/
def stop (store : Store I R) (left : Option (Files I)) : Option (Store I R) :=
  match store.writer with
  | .idle => none
  | .staging generation _ =>
      some
        { store with
          disk := store.disk.setEntry (temporaryName generation) left
          writer := .idle }
  | _ => some { store with writer := .idle }

def setReader (store : Store I R) (reader : R) (next : Reader I) : Store I R :=
  { store with readers := Function.update store.readers reader next }

theorem setReader_self (store : Store I R) (reader : R) (next : Reader I) :
    (store.setReader reader next).readers reader = next :=
  Function.update_self ..

theorem setReader_of_ne (store : Store I R) {reader other : R} (h : other ≠ reader)
    (next : Reader I) : (store.setReader reader next).readers other = store.readers other :=
  Function.update_of_ne h ..

def openStore (store : Store I R) (reader : R) : Option (Store I R) :=
  match store.readers reader with
  | .idle => some (store.setReader reader (.pointing none))
  | _ => none

def step (store : Store I R) : Step I R → Option (Store I R)
  | .begin nanos pid sequence vectors =>
      store.begin (uniqueGenerationName nanos pid sequence) vectors
  | .write file => store.write usearch order file
  | .move => store.move usearch
  | .publish => store.publish
  | .drop => store.drop
  | .unlink entry file =>
      store.setEntry entry ((store.disk.entries entry).map fun files => files.unlink file)
  | .removeDirectory entry => store.setEntry entry none
  | .unlinkFlat file => store.unlinkFlat file
  | .stop left => store.stop left
  | .openStore reader => store.openStore reader
  | .read reader =>
      ((store.readers reader).read usearch store.disk).map fun next => store.setReader reader next

end Store

end Memex.Vectors
