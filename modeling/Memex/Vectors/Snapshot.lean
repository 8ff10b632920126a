import Mathlib.Data.Finset.Dedup
import Memex.Lib.FixedWidth

/-! # The vector index

`VectorIndex` of `vector.rs`: the ids it holds beside the index of `usearch`, the files that are
staged from it, and what opening checks of them. -/

namespace Memex.Vectors

abbrev Bytes := List UInt8

/-- What the program relies on of an index of `usearch`: its dimensions, the keys it holds, and what
a call leaves of them. A call may fail. -/
structure Usearch (I V : Type*) where
  create : Nat → I
  dimensions : I → Nat
  capacity : I → Nat
  keys : I → Finset UInt64
  reserve : I → Nat → Bool × I
  add : I → UInt64 → V → Bool × I
  remove : I → UInt64 → Bool × I
  dimensions_create : ∀ count, dimensions (create count) = count
  keys_create : ∀ count, keys (create count) = ∅
  dimensions_reserve : ∀ index count, dimensions (reserve index count).2 = dimensions index
  keys_reserve : ∀ index count, keys (reserve index count).2 = keys index
  dimensions_add : ∀ index id vector, dimensions (add index id vector).2 = dimensions index
  keys_add : ∀ index id vector, (add index id vector).1 = true →
    keys (add index id vector).2 = insert id (keys index)
  keys_add_failed : ∀ index id vector other, other ≠ id →
    (other ∈ keys (add index id vector).2 ↔ other ∈ keys index)
  dimensions_remove : ∀ index id, dimensions (remove index id).2 = dimensions index
  keys_remove : ∀ index id, (remove index id).1 = true →
    keys (remove index id).2 = (keys index).erase id
  keys_remove_failed : ∀ index id other, other ≠ id →
    (other ∈ keys (remove index id).2 ↔ other ∈ keys index)

/-- The order in which a set of ids is iterated. -/
structure Iteration where
  list : Finset UInt64 → List UInt64
  nodup : ∀ ids, (list ids).Nodup
  mem_list : ∀ ids id, id ∈ list ids ↔ id ∈ ids

theorem Iteration.toFinset_list (order : Iteration) (ids : Finset UInt64) :
    (order.list ids).toFinset = ids := by
  ext id
  rw [List.mem_toFinset, order.mem_list]

/-- An opened index. Where it lies is not part of it. -/
structure VectorIndex (I : Type*) where
  dims : Nat
  model : Option String
  index : I
  docIdSet : Finset UInt64
  needsBackfill : Bool

/-! ## Files -/

inductive FileOf (α : Type*)
  | missing
  | damaged
  | holds (content : α)

structure Metadata where
  dimensions : Nat
  model : Option String
  indexFile : String
  idsFile : String
  vectorCount : Option Nat
  deriving DecidableEq, Repr

/-- `usearch.index`, `doc_ids.bin` and `meta.json` of one directory. -/
structure Files (I : Type*) where
  index : FileOf I
  ids : FileOf Bytes
  metadata : FileOf Metadata

def Files.none {I : Type*} : Files I :=
  ⟨.missing, .missing, .missing⟩

inductive LoadError
  | notFound (file : String)
  | unreadable (file : String)
  | sidecarLength (length : Nat)
  | duplicateId (id : UInt64)
  | missingVectorCount
  | layout
  | dimensionMismatch (recorded actual : Nat)
  | countMismatch (recorded actual : Nat)
  | cardinalityMismatch (ids vectors : Nat)
  | identityMismatch
  deriving DecidableEq, Repr

def FileOf.load {α : Type*} (file : String) : FileOf α → Except LoadError α
  | .missing => .error (.notFound file)
  | .damaged => .error (.unreadable file)
  | .holds content => .ok content

def indexFile : String := "usearch.index"

def idsFile : String := "doc_ids.bin"

def metadataFile : String := "meta.json"

/-- The bytes `save_doc_ids` writes, for the ids in the order they are iterated. -/
def encodeDocIds (ids : List UInt64) : Bytes :=
  (ids.map fun id => FixedWidth.encode 8 id.toNat).flatten

def insertDocIds : List UInt64 → Finset UInt64 → Except LoadError (Finset UInt64)
  | [], ids => .ok ids
  | id :: rest, ids =>
      if id ∈ ids then .error (.duplicateId id) else insertDocIds rest (insert id ids)

/-- `decode_doc_ids`. -/
def decodeDocIds (bytes : Bytes) : Except LoadError (Finset UInt64) :=
  if bytes.length % 8 ≠ 0 then .error (.sidecarLength bytes.length)
  else
    insertDocIds
      ((FixedWidth.words 8 bytes).map fun word => UInt64.ofNat (FixedWidth.decode word)) ∅

def validateMetadataLayout (metadata : Metadata) : Except LoadError Unit :=
  if metadata.indexFile ≠ indexFile ∨ metadata.idsFile ≠ idsFile then .error .layout else .ok ()

/-- `load_storage_metadata`, for a generation or for the flat files of an older version. -/
def loadStorageMetadata (generation : Bool) (file : FileOf Metadata) :
    Except LoadError (Option Metadata) :=
  match generation, file with
  | false, .missing => .ok none
  | _, file =>
      match file.load metadataFile with
      | .error error => .error error
      | .ok metadata =>
          if generation && metadata.vectorCount.isNone then .error .missingVectorCount
          else (validateMetadataLayout metadata).map fun _ => some metadata

section Opening

variable {I V : Type*} (usearch : Usearch I V)

/-- What `validate_snapshot` checks of the metadata. -/
def validateMetadata (index : I) : Option Metadata → Except LoadError Unit
  | none => .ok ()
  | some metadata =>
      if metadata.dimensions ≠ usearch.dimensions index then
        .error (.dimensionMismatch metadata.dimensions (usearch.dimensions index))
      else if ∃ recorded ∈ metadata.vectorCount, recorded ≠ (usearch.keys index).card then
        .error (.countMismatch (metadata.vectorCount.getD 0) (usearch.keys index).card)
      else .ok ()

/-- `validate_snapshot`. -/
def validateSnapshot (index : I) (docIds : Finset UInt64) (metadata : Option Metadata) :
    Except LoadError Unit :=
  match validateMetadata usearch index metadata with
  | .error error => .error error
  | .ok () =>
      if docIds.card ≠ (usearch.keys index).card then
        .error (.cardinalityMismatch docIds.card (usearch.keys index).card)
      else if docIds ⊆ usearch.keys index then .ok ()
      else .error .identityMismatch

/-- What `open_from_storage` makes of the three contents it has read. -/
def snapshot (index : I) (docIds : Finset UInt64) (metadata : Option Metadata) :
    Except LoadError (VectorIndex I) :=
  (validateSnapshot usearch index docIds metadata).map fun _ =>
    { dims := usearch.dimensions index
      model := metadata.bind Metadata.model
      index
      docIdSet := docIds
      needsBackfill := false }

def loadDocIds (file : FileOf Bytes) : Except LoadError (Finset UInt64) :=
  match file.load idsFile with
  | .error error => .error error
  | .ok bytes => decodeDocIds bytes

/-- `open_from_storage` over a directory that nothing else changes. -/
def openFromStorage (generation : Bool) (files : Files I) : Except LoadError (VectorIndex I) :=
  match files.index.load indexFile with
  | .error error => .error error
  | .ok index =>
      match loadDocIds files.ids with
      | .error error => .error error
      | .ok docIds =>
          match loadStorageMetadata generation files.metadata with
          | .error error => .error error
          | .ok metadata => snapshot usearch index docIds metadata

/-- The metadata that `stage` writes. -/
def VectorIndex.metadata (vectors : VectorIndex I) : Metadata where
  dimensions := vectors.dims
  model := vectors.model
  indexFile := indexFile
  idsFile := idsFile
  vectorCount := some (usearch.keys vectors.index).card

/-- The files that `stage` writes. -/
def VectorIndex.files (order : Iteration) (vectors : VectorIndex I) : Files I where
  index := .holds vectors.index
  ids := .holds (encodeDocIds (order.list vectors.docIdSet))
  metadata := .holds (vectors.metadata usearch)

end Opening

/-! ## The sidecar -/

theorem insertDocIds_eq_ok_iff {listed : List UInt64} {ids result : Finset UInt64} :
    insertDocIds listed ids = .ok result ↔
      listed.Nodup ∧ (∀ id ∈ listed, id ∉ ids) ∧ result = ids ∪ listed.toFinset := by
  induction listed generalizing ids with
  | nil => simp [insertDocIds, eq_comm]
  | cons id rest ih =>
      rw [insertDocIds]
      split
      · next hid => simp [hid]
      · next hid =>
        rw [ih, List.nodup_cons]
        constructor
        · rintro ⟨hnodup, hfresh, rfl⟩
          refine ⟨⟨fun hmem => hfresh id hmem (Finset.mem_insert_self id ids), hnodup⟩, ?_, ?_⟩
          · intro other hother
            obtain rfl | hother := List.mem_cons.mp hother
            · exact hid
            · exact fun hmem => hfresh other hother (Finset.mem_insert_of_mem hmem)
          · rw [List.toFinset_cons, Finset.union_insert, Finset.insert_union]
        · rintro ⟨⟨hrest, hnodup⟩, hfresh, rfl⟩
          refine ⟨hnodup, ?_, ?_⟩
          · intro other hother hmem
            obtain rfl | hmem := Finset.mem_insert.mp hmem
            · exact hrest hother
            · exact hfresh other (List.mem_cons_of_mem id hother) hmem
          · rw [List.toFinset_cons, Finset.union_insert, Finset.insert_union]

theorem words_encodeDocIds (ids : List UInt64) :
    FixedWidth.words 8 (encodeDocIds ids) = ids.map fun id => FixedWidth.encode 8 id.toNat := by
  apply FixedWidth.words_flatten (by decide)
  intro word hmem
  obtain ⟨id, -, rfl⟩ := List.mem_map.mp hmem
  exact FixedWidth.length_encode 8 id.toNat

theorem ofNat_decode_encode (id : UInt64) :
    UInt64.ofNat (FixedWidth.decode (FixedWidth.encode 8 id.toNat)) = id := by
  rw [FixedWidth.decode_encode_of_lt id.toNat_lt]
  exact UInt64.ofNat_toNat

/-- The texts that are read as ids are those that were written from distinct ones. -/
theorem decodeDocIds_eq_ok_iff {bytes : Bytes} {ids : Finset UInt64} :
    decodeDocIds bytes = .ok ids ↔
      ∃ listed : List UInt64, listed.Nodup ∧ listed.toFinset = ids ∧
        bytes = encodeDocIds listed := by
  rw [decodeDocIds]
  constructor
  · intro h
    split at h
    · cases h
    · next hlength =>
      obtain ⟨hflatten, hwidth⟩ := FixedWidth.flatten_words (not_not.mp hlength)
      obtain ⟨hnodup, -, hids⟩ := insertDocIds_eq_ok_iff.mp h
      refine ⟨_, hnodup, by rw [hids, Finset.empty_union], ?_⟩
      have hwords : ∀ word ∈ FixedWidth.words 8 bytes,
          FixedWidth.encode 8 (UInt64.ofNat (FixedWidth.decode word)).toNat = word := by
        intro word hmem
        have hlt := FixedWidth.decode_lt word
        rw [hwidth word hmem] at hlt
        rw [UInt64.toNat_ofNat_of_lt' hlt]
        have hword := FixedWidth.encode_decode word
        rwa [hwidth word hmem] at hword
      have hmap := (List.map_congr_left hwords).trans (List.map_id _)
      rw [encodeDocIds, List.map_map]
      exact (hflatten.symm.trans (congrArg List.flatten hmap.symm))
  · rintro ⟨listed, hnodup, rfl, rfl⟩
    have hlength : (encodeDocIds listed).length % 8 = 0 := by
      rw [encodeDocIds, @FixedWidth.length_flatten_words _ 8]
      · exact Nat.mul_mod_left _ 8
      · intro word hmem
        obtain ⟨id, -, rfl⟩ := List.mem_map.mp hmem
        exact FixedWidth.length_encode 8 id.toNat
    have hids : (listed.map fun id => FixedWidth.encode 8 id.toNat).map
        (fun word => UInt64.ofNat (FixedWidth.decode word)) = listed := by
      rw [List.map_map]
      exact (List.map_congr_left fun id _ => ofNat_decode_encode id).trans (List.map_id _)
    rw [if_neg (not_not.mpr hlength), words_encodeDocIds, hids]
    exact insertDocIds_eq_ok_iff.mpr ⟨hnodup, by simp, by simp⟩

theorem decodeDocIds_encodeDocIds (order : Iteration) (ids : Finset UInt64) :
    decodeDocIds (encodeDocIds (order.list ids)) = .ok ids :=
  decodeDocIds_eq_ok_iff.mpr ⟨_, order.nodup ids, order.toFinset_list ids, rfl⟩

/-! ## What opening makes of staged files -/

section Staged

variable {I V : Type*} {usearch : Usearch I V}

/-- The ids are those the index holds, under the dimensions it has. -/
def VectorIndex.Consistent (usearch : Usearch I V) (vectors : VectorIndex I) : Prop :=
  vectors.dims = usearch.dimensions vectors.index ∧
    vectors.docIdSet = usearch.keys vectors.index

instance (vectors : VectorIndex I) : Decidable (vectors.Consistent usearch) :=
  inferInstanceAs (Decidable (_ ∧ _))

theorem validateMetadata_eq_ok_iff {index : I} {metadata : Option Metadata} :
    validateMetadata usearch index metadata = .ok () ↔
      ∀ found ∈ metadata, found.dimensions = usearch.dimensions index ∧
        ∀ recorded ∈ found.vectorCount, recorded = (usearch.keys index).card := by
  cases metadata with
  | none => simp [validateMetadata]
  | some metadata =>
      simp only [validateMetadata, Option.mem_some_iff, forall_eq']
      split
      · next h => simp [h]
      split
      · next h =>
        obtain ⟨recorded, hrecorded, hne⟩ := h
        simp only [reduceCtorEq, false_iff, not_and]
        exact fun _ hall => hne (hall recorded hrecorded)
      · next hdims h =>
        simp only [true_iff]
        refine ⟨not_not.mp hdims, fun recorded hrecorded => ?_⟩
        by_contra hne
        exact h ⟨recorded, hrecorded, hne⟩

theorem snapshot_eq_ok_iff {index : I} {docIds : Finset UInt64} {metadata : Option Metadata}
    {vectors : VectorIndex I} :
    snapshot usearch index docIds metadata = .ok vectors ↔
      validateMetadata usearch index metadata = .ok () ∧ docIds = usearch.keys index ∧
        vectors = ⟨usearch.dimensions index, metadata.bind Metadata.model, index, docIds,
          false⟩ := by
  rw [snapshot, validateSnapshot]
  cases validateMetadata usearch index metadata with
  | error error => simp [Except.map]
  | ok _ =>
      simp only [true_and]
      split
      · next h =>
        simp only [Except.map, reduceCtorEq, false_iff, not_and]
        exact fun heq => absurd (congrArg Finset.card heq) h
      split
      · next hcard hsubset =>
        have heq : docIds = usearch.keys index :=
          Finset.eq_of_subset_of_card_le hsubset (not_not.mp hcard).ge
        simp [Except.map, heq, eq_comm]
      · next h =>
        simp only [Except.map, reduceCtorEq, false_iff, not_and]
        exact fun heq => absurd heq.subset h

/-- What was staged opens exactly if it was consistent, as what it was. -/
theorem openFromStorage_files_iff (order : Iteration) (vectors opened : VectorIndex I) :
    openFromStorage usearch true (vectors.files usearch order) = .ok opened ↔
      vectors.Consistent usearch ∧ opened = { vectors with needsBackfill := false } := by
  have hmetadata : loadStorageMetadata true (.holds (vectors.metadata usearch)) =
      .ok (some (vectors.metadata usearch)) := by
    rw [loadStorageMetadata]
    · rfl
    · simp
  have hids : loadDocIds (.holds (encodeDocIds (order.list vectors.docIdSet))) =
      .ok vectors.docIdSet :=
    decodeDocIds_encodeDocIds order vectors.docIdSet
  simp only [openFromStorage, VectorIndex.files, FileOf.load, hids, hmetadata]
  rw [snapshot_eq_ok_iff, validateMetadata_eq_ok_iff]
  simp only [VectorIndex.metadata, Option.mem_some_iff, forall_eq', Option.bind_some]
  constructor
  · rintro ⟨⟨hdims, -⟩, hids, rfl⟩
    exact ⟨⟨hdims, hids⟩, by rw [hdims]⟩
  · rintro ⟨⟨hdims, hids⟩, rfl⟩
    exact ⟨⟨hdims, trivial⟩, hids, by rw [hdims]⟩

end Staged

end Memex.Vectors
