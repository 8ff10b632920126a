import Mathlib.Data.Finset.Sort
import Memex.Vectors.Snapshot

/-! # Editing the vector index

`add`, `retain_doc_ids` and `remove_doc_ids` of `vector.rs`, whose calls of `usearch` may fail
halfway, and what is staged behind any run of them. -/

namespace Memex.Vectors

variable {I V : Type*} (usearch : Usearch I V) (length : V → Nat) (order : Iteration)

inductive EditError
  | dimensionMismatch (expected got : Nat)
  | usearch (id : UInt64)
  deriving DecidableEq, Repr

/-- `VectorIndex::empty`, or none where no room is reserved. -/
def VectorIndex.empty (dims : Nat) (model : Option String) : Option (VectorIndex I) :=
  let (reserved, index) := usearch.reserve (usearch.create dims) 10000
  if reserved then some { dims, model, index, docIdSet := ∅, needsBackfill := true } else none

namespace VectorIndex

/-- The index with room for one more vector, unless there is none to get. -/
def makeRoom (index : I) : Bool × I :=
  if (usearch.keys index).card ≥ usearch.capacity index then
    usearch.reserve index (max (usearch.capacity index * 2) 10000)
  else (true, index)

/-- `VectorIndex::add`. The id stays in the set when a call fails. -/
def add (vectors : VectorIndex I) (id : UInt64) (embedding : V) :
    Except EditError Unit × VectorIndex I :=
  if length embedding ≠ vectors.dims then
    (.error (.dimensionMismatch vectors.dims (length embedding)), vectors)
  else if id ∈ vectors.docIdSet then (.ok (), vectors)
  else
    let docIdSet := insert id vectors.docIdSet
    let (reserved, index) := makeRoom usearch vectors.index
    if reserved then
      let (added, index) := usearch.add index id embedding
      (if added then .ok () else .error (.usearch id), { vectors with docIdSet, index })
    else (.error (.usearch id), { vectors with docIdSet, index })

/-- The loop of `retain_doc_ids`: an id leaves the set when its vector is removed. -/
def dropAll : List UInt64 → VectorIndex I → Except EditError Unit × VectorIndex I
  | [], vectors => (.ok (), vectors)
  | id :: rest, vectors =>
      let (removed, index) := usearch.remove vectors.index id
      if removed then
        dropAll rest { vectors with index, docIdSet := vectors.docIdSet.erase id }
      else (.error (.usearch id), { vectors with index })

/-- `VectorIndex::retain_doc_ids`. -/
def retainDocIds (vectors : VectorIndex I) (retained : Finset UInt64) :
    Except EditError Unit × VectorIndex I :=
  dropAll usearch (order.list (vectors.docIdSet \ retained)) vectors

/-- The loop of `remove_doc_ids`: an id has left the set before its vector is removed. -/
def removeAll : List UInt64 → VectorIndex I → Except EditError Unit × VectorIndex I
  | [], vectors => (.ok (), vectors)
  | id :: rest, vectors =>
      if id ∈ vectors.docIdSet then
        let docIdSet := vectors.docIdSet.erase id
        let (removed, index) := usearch.remove vectors.index id
        if removed then removeAll rest { vectors with index, docIdSet }
        else (.error (.usearch id), { vectors with index, docIdSet })
      else removeAll rest vectors

/-- `VectorIndex::remove_doc_ids`. -/
def removeDocIds (vectors : VectorIndex I) (docIds : Finset UInt64) :
    Except EditError Unit × VectorIndex I :=
  removeAll usearch (order.list docIds) vectors

end VectorIndex

/-! ## One edit -/

inductive Edit (V : Type*)
  | add (id : UInt64) (embedding : V)
  | retain (retained : Finset UInt64)
  | remove (docIds : Finset UInt64)

def VectorIndex.edit (vectors : VectorIndex I) : Edit V → Except EditError Unit × VectorIndex I
  | .add id embedding => vectors.add usearch length id embedding
  | .retain retained => vectors.retainDocIds usearch order retained
  | .remove docIds => vectors.removeDocIds usearch order docIds

/-- What an edit makes of the set of ids when no call fails. -/
def Edit.ids (dims : Nat) : Edit V → Finset UInt64 → Finset UInt64
  | .add id embedding, ids => if length embedding = dims then insert id ids else ids
  | .retain retained, ids => ids ∩ retained
  | .remove docIds, ids => ids \ docIds

/-- The id at which a call failed. -/
def failedId : Except EditError Unit → Option UInt64
  | .error (.usearch id) => some id
  | _ => none

namespace VectorIndex

variable {usearch length order}

/-- The ids are those the index holds, but for some. -/
structure Agrees (usearch : Usearch I V) (excepted : List UInt64) (vectors : VectorIndex I) :
    Prop where
  dims : vectors.dims = usearch.dimensions vectors.index
  ids : ∀ id ∉ excepted, (id ∈ vectors.docIdSet ↔ id ∈ usearch.keys vectors.index)

theorem Consistent.agrees {vectors : VectorIndex I} (h : vectors.Consistent usearch) :
    vectors.Agrees usearch [] :=
  ⟨h.1, fun id _ => by rw [h.2]⟩

/-- What an edit leaves: the sides differ at most where they did and where a call failed, and the
set of ids is the expected one unless a call failed. -/
structure Leaves (usearch : Usearch I V) (excepted : List UInt64) (vectors : VectorIndex I)
    (expected : Finset UInt64) (outcome : Except EditError Unit × VectorIndex I) : Prop where
  agrees : outcome.2.Agrees usearch (excepted ++ (failedId outcome.1).toList)
  dims : outcome.2.dims = vectors.dims
  ids : failedId outcome.1 = none → outcome.2.docIdSet = expected

variable {excepted : List UInt64} {vectors : VectorIndex I}

theorem Leaves.of_done {expected : Finset UInt64} {result : Except EditError Unit}
    {next : VectorIndex I} (hresult : failedId result = none)
    (hagrees : next.Agrees usearch excepted) (hdims : next.dims = vectors.dims)
    (hids : next.docIdSet = expected) : Leaves usearch excepted vectors expected (result, next) :=
  ⟨by simpa [hresult] using hagrees, hdims, fun _ => hids⟩

theorem Leaves.of_failed {expected : Finset UInt64} {id : UInt64} {next : VectorIndex I}
    (hagrees : next.Agrees usearch (excepted ++ [id])) (hdims : next.dims = vectors.dims) :
    Leaves usearch excepted vectors expected (.error (.usearch id), next) :=
  ⟨hagrees, hdims, fun hnone => by cases hnone⟩

theorem makeRoom_keys (index : I) :
    usearch.dimensions (makeRoom usearch index).2 = usearch.dimensions index ∧
      usearch.keys (makeRoom usearch index).2 = usearch.keys index := by
  rw [makeRoom]
  split
  · exact ⟨usearch.dimensions_reserve _ _, usearch.keys_reserve _ _⟩
  · exact ⟨rfl, rfl⟩

theorem leaves_add (h : vectors.Agrees usearch excepted) (id : UInt64) (embedding : V) :
    Leaves usearch excepted vectors
      (if length embedding = vectors.dims then insert id vectors.docIdSet else vectors.docIdSet)
      (vectors.add usearch length id embedding) := by
  obtain ⟨hroomDims, hroomKeys⟩ := @makeRoom_keys _ _ usearch vectors.index
  rw [add]
  by_cases hlength : length embedding = vectors.dims
  · rw [if_neg (not_not.mpr hlength), if_pos hlength]
    by_cases hknown : id ∈ vectors.docIdSet
    · rw [if_pos hknown]
      exact .of_done rfl h rfl (Finset.insert_eq_of_mem hknown).symm
    rw [if_neg hknown]
    generalize makeRoom usearch vectors.index = room at hroomDims hroomKeys ⊢
    obtain ⟨reserved, index⟩ := room
    simp only at hroomDims hroomKeys ⊢
    have hothers : ∀ other, other ∉ excepted ++ [id] →
        (other ∈ insert id vectors.docIdSet ↔ other ∈ usearch.keys index) ∧ other ≠ id := by
      intro other hother
      rw [List.mem_append, List.mem_singleton, not_or] at hother
      rw [Finset.mem_insert, hroomKeys, h.ids other hother.1]
      simp [hother.2]
    cases reserved with
    | false =>
        exact .of_failed ⟨h.dims.trans hroomDims.symm, fun other hother => (hothers other hother).1⟩
          rfl
    | true =>
        rw [if_pos rfl]
        have hdims := (h.dims.trans hroomDims.symm).trans
          (usearch.dimensions_add index id embedding).symm
        by_cases hadded : (usearch.add index id embedding).1 = true
        · rw [if_pos hadded]
          refine .of_done rfl ⟨hdims, fun other hother => ?_⟩ rfl rfl
          rw [usearch.keys_add _ _ _ hadded, Finset.mem_insert, Finset.mem_insert, hroomKeys,
            h.ids other hother]
        · rw [if_neg hadded]
          refine .of_failed ⟨hdims, fun other hother => ?_⟩ rfl
          obtain ⟨hiff, hne⟩ := hothers other hother
          rw [usearch.keys_add_failed _ _ _ _ hne]
          exact hiff
  · rw [if_pos hlength, if_neg hlength]
    exact .of_done rfl h rfl rfl

/-- One id and its vector leave, or the call fails at it. -/
theorem agrees_remove (h : vectors.Agrees usearch excepted) (id : UInt64) {docIdSet : Finset UInt64}
    (hids : docIdSet = vectors.docIdSet.erase id ∨ docIdSet = vectors.docIdSet) :
    ((usearch.remove vectors.index id).1 = true → docIdSet = vectors.docIdSet.erase id →
        Agrees usearch excepted
          { vectors with index := (usearch.remove vectors.index id).2, docIdSet }) ∧
      Agrees usearch (excepted ++ [id])
        { vectors with index := (usearch.remove vectors.index id).2, docIdSet } := by
  have hdims := h.dims.trans (usearch.dimensions_remove vectors.index id).symm
  constructor
  · rintro hremoved rfl
    refine ⟨hdims, fun other hother => ?_⟩
    rw [usearch.keys_remove _ _ hremoved, Finset.mem_erase, Finset.mem_erase, h.ids other hother]
  · refine ⟨hdims, fun other hother => ?_⟩
    rw [List.mem_append, List.mem_singleton, not_or] at hother
    rw [usearch.keys_remove_failed _ _ _ hother.2, ← h.ids other hother.1]
    rcases hids with rfl | rfl
    · simp [hother.2]
    · rfl

theorem leaves_dropAll (listed : List UInt64) (h : vectors.Agrees usearch excepted) :
    Leaves usearch excepted vectors (vectors.docIdSet \ listed.toFinset)
      (dropAll usearch listed vectors) := by
  induction listed generalizing vectors with
  | nil => exact .of_done rfl h rfl (by simp)
  | cons id rest ih =>
      rw [dropAll]
      simp only
      split
      · next hremoved =>
        obtain ⟨hagrees, hdims, hids⟩ :=
          ih ((agrees_remove h id (Or.inl rfl)).1 hremoved rfl)
        refine ⟨hagrees, hdims, fun hfailed => (hids hfailed).trans ?_⟩
        rw [List.toFinset_cons, Finset.sdiff_insert, Finset.erase_sdiff_comm]
      · exact .of_failed (agrees_remove h id (Or.inr rfl)).2 rfl

theorem leaves_removeAll (listed : List UInt64) (h : vectors.Agrees usearch excepted) :
    Leaves usearch excepted vectors (vectors.docIdSet \ listed.toFinset)
      (removeAll usearch listed vectors) := by
  induction listed generalizing vectors with
  | nil => exact .of_done rfl h rfl (by simp)
  | cons id rest ih =>
      rw [removeAll]
      split
      · simp only
        split
        · next hremoved =>
          obtain ⟨hagrees, hdims, hids⟩ :=
            ih ((agrees_remove h id (Or.inl rfl)).1 hremoved rfl)
          refine ⟨hagrees, hdims, fun hfailed => (hids hfailed).trans ?_⟩
          rw [List.toFinset_cons, Finset.sdiff_insert, Finset.erase_sdiff_comm]
        · exact .of_failed (agrees_remove h id (Or.inl rfl)).2 rfl
      · next hunknown =>
        obtain ⟨hagrees, hdims, hids⟩ := ih h
        refine ⟨hagrees, hdims, fun hfailed => (hids hfailed).trans ?_⟩
        rw [List.toFinset_cons, Finset.sdiff_insert_of_notMem hunknown]

theorem leaves_edit (h : vectors.Agrees usearch excepted) (edit : Edit V) :
    Leaves usearch excepted vectors (edit.ids length vectors.dims vectors.docIdSet)
      (vectors.edit usearch length order edit) := by
  cases edit with
  | add id embedding => exact leaves_add h id embedding
  | retain retained =>
      have hleaves := leaves_dropAll (order.list (vectors.docIdSet \ retained)) h
      rwa [order.toFinset_list, sdiff_sdiff_right_self] at hleaves
  | remove docIds =>
      have hleaves := leaves_removeAll (order.list docIds) h
      rwa [order.toFinset_list] at hleaves

end VectorIndex

/-! ## Runs of edits -/

/-- Edits one after another, with the ids at which calls failed. -/
def runEdits : List (Edit V) → VectorIndex I → List UInt64 × VectorIndex I
  | [], vectors => ([], vectors)
  | edit :: rest, vectors =>
      let (result, next) := vectors.edit usearch length order edit
      let (failed, final) := runEdits rest next
      ((failedId result).toList ++ failed, final)

/-- What the edits make of the set of ids when no call fails. -/
def editedIds (dims : Nat) (edits : List (Edit V)) (ids : Finset UInt64) : Finset UInt64 :=
  edits.foldl (fun ids edit => edit.ids length dims ids) ids

theorem agrees_runEdits (edits : List (Edit V)) {excepted : List UInt64} {vectors : VectorIndex I}
    (h : vectors.Agrees usearch excepted) :
    let outcome := runEdits usearch length order edits vectors
    outcome.2.Agrees usearch (excepted ++ outcome.1) ∧ outcome.2.dims = vectors.dims ∧
      (outcome.1 = [] →
        outcome.2.docIdSet = editedIds length vectors.dims edits vectors.docIdSet) := by
  induction edits generalizing excepted vectors with
  | nil => exact ⟨by simpa [runEdits] using h, rfl, fun _ => rfl⟩
  | cons edit rest ih =>
      have hedit : VectorIndex.Leaves usearch excepted vectors
          (edit.ids length vectors.dims vectors.docIdSet)
          (vectors.edit usearch length order edit) := VectorIndex.leaves_edit h edit
      obtain ⟨hagrees, hdims, hids⟩ := hedit
      obtain ⟨hfinal, hfinalDims, hfinalIds⟩ := ih hagrees
      simp only [runEdits]
      refine ⟨?_, hfinalDims.trans hdims, fun hfailed => ?_⟩
      · rwa [← List.append_assoc]
      · obtain ⟨hnone, hrest⟩ := List.append_eq_nil_iff.mp hfailed
        have hresult : failedId (vectors.edit usearch length order edit).1 = none := by
          simpa using hnone
        rw [hfinalIds hrest, hids hresult, hdims]
        rfl

/-- After any run of edits, what is staged opens exactly if no failed call has left an id without
its vector or a vector without its id; if no call has failed it opens, with the ids that the edits
ask for. -/
theorem staged_edits_open (edits : List (Edit V)) {vectors : VectorIndex I}
    (h : vectors.Consistent usearch) :
    let failed := (runEdits usearch length order edits vectors).1
    let final := (runEdits usearch length order edits vectors).2
    (∀ opened, openFromStorage usearch true (final.files usearch order) = .ok opened ↔
        (∀ id ∈ failed, (id ∈ final.docIdSet ↔ id ∈ usearch.keys final.index)) ∧
          opened = { final with needsBackfill := false }) ∧
      (failed = [] →
        openFromStorage usearch true (final.files usearch order) =
            .ok { final with needsBackfill := false } ∧
          final.docIdSet = editedIds length vectors.dims edits vectors.docIdSet) := by
  obtain ⟨hagrees, -, hids⟩ := agrees_runEdits usearch length order edits h.agrees
  intro failed final
  have hconsistent : final.Consistent usearch ↔
      ∀ id ∈ failed, (id ∈ final.docIdSet ↔ id ∈ usearch.keys final.index) := by
    constructor
    · intro hfinal id _
      rw [hfinal.2]
    · intro hfailed
      refine ⟨hagrees.dims, Finset.ext fun id => ?_⟩
      by_cases hid : id ∈ failed
      · exact hfailed id hid
      · exact hagrees.ids id (by simpa using hid)
  constructor
  · intro opened
    rw [openFromStorage_files_iff, hconsistent]
  · intro hnone
    refine ⟨(openFromStorage_files_iff order final _).mpr ⟨?_, rfl⟩, hids hnone⟩
    exact hconsistent.mpr fun id hid => by simp [hnone] at hid

theorem consistent_empty {dims : Nat} {model : Option String} {vectors : VectorIndex I}
    (h : VectorIndex.empty usearch dims model = some vectors) : vectors.Consistent usearch := by
  rw [VectorIndex.empty] at h
  obtain ⟨-, heq⟩ := Option.ite_none_right_eq_some.mp h
  obtain rfl := Option.some.inj heq
  constructor
  · exact (usearch.dimensions_create dims).symm.trans (usearch.dimensions_reserve _ _).symm
  · exact (usearch.keys_create dims).symm.trans (usearch.keys_reserve _ _).symm

/-! An index that keeps its keys in a set, refuses a key it has and cannot remove the key 7; ids are
iterated from the lowest. -/

def plainUsearch : Usearch (Nat × Finset UInt64) (List Int) where
  create dims := (dims, ∅)
  dimensions := Prod.fst
  capacity _ := 10000
  keys := Prod.snd
  reserve index _ := (true, index)
  add index id _ := (decide (id ∉ index.2), (index.1, insert id index.2))
  remove index id := if id = 7 then (false, index) else (true, (index.1, index.2.erase id))
  dimensions_create _ := rfl
  keys_create _ := rfl
  dimensions_reserve _ _ := rfl
  keys_reserve _ _ := rfl
  dimensions_add _ _ _ := rfl
  keys_add _ _ _ _ := rfl
  keys_add_failed _ _ _ _ h := by simp [h]
  dimensions_remove index id := by split <;> rfl
  keys_remove index id h := by
    split at h
    · cases h
    next hid => rw [if_neg hid]
  keys_remove_failed index id other h := by
    split
    · rfl
    · simp [h]

def ascending : Iteration where
  list ids := (ids.image UInt64.toNat).sort.map UInt64.ofNat
  nodup ids := by
    apply List.Nodup.map_on _ (Finset.sort_nodup _ _)
    intro left hleft right hright h
    obtain ⟨leftId, -, rfl⟩ := Finset.mem_image.mp ((Finset.mem_sort _).mp hleft)
    obtain ⟨rightId, -, rfl⟩ := Finset.mem_image.mp ((Finset.mem_sort _).mp hright)
    rw [UInt64.ofNat_toNat, UInt64.ofNat_toNat] at h
    rw [h]
  mem_list ids id := by
    simp only [List.mem_map, Finset.mem_sort, Finset.mem_image]
    constructor
    · rintro ⟨_, ⟨other, hother, rfl⟩, rfl⟩
      rwa [UInt64.ofNat_toNat]
    · exact fun hid => ⟨_, ⟨id, hid, rfl⟩, UInt64.ofNat_toNat⟩

/-- An index without vectors. -/
def noVectors : VectorIndex (Nat × Finset UInt64) where
  dims := 2
  model := none
  index := (2, ∅)
  docIdSet := ∅
  needsBackfill := true

theorem consistent_noVectors : noVectors.Consistent plainUsearch :=
  consistent_empty plainUsearch
    (show VectorIndex.empty plainUsearch 2 none = some noVectors from rfl)

/-- The last call fails when the id is out of the set already. -/
def failingEdits : List (Edit (List Int)) :=
  [.add 1 [3, 4], .add 7 [5, 6], .remove {7}]

theorem ascending_seven : ascending.list {7} = [7] := by
  have hsort : (Finset.image UInt64.toNat {7}).sort = [7] := by
    rw [Finset.image_singleton, Finset.sort_singleton]
    rfl
  exact congrArg (List.map UInt64.ofNat) hsort

theorem run_failingEdits (more : List (Edit (List Int))) :
    runEdits plainUsearch List.length ascending (failingEdits ++ more) noVectors =
      let (failed, final) := runEdits plainUsearch List.length ascending more
        { noVectors with index := (2, {7, 1}), docIdSet := {1} }
      (7 :: failed, final) := by
  have hremove : ∀ vectors : VectorIndex (Nat × Finset UInt64),
      vectors.removeDocIds plainUsearch ascending {7} =
        VectorIndex.removeAll plainUsearch [7] vectors := by
    intro vectors
    rw [VectorIndex.removeDocIds, ascending_seven]
  simp only [failingEdits, List.cons_append, List.nil_append, runEdits, VectorIndex.edit, hremove]
  rfl

/-- What the failed call leaves does not open. The id is added again, which fails at the vector
that is still there, and what that leaves opens. -/
theorem staged_edits_open_failing :
    let first := (runEdits plainUsearch List.length ascending failingEdits noVectors).2
    let edits := failingEdits ++ [Edit.add 7 [5, 6]]
    let final := (runEdits plainUsearch List.length ascending edits noVectors).2
    (runEdits plainUsearch List.length ascending edits noVectors).1 = [7, 7] ∧
      (∀ opened, openFromStorage plainUsearch true (first.files plainUsearch ascending) ≠
        .ok opened) ∧
      openFromStorage plainUsearch true (final.files plainUsearch ascending) =
        .ok { final with needsBackfill := false } := by
  have hfirst := run_failingEdits []
  have hfinal := run_failingEdits [.add 7 [5, 6]]
  rw [List.append_nil] at hfirst
  intro first edits final
  refine ⟨?_, ?_, ?_⟩
  · rw [hfinal]
    decide
  · intro opened hopened
    obtain ⟨hagree, -⟩ := ((staged_edits_open plainUsearch List.length ascending failingEdits
      consistent_noVectors).1 opened).mp hopened
    rw [hfirst] at hagree
    have hseven := hagree 7 (by decide)
    revert hseven
    decide
  · refine ((staged_edits_open plainUsearch List.length ascending edits
      consistent_noVectors).1 _).mpr ⟨?_, rfl⟩
    rw [hfinal]
    intro id hid
    change id ∈ [7, 7] at hid
    obtain rfl : id = 7 := by simpa using hid
    decide

end Memex.Vectors
