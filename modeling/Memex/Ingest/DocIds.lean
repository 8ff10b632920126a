import Mathlib.Algebra.Order.Ring.Int
import Mathlib.Data.Int.ConditionallyCompleteOrder
import Mathlib.Data.List.Basic
import Mathlib.Data.String.Basic
import Mathlib.Order.Lattice.Nat
import Memex.Types

/-! # Drawing document ids

Document ids come from one shared 64-bit counter that `fetch_add` advances by
one for each emitted record. The model keeps the number of ids drawn so far and
wraps it around wherever the counter is read. -/

namespace Memex.Ingest

/-- Number of values of the `AtomicU64` counter. -/
def docIdLimit : Nat := 2 ^ 64

/-- The value of the counter; `fetch_add` wraps around. -/
def loadCounter (counter : Nat) : Nat :=
  counter % docIdLimit

/-- Give each record, in the order of emission, the next id of the counter. -/
def drawIds : Nat → List Record → List Record
  | _, [] => []
  | counter, record :: rest =>
      { record with docId := loadCounter counter } :: drawIds (counter + 1) rest

/-- Drawing ids changes nothing else of a record. -/
@[simp] theorem drawIds_map_body (counter : Nat) (records : List Record) :
    (drawIds counter records).map Record.body = records.map Record.body := by
  induction records generalizing counter with
  | nil => rfl
  | cons record rest ih => simp [drawIds, ih]

theorem loadCounter_of_lt {counter : Nat} (h : counter < docIdLimit) :
    loadCounter counter = counter :=
  Nat.mod_eq_of_lt h

/-- While the counter does not wrap, the drawn ids are the next values. -/
theorem drawIds_map_docId {counter : Nat} {records : List Record}
    (h : counter + records.length ≤ docIdLimit) :
    (drawIds counter records).map Record.docId = List.range' counter records.length := by
  induction records generalizing counter with
  | nil => rfl
  | cons record rest ih =>
      rw [List.length_cons] at h
      rw [List.length_cons, List.range'_succ, drawIds, List.map_cons, ih (by omega),
        loadCounter_of_lt (by omega)]

theorem drawIds_docId_bounds {counter : Nat} {records : List Record}
    (h : counter + records.length ≤ docIdLimit) {record : Record}
    (hmem : record ∈ drawIds counter records) :
    counter ≤ record.docId ∧ record.docId < counter + records.length := by
  have hid : record.docId ∈ (drawIds counter records).map Record.docId :=
    List.mem_map_of_mem hmem
  rw [drawIds_map_docId h, List.mem_range'_1] at hid
  exact hid

theorem drawIds_nodup {counter : Nat} {records : List Record}
    (h : counter + records.length ≤ docIdLimit) :
    ((drawIds counter records).map Record.docId).Nodup := by
  rw [drawIds_map_docId h]
  exact List.nodup_range'

/-- The records have distinct ids, all between the bounds. -/
structure IdsWithin (low high : Nat) (records : List Record) : Prop where
  nodup : (records.map Record.docId).Nodup
  bounds : ∀ record ∈ records, low ≤ record.docId ∧ record.docId < high

namespace IdsWithin

variable {low middle high : Nat} {records others : List Record}

theorem nil : IdsWithin low high [] := ⟨List.nodup_nil, by simp⟩

theorem drawIds {counter : Nat} (h : counter + records.length ≤ docIdLimit) :
    IdsWithin counter (counter + records.length) (drawIds counter records) :=
  ⟨drawIds_nodup h, fun _ hmem => drawIds_docId_bounds h hmem⟩

theorem sublist (h : IdsWithin low high records) (hsub : others.Sublist records) :
    IdsWithin low high others :=
  ⟨h.nodup.sublist (hsub.map Record.docId), fun record hmem => h.bounds record (hsub.subset hmem)⟩

theorem perm (h : IdsWithin low high records) (hperm : others.Perm records) :
    IdsWithin low high others :=
  ⟨(hperm.map Record.docId).nodup_iff.mpr h.nodup,
    fun record hmem => h.bounds record (hperm.subset hmem)⟩

theorem mono {low' high' : Nat} (h : IdsWithin low high records) (hlow : low' ≤ low)
    (hhigh : high ≤ high') : IdsWithin low' high' records :=
  ⟨h.nodup, fun record hmem =>
    ⟨Nat.le_trans hlow (h.bounds record hmem).1,
      Nat.lt_of_lt_of_le (h.bounds record hmem).2 hhigh⟩⟩

/-- Ids drawn one after the other. -/
theorem append (h : IdsWithin low middle records) (h' : IdsWithin middle high others)
    (hlow : low ≤ middle) (hhigh : middle ≤ high) : IdsWithin low high (records ++ others) := by
  refine ⟨?_, ?_⟩
  · rw [List.map_append]
    refine List.nodup_append.mpr ⟨h.nodup, h'.nodup, ?_⟩
    intro id hid id' hid' heq
    obtain ⟨record, hrecord, rfl⟩ := List.mem_map.mp hid
    obtain ⟨other, hother, rfl⟩ := List.mem_map.mp hid'
    have := (h.bounds record hrecord).2
    have := (h'.bounds other hother).1
    omega
  · intro record hmem
    rcases List.mem_append.mp hmem with hmem | hmem
    · exact (h.mono (Nat.le_refl _) hhigh).bounds record hmem
    · exact (h'.mono hlow (Nat.le_refl _)).bounds record hmem

theorem eq_nil (h : IdsWithin low low records) : records = [] := by
  cases records with
  | nil => rfl
  | cons record rest =>
      have := h.bounds record List.mem_cons_self
      omega

end IdsWithin

end Memex.Ingest
