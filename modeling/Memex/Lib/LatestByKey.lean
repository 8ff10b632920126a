import Mathlib.Data.List.Nodup
import Mathlib.Data.List.Sort

/-! # The latest entry of each key

Several entries may stand for one thing. They share a key, and of them the latest is kept; of
equally late entries the first one. -/

namespace LatestByKey

variable {α β κ : Type*} [DecidableEq κ] (key : α → κ) (order : α → α → Ordering)

/-- One more entry: it replaces an earlier one of its key that is older. -/
def offer (unique : List α) (entry : α) : List α :=
  match unique.find? fun previous => key previous = key entry with
  | some previous =>
      if (order previous entry).isGE then unique
      else unique.map fun other => if key other = key entry then entry else other
  | none => unique ++ [entry]

/-- The latest entry of each key. -/
def latest (entries : List α) : List α :=
  entries.foldl (offer key order) []

/-- Entries in an order; of equal ones the earlier stays before the later. -/
def sorted (entries : List α) : List α :=
  entries.insertionSort fun left right => (order left right).isLE = true

variable {key order} {unique entries : List α} {entry : α}

theorem offer_of_notMem (h : key entry ∉ unique.map key) :
    offer key order unique entry = unique ++ [entry] := by
  have hnone : unique.find? (fun previous => key previous = key entry) = none := by
    rw [List.find?_eq_none]
    intro previous hprevious hsame
    apply h
    rw [← of_decide_eq_true hsame]
    exact List.mem_map_of_mem hprevious
  rw [offer, hnone]

theorem map_key_offer :
    (offer key order unique entry).map key =
      if key entry ∈ unique.map key then unique.map key else unique.map key ++ [key entry] := by
  by_cases hmem : key entry ∈ unique.map key
  · rw [if_pos hmem, offer]
    split
    · split
      · rfl
      · rw [List.map_map]
        apply List.map_congr_left
        intro other _
        by_cases hsame : key other = key entry
        · simp [hsame]
        · simp [hsame]
    · next hnone =>
      obtain ⟨previous, hprevious, hsame⟩ := List.mem_map.mp hmem
      exact absurd (decide_eq_true hsame) (List.find?_eq_none.mp hnone previous hprevious)
  · rw [if_neg hmem, offer_of_notMem hmem, List.map_append]
    rfl

theorem nodup_offer (h : (unique.map key).Nodup) :
    ((offer key order unique entry).map key).Nodup := by
  rw [map_key_offer]
  split
  · exact h
  · next hmem => exact h.append (List.nodup_singleton _) (List.disjoint_singleton.mpr hmem)

private theorem nodup_foldl (h : (unique.map key).Nodup) :
    ((entries.foldl (offer key order) unique).map key).Nodup := by
  induction entries generalizing unique with
  | nil => exact h
  | cons entry rest ih => exact ih (nodup_offer h)

theorem mem_offer {other : α} (h : other ∈ offer key order unique entry) :
    other ∈ unique ∨ other = entry := by
  rw [offer] at h
  split at h
  · split at h
    · exact Or.inl h
    · obtain ⟨previous, hprevious, hother⟩ := List.mem_map.mp h
      split at hother
      · exact Or.inr hother.symm
      · exact Or.inl (hother ▸ hprevious)
  · exact (List.mem_append.mp h).imp_right List.mem_singleton.mp

/-- Only entries are kept. -/
theorem mem_of_mem_latest (h : entry ∈ latest key order entries) : entry ∈ entries := by
  have hfold : ∀ unique : List α, entry ∈ entries.foldl (offer key order) unique →
      entry ∈ unique ∨ entry ∈ entries := by
    clear h
    induction entries with
    | nil => exact fun unique h => Or.inl h
    | cons first rest ih =>
        intro unique h
        obtain hmem | hrest := ih _ h
        · obtain hunique | rfl := mem_offer hmem
          · exact Or.inl hunique
          · exact Or.inr List.mem_cons_self
        · exact Or.inr (List.mem_cons_of_mem first hrest)
  obtain hnil | hmem := hfold [] h
  · cases hnil
  · exact hmem

/-- Every key is kept once. -/
theorem nodup_latest : ((latest key order entries).map key).Nodup :=
  nodup_foldl List.nodup_nil

theorem length_latest_le : (latest key order entries).length ≤ entries.length := by
  apply List.Subperm.length_le
  exact List.subperm_of_subset (List.Nodup.of_map key nodup_latest) fun _ => mem_of_mem_latest

private theorem foldl_of_nodup (h : ((unique ++ entries).map key).Nodup) :
    entries.foldl (offer key order) unique = unique ++ entries := by
  induction entries generalizing unique with
  | nil => simp
  | cons entry rest ih =>
      have hnew : key entry ∉ unique.map key := by
        intro hmem
        rw [List.map_append, List.map_cons] at h
        exact (List.nodup_append'.mp h).2.2 hmem List.mem_cons_self
      rw [List.foldl_cons, offer_of_notMem hnew, ih (by simpa using h), List.append_assoc]
      rfl

/-- Entries of different keys are all kept. -/
theorem latest_of_nodup (h : (entries.map key).Nodup) : latest key order entries = entries :=
  foldl_of_nodup h

/-- All entries are kept exactly when no two share their key. -/
theorem latest_perm_iff : (latest key order entries).Perm entries ↔ (entries.map key).Nodup := by
  constructor
  · intro h
    exact (h.map key).nodup_iff.mp nodup_latest
  · intro h
    rw [latest_of_nodup h]

theorem sorted_perm : (sorted order entries).Perm entries :=
  List.perm_insertionSort _ _

end LatestByKey
