import Mathlib.Algebra.BigOperators.Group.List.Basic
import Mathlib.Algebra.Order.Ring.Int
import Mathlib.Data.Int.ConditionallyCompleteOrder
import Mathlib.Data.List.Nodup
import Mathlib.Data.List.Perm.Basic
import Mathlib.Data.String.Basic
import Mathlib.Order.Defs.LinearOrder
import Mathlib.Order.Lattice.Nat

/-! # Totals by key

Values are added up by key, in a list sorted by the keys. How the entries were grouped before does
not matter. -/

namespace Totals

variable {κ κ' α : Type*} [AddCommMonoid α]

/-- The second entries come from the first by adding up values of one key. -/
inductive Regroups : List (κ × α) → List (κ × α) → Prop where
  | perm {entries others} : entries.Perm others → Regroups entries others
  | merge (key : κ) (left right : α) (rest) :
      Regroups ((key, left) :: (key, right) :: rest) ((key, left + right) :: rest)
  | trans {entries others last} :
      Regroups entries others → Regroups others last → Regroups entries last

/-- The entries of other keys, or of none. -/
def mapKeys (f : κ → Option κ') (entries : List (κ × α)) : List (κ' × α) :=
  entries.filterMap fun entry => (f entry.1).map fun key => (key, entry.2)

variable {entries others : List (κ × α)}

theorem Regroups.refl (entries : List (κ × α)) : Regroups entries entries :=
  .perm (List.Perm.refl entries)

theorem Regroups.cons (h : Regroups entries others) (entry : κ × α) :
    Regroups (entry :: entries) (entry :: others) := by
  induction h with
  | perm h => exact .perm (h.cons entry)
  | merge key left right rest =>
      have hfront : (entry :: (key, left) :: (key, right) :: rest).Perm
          ((key, left) :: (key, right) :: entry :: rest) :=
        (List.Perm.swap _ _ _).trans ((List.Perm.swap _ _ _).cons _)
      apply (Regroups.perm hfront).trans
      exact (Regroups.merge key left right (entry :: rest)).trans (.perm (List.Perm.swap _ _ _))
  | trans _ _ ih ih' => exact ih.trans ih'

theorem Regroups.append_left (h : Regroups entries others) (front : List (κ × α)) :
    Regroups (front ++ entries) (front ++ others) := by
  induction front with
  | nil => exact h
  | cons entry rest ih => exact ih.cons entry

theorem Regroups.append {entries' others' : List (κ × α)} (h : Regroups entries others)
    (h' : Regroups entries' others') : Regroups (entries ++ entries') (others ++ others') := by
  apply (h'.append_left entries).trans
  apply (Regroups.perm List.perm_append_comm).trans
  exact (h.append_left others').trans (.perm List.perm_append_comm)

theorem Regroups.flatMap {β : Type*} {f g : β → List (κ × α)} (h : ∀ x, Regroups (f x) (g x))
    (items : List β) : Regroups (items.flatMap f) (items.flatMap g) := by
  induction items with
  | nil => exact Regroups.refl _
  | cons item rest ih => exact (h item).append ih

theorem Regroups.mapKeys (h : Regroups entries others) (f : κ → Option κ') :
    Regroups (mapKeys f entries) (mapKeys f others) := by
  induction h with
  | perm h => exact .perm (h.filterMap _)
  | merge key left right rest =>
      cases hkey : f key with
      | none =>
          simp only [Totals.mapKeys, List.filterMap_cons, hkey, Option.map_none]
          exact Regroups.refl _
      | some key' =>
          simp only [Totals.mapKeys, List.filterMap_cons, hkey, Option.map_some]
          exact .merge key' left right _
  | trans _ _ ih ih' => exact ih.trans ih'

/-- Keys are told other names. -/
theorem Regroups.map (h : Regroups entries others) (f : κ → κ') :
    Regroups (entries.map fun entry => (f entry.1, entry.2))
      (others.map fun entry => (f entry.1, entry.2)) := by
  have hmap : ∀ sums : List (κ × α), Totals.mapKeys (fun key => some (f key)) sums =
      sums.map fun entry => (f entry.1, entry.2) := fun sums =>
    congrFun List.filterMap_eq_map sums
  rw [← hmap, ← hmap]
  exact h.mapKeys _

/-- The sum over all keys stays. -/
theorem Regroups.sum_eq (h : Regroups entries others) :
    (entries.map Prod.snd).sum = (others.map Prod.snd).sum := by
  induction h with
  | perm h => exact (h.map Prod.snd).sum_eq
  | merge key left right rest =>
      simp only [List.map_cons, List.sum_cons]
      exact (add_assoc _ _ _).symm
  | trans _ _ ih ih' => exact ih.trans ih'

section Sums

variable [DecidableEq κ]

/-- All that was added to a key. -/
def sumAt (key : κ) (entries : List (κ × α)) : α :=
  ((entries.filter fun entry => entry.1 = key).map Prod.snd).sum

theorem sumAt_cons (key : κ) (entry : κ × α) (entries : List (κ × α)) :
    sumAt key (entry :: entries) =
      if entry.1 = key then entry.2 + sumAt key entries else sumAt key entries := by
  rw [sumAt, List.filter_cons]
  by_cases hsame : entry.1 = key
  · rw [if_pos (decide_eq_true hsame), if_pos hsame, List.map_cons, List.sum_cons, sumAt]
  · rw [if_neg (by simpa using hsame), if_neg hsame, sumAt]

theorem Regroups.sumAt_eq (h : Regroups entries others) (key : κ) :
    sumAt key entries = sumAt key others := by
  induction h with
  | perm h => exact ((h.filter _).map Prod.snd).sum_eq
  | merge key' left right rest =>
      simp only [sumAt_cons]
      split
      next => exact (add_assoc _ _ _).symm
      next => rfl
  | trans _ _ ih ih' => exact ih.trans ih'

omit [DecidableEq κ] in
theorem Regroups.mem_keys (h : Regroups entries others) (key : κ) :
    key ∈ entries.map Prod.fst ↔ key ∈ others.map Prod.fst := by
  induction h with
  | perm h => exact (h.map Prod.fst).mem_iff
  | merge key' left right rest => simp
  | trans _ _ ih ih' => exact ih.trans ih'

end Sums

variable [LinearOrder κ] [LinearOrder κ']

/-- A value goes to the total of its key. -/
def add (key : κ) (value : α) : List (κ × α) → List (κ × α)
  | [] => [(key, value)]
  | (other, total) :: rest =>
      if key < other then (key, value) :: (other, total) :: rest
      else if key = other then (other, total + value) :: rest
      else (other, total) :: add key value rest

def totals (entries : List (κ × α)) : List (κ × α) :=
  entries.foldl (fun sums entry => add entry.1 entry.2 sums) []

theorem regroups_add (key : κ) (value : α) (sums : List (κ × α)) :
    Regroups ((key, value) :: sums) (add key value sums) := by
  induction sums with
  | nil => exact Regroups.refl _
  | cons entry rest ih =>
      obtain ⟨other, total⟩ := entry
      rw [add]
      split
      next => exact Regroups.refl _
      next =>
        split
        next hsame =>
          rw [hsame]
          exact (Regroups.perm (List.Perm.swap _ _ _)).trans (.merge other total value rest)
        next => exact (Regroups.perm (List.Perm.swap _ _ _)).trans (ih.cons _)

theorem regroups_foldl_add (entries sums : List (κ × α)) :
    Regroups (sums ++ entries)
      (entries.foldl (fun sums entry => add entry.1 entry.2 sums) sums) := by
  induction entries generalizing sums with
  | nil =>
      rw [List.append_nil]
      exact Regroups.refl _
  | cons entry rest ih =>
      apply Regroups.trans _ (ih (add entry.1 entry.2 sums))
      apply (Regroups.perm List.perm_middle).trans
      exact (regroups_add entry.1 entry.2 sums).append (Regroups.refl rest)

theorem regroups_totals (entries : List (κ × α)) : Regroups entries (totals entries) :=
  regroups_foldl_add entries []

theorem mem_keys_add {key other : κ} {value : α} {sums : List (κ × α)} :
    other ∈ (add key value sums).map Prod.fst ↔ other = key ∨ other ∈ sums.map Prod.fst := by
  rw [← (regroups_add key value sums).mem_keys, List.map_cons, List.mem_cons]

/-- The keys ascend. -/
def Sorted (sums : List (κ × α)) : Prop :=
  (sums.map Prod.fst).Pairwise (· < ·)

theorem Sorted.add {sums : List (κ × α)} (h : Sorted sums) (key : κ) (value : α) :
    Sorted (add key value sums) := by
  induction sums with
  | nil => exact List.pairwise_singleton _ _
  | cons entry rest ih =>
      obtain ⟨other, total⟩ := entry
      obtain ⟨hother, hrest⟩ := List.pairwise_cons.mp h
      rw [Totals.add]
      split
      next hlt =>
        apply List.pairwise_cons.mpr
        refine ⟨fun next hmem => ?_, h⟩
        cases hmem with
        | head => exact hlt
        | tail _ hmem => exact hlt.trans (hother next hmem)
      next hle =>
        split
        next => exact h
        next hne =>
          apply List.pairwise_cons.mpr
          refine ⟨fun next hmem => ?_, ih hrest⟩
          cases mem_keys_add.mp hmem with
          | inl hsame => exact hsame ▸ lt_of_le_of_ne (not_lt.mp hle) (Ne.symm hne)
          | inr hmem => exact hother next hmem

theorem sorted_totals (entries : List (κ × α)) : Sorted (totals entries) := by
  have hrun : ∀ (entries sums : List (κ × α)), Sorted sums →
      Sorted (entries.foldl (fun sums entry => add entry.1 entry.2 sums) sums) := by
    intro entries
    induction entries with
    | nil => exact fun _ h => h
    | cons entry rest ih => exact fun sums h => ih _ (h.add entry.1 entry.2)
  exact hrun entries [] List.Pairwise.nil

/-- The total of a key is all that was added to it. -/
theorem Sorted.sumAt_eq {sums : List (κ × α)} (h : Sorted sums) {key : κ} {total : α}
    (hmem : (key, total) ∈ sums) : sumAt key sums = total := by
  induction sums with
  | nil => cases hmem
  | cons entry rest ih =>
      obtain ⟨hentry, hrest⟩ := List.pairwise_cons.mp h
      rw [sumAt_cons]
      cases hmem with
      | head =>
          have hnone : rest.filter (fun entry => entry.1 = key) = [] := by
            apply List.filter_eq_nil_iff.mpr
            intro other hother hsame
            have hlt := hentry other.1 (List.mem_map_of_mem hother)
            exact hlt.ne (of_decide_eq_true hsame).symm
          rw [if_pos rfl, sumAt, hnone, List.map_nil, List.sum_nil, add_zero]
      | tail _ hmem =>
          have hlt := hentry key (List.mem_map_of_mem hmem)
          rw [if_neg hlt.ne, ih hrest hmem]

/-- A key of the entries has one total, everything that was added to it. -/
theorem mem_totals_iff {key : κ} {total : α} :
    (key, total) ∈ totals entries ↔
      key ∈ entries.map Prod.fst ∧ sumAt key entries = total := by
  have hregroups := regroups_totals entries
  constructor
  · intro hmem
    rw [hregroups.mem_keys, hregroups.sumAt_eq]
    exact ⟨List.mem_map_of_mem hmem, (sorted_totals entries).sumAt_eq hmem⟩
  · rintro ⟨hkey, rfl⟩
    rw [hregroups.mem_keys] at hkey
    obtain ⟨⟨other, total⟩, hmem, rfl⟩ := List.mem_map.mp hkey
    rwa [hregroups.sumAt_eq, (sorted_totals entries).sumAt_eq hmem]

omit [AddCommMonoid α] in
theorem Sorted.nodup {sums : List (κ × α)} (h : Sorted sums) : sums.Nodup := by
  apply List.Nodup.of_map Prod.fst
  exact List.Pairwise.imp ne_of_lt h

omit [AddCommMonoid α] in
/-- Sorted entries are known by what is in them. -/
theorem Sorted.eq_of_mem_iff {sums sums' : List (κ × α)} (h : Sorted sums) (h' : Sorted sums')
    (hmem : ∀ entry, entry ∈ sums ↔ entry ∈ sums') : sums = sums' := by
  apply List.Perm.eq_of_pairwise _ (List.pairwise_map.mp h) (List.pairwise_map.mp h')
  · exact (List.perm_ext_iff_of_nodup h.nodup h'.nodup).mpr hmem
  · exact fun left right _ _ hlt hgt => absurd hgt hlt.not_gt

/-- Totals do not tell how the entries were grouped. -/
theorem Regroups.totals_eq (h : Regroups entries others) : totals entries = totals others := by
  apply (sorted_totals entries).eq_of_mem_iff (sorted_totals others)
  rintro ⟨key, total⟩
  rw [mem_totals_iff, mem_totals_iff, h.mem_keys, h.sumAt_eq]

/-- Sorted entries are their own totals. -/
theorem Regroups.totals_eq_of_sorted (h : Regroups entries others) (hsorted : Sorted others) :
    totals entries = others := by
  rw [h.totals_eq]
  apply (sorted_totals others).eq_of_mem_iff hsorted
  rintro ⟨key, total⟩
  rw [mem_totals_iff]
  constructor
  · rintro ⟨hkey, rfl⟩
    obtain ⟨⟨other, total⟩, hmem, rfl⟩ := List.mem_map.mp hkey
    rwa [hsorted.sumAt_eq hmem]
  · exact fun hmem => ⟨List.mem_map_of_mem hmem, hsorted.sumAt_eq hmem⟩

end Totals
