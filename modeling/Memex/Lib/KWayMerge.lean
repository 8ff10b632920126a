import Mathlib.Data.List.Induction
import Mathlib.Data.List.Perm.Basic
import Mathlib.Data.List.Sort
import Mathlib.Data.Prod.Lex

/-! # Merging sorted runs

Runs are merged by taking the least of their first entries again and again. The order in which the
runs are kept does not matter, so an exhausted run may be replaced by the last one. -/

namespace KWayMerge

/-- An element is replaced by the last one. -/
def swapRemove {β : Type*} (items : List β) (place : Nat) : List β :=
  match items.getLast? with
  | some last => (items.set place last).dropLast
  | none => []

theorem swapRemove_perm {β : Type*} {items : List β} {place : Nat} (h : place < items.length) :
    (swapRemove items place).Perm (items.eraseIdx place) := by
  induction items using List.reverseRecOn with
  | nil => cases h
  | append_singleton front last _ =>
      rw [List.length_append, List.length_singleton] at h
      rw [swapRemove, List.getLast?_concat]
      obtain hlast | hfront := eq_or_lt_of_le (Nat.le_of_lt_succ h)
      · have hset : (front ++ [last]).set place last = front ++ [last] := by
          rw [List.set_append_right _ _ hlast.ge, hlast, Nat.sub_self]
          rfl
        have herase : (front ++ [last]).eraseIdx place = front := by
          rw [List.eraseIdx_append_of_length_le hlast.ge, hlast, Nat.sub_self]
          exact List.append_nil front
        simp only [hset, herase, List.dropLast_concat]
        exact List.Perm.refl front
      · simp only [List.set_append_left _ _ hfront, List.dropLast_concat,
          List.eraseIdx_append_of_lt_length hfront]
        exact (List.set_perm_cons_eraseIdx hfront last).trans (List.perm_append_singleton _ _).symm

variable {α : Type*} [LinearOrder α]

/-- A merge takes the least first entry of the runs, until no run is left. -/
inductive Merges : List (List α) → List α → Prop where
  | done : Merges [] []
  | advance {runs others rest : List (List α)} {entry : α} {tail order : List α} :
      runs.Perm ((entry :: tail) :: others) →
      (∀ run ∈ others, ∀ other ∈ run.head?, entry ≤ other) →
      rest.Perm (tail :: others) → Merges rest order → Merges runs (entry :: order)
  | finish {runs others rest : List (List α)} {entry : α} {order : List α} :
      runs.Perm ([entry] :: others) →
      (∀ run ∈ others, ∀ other ∈ run.head?, entry ≤ other) →
      rest.Perm others → Merges rest order → Merges runs (entry :: order)

variable {runs others : List (List α)} {order tail : List α} {entry : α}

/-- Every entry is taken once. -/
theorem Merges.perm (h : Merges runs order) : order.Perm runs.flatten := by
  induction h with
  | done => exact List.Perm.nil
  | advance hruns _ hrest _ ih =>
      apply ((ih.trans hrest.flatten).cons _).trans
      rw [List.flatten_cons, ← List.cons_append, ← List.flatten_cons]
      exact hruns.flatten.symm
  | finish hruns _ hrest _ ih =>
      apply ((ih.trans hrest.flatten).cons _).trans
      exact hruns.flatten.symm

/-- The least first entry is the least of all. -/
theorem le_of_le_head (hruns : ∀ run ∈ others, run.Pairwise (· ≤ ·))
    (hleast : ∀ run ∈ others, ∀ other ∈ run.head?, entry ≤ other) :
    ∀ later ∈ others.flatten, entry ≤ later := by
  intro later hlater
  obtain ⟨run, hrun, hmem⟩ := List.mem_flatten.mp hlater
  cases run with
  | nil => cases hmem
  | cons first rest =>
      have hfirst := hleast _ hrun first rfl
      cases List.mem_cons.mp hmem with
      | inl h => exact h ▸ hfirst
      | inr h => exact hfirst.trans (List.rel_of_pairwise_cons (hruns _ hrun) h)

/-- Sorted runs are merged in order. -/
theorem Merges.sorted (h : Merges runs order) (hsorted : ∀ run ∈ runs, run.Pairwise (· ≤ ·)) :
    order.Pairwise (· ≤ ·) := by
  induction h with
  | done => exact List.Pairwise.nil
  | @advance runs others rest entry tail order hruns hleast hrest hmerges ih =>
      have hall : ∀ run ∈ (entry :: tail) :: others, run.Pairwise (· ≤ ·) := fun run hrun =>
        hsorted run (hruns.mem_iff.mpr hrun)
      have hentry := hall _ List.mem_cons_self
      have hothers : ∀ run ∈ others, run.Pairwise (· ≤ ·) := fun run hrun =>
        hall run (List.mem_cons_of_mem _ hrun)
      apply List.pairwise_cons.mpr
      constructor
      · intro later hlater
        have hmem := (hmerges.perm.trans hrest.flatten).mem_iff.mp hlater
        rw [List.flatten_cons, List.mem_append] at hmem
        cases hmem with
        | inl hmem => exact List.rel_of_pairwise_cons hentry hmem
        | inr hmem => exact le_of_le_head hothers hleast later hmem
      · apply ih
        intro run hrun
        cases List.mem_cons.mp (hrest.mem_iff.mp hrun) with
        | inl h => exact h ▸ hentry.tail
        | inr h => exact hothers run h
  | @finish runs others rest entry order hruns hleast hrest hmerges ih =>
      have hothers : ∀ run ∈ others, run.Pairwise (· ≤ ·) := fun run hrun =>
        hsorted run (hruns.mem_iff.mpr (List.mem_cons_of_mem _ hrun))
      apply List.pairwise_cons.mpr
      constructor
      · intro later hlater
        exact le_of_le_head hothers hleast later
          ((hmerges.perm.trans hrest.flatten).mem_iff.mp hlater)
      · exact ih fun run hrun => hothers run (hrest.mem_iff.mp hrun)

/-- A merge is the one sorted list of its entries. -/
theorem Merges.eq_of_sorted (h : Merges runs order) (hruns : ∀ run ∈ runs, run.Pairwise (· ≤ ·))
    {sorted : List α} (hperm : sorted.Perm runs.flatten) (hsorted : sorted.Pairwise (· ≤ ·)) :
    order = sorted := by
  apply (h.perm.trans hperm.symm).eq_of_pairwise _ (h.sorted hruns) hsorted
  exact fun _ _ _ _ hle hge => le_antisymm hle hge

/-! ## Stable sorting -/

section Stable

variable {κ ι : Type*} [LinearOrder κ] [LinearOrder ι]

/-- The order of the keys alone. -/
def KeyLE (left right : κ ×ₗ ι) : Prop := (ofLex left).1 ≤ (ofLex right).1

instance : DecidableRel (KeyLE : κ ×ₗ ι → κ ×ₗ ι → Prop) := fun _ _ =>
  inferInstanceAs (Decidable (_ ≤ _))

theorem le_of_keyLE {left right : κ ×ₗ ι} (hkey : KeyLE left right)
    (hplace : (ofLex left).2 ≤ (ofLex right).2) : left ≤ right := by
  apply Prod.Lex.le_iff.mpr
  obtain hlt | heq := lt_or_eq_of_le hkey
  · exact Or.inl hlt
  · exact Or.inr ⟨heq, hplace⟩

/-- An entry before all others in place is inserted before those of its key. -/
theorem pairwise_orderedInsert {entry : κ ×ₗ ι} {sorted : List (κ ×ₗ ι)}
    (h : sorted.Pairwise (· ≤ ·))
    (hplaces : ∀ other ∈ sorted, (ofLex entry).2 ≤ (ofLex other).2) :
    (sorted.orderedInsert KeyLE entry).Pairwise (· ≤ ·) := by
  induction sorted with
  | nil => exact List.pairwise_singleton _ _
  | cons other rest ih =>
      obtain ⟨hother, hrest⟩ := List.pairwise_cons.mp h
      rw [List.orderedInsert_cons]
      split
      next hkey =>
        have hle := le_of_keyLE hkey (hplaces other List.mem_cons_self)
        apply List.pairwise_cons.mpr
        refine ⟨fun later hlater => ?_, h⟩
        cases List.mem_cons.mp hlater with
        | inl h => exact h ▸ hle
        | inr h => exact hle.trans (hother later h)
      next hkey =>
        have hlt : other ≤ entry := Prod.Lex.le_iff.mpr (Or.inl (not_le.mp hkey))
        apply List.pairwise_cons.mpr
        constructor
        · intro later hlater
          have hmem := (List.perm_orderedInsert KeyLE entry rest).mem_iff.mp hlater
          cases List.mem_cons.mp hmem with
          | inl h => exact h ▸ hlt
          | inr h => exact hother later h
        · exact ih hrest fun later hlater => hplaces later (List.mem_cons_of_mem _ hlater)

/-- Entries whose places ascend, stably sorted by their keys, are sorted by keys and places. -/
theorem pairwise_insertionSort {entries : List (κ ×ₗ ι)}
    (h : entries.Pairwise fun left right => (ofLex left).2 ≤ (ofLex right).2) :
    (entries.insertionSort KeyLE).Pairwise (· ≤ ·) := by
  induction entries with
  | nil => exact List.Pairwise.nil
  | cons entry rest ih =>
      obtain ⟨hentry, hrest⟩ := List.pairwise_cons.mp h
      rw [List.insertionSort_cons]
      apply pairwise_orderedInsert (ih hrest)
      intro other hother
      exact hentry other ((List.perm_insertionSort _ rest).mem_iff.mp hother)

end Stable

end KWayMerge
