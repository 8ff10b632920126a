import Mathlib.Data.List.TakeWhile

/-! # Bisection

The place where a list turns from entries that pass a test to entries that do not, found by
halving. -/

namespace Bisection

variable {α : Type*} (test : α → Bool) (items : List α)

/-- The place of the turn between two places. -/
def between (low high : Nat) : Nat :=
  if low < high then
    let middle := low + (high - low) / 2
    if items[middle]?.any test then between (middle + 1) high else between low middle
  else low
termination_by high - low
decreasing_by all_goals omega

/-- `partition_point`. -/
def partitionPoint : Nat :=
  between test items 0 items.length

variable {test items}

/-- The entries that pass come first. -/
def Partitioned (test : α → Bool) (items : List α) : Prop :=
  items.Pairwise fun first later => test later = true → test first = true

/-- The first entries of a partitioned list pass, the others do not. -/
theorem any_test_iff (h : Partitioned test items) (index : Nat) :
    items[index]?.any test = true ↔ index < (items.takeWhile test).length := by
  induction items generalizing index with
  | nil => simp
  | cons first rest ih =>
      obtain ⟨hfirst, hrest⟩ := List.pairwise_cons.mp h
      rw [List.takeWhile_cons]
      cases htest : test first with
      | true =>
          cases index with
          | zero => simp [htest]
          | succ index =>
              rw [List.getElem?_cons_succ, ih hrest, if_pos rfl, List.length_cons]
              omega
      | false =>
          have hnone : ∀ later ∈ first :: rest, test later ≠ true := by
            intro later hlater hpass
            cases List.mem_cons.mp hlater with
            | inl hsame => rw [hsame, htest] at hpass; cases hpass
            | inr hlater => rw [hfirst later hlater hpass] at htest; cases htest
          constructor
          · intro hany
            obtain ⟨later, hlater, hpass⟩ := Option.any_eq_true .. |>.mp hany
            exact absurd hpass (hnone later (List.mem_of_getElem? hlater))
          · intro hlt
            simp at hlt

theorem between_eq (h : Partitioned test items) {low high : Nat}
    (hlow : low ≤ (items.takeWhile test).length) (hhigh : (items.takeWhile test).length ≤ high) :
    between test items low high = (items.takeWhile test).length := by
  induction low, high using between.induct test items with
  | case1 low high hlt middle hpass ih =>
      rw [between, if_pos hlt]
      have hmiddle := (any_test_iff h middle).mp hpass
      exact (if_pos hpass).trans (ih hmiddle hhigh)
  | case2 low high hlt middle hfail ih =>
      rw [between, if_pos hlt]
      have hmiddle := mt (any_test_iff h middle).mpr hfail
      exact (if_neg hfail).trans (ih hlow (not_lt.mp hmiddle))
  | case3 low high hle =>
      rw [between, if_neg hle]
      omega

/-- Halving finds how many entries pass. -/
theorem partitionPoint_eq (h : Partitioned test items) :
    partitionPoint test items = (items.takeWhile test).length := by
  apply between_eq h (Nat.zero_le _)
  exact (List.takeWhile_prefix test).length_le

/-- As many entries pass as stand before the turn. -/
theorem take_partitionPoint (h : Partitioned test items) :
    items.take (partitionPoint test items) = items.filter test := by
  rw [partitionPoint_eq h]
  induction items with
  | nil => rfl
  | cons first rest ih =>
      obtain ⟨hfirst, hrest⟩ := List.pairwise_cons.mp h
      rw [List.takeWhile_cons]
      cases htest : test first with
      | true =>
          rw [if_pos rfl, List.length_cons, List.take_succ_cons, ih hrest,
            List.filter_cons_of_pos htest]
      | false =>
          have hnone : rest.filter test = [] := by
            apply List.filter_eq_nil_iff.mpr
            intro later hlater hpass
            rw [hfirst later hlater hpass] at htest
            cases htest
          rw [List.filter_cons_of_neg (by simp [htest]), hnone]
          rfl

end Bisection
