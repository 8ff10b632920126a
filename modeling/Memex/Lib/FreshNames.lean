import Mathlib.Data.List.Nodup
import Mathlib.Data.List.Perm.Subperm
import Mathlib.Data.List.Range

/-! # Names that are not taken

Every base has a sequence of names without repetition. The first that is not taken is found after
at most one attempt more than there are taken names. -/

namespace FreshNames

variable {α : Type*} [DecidableEq α] (name : α → Nat → α)

/-- The first name of a base that is not taken, for so many attempts. -/
def firstFree (taken : List α) (base : α) : (fuel attempt : Nat) → Option α
  | 0, _ => none
  | fuel + 1, attempt =>
      if name base attempt ∈ taken then firstFree taken base fuel (attempt + 1)
      else some (name base attempt)

/-- A free name for every base, none of them twice. -/
def assign (taken : List α) : List α → Option (List α)
  | [] => some []
  | base :: rest =>
      (firstFree name taken base (taken.length + 1) 0).bind fun free =>
        (assign (free :: taken) rest).map (free :: ·)

variable {name} {taken : List α} {base free : α} {fuel attempt : Nat}

theorem not_mem_of_firstFree (h : firstFree name taken base fuel attempt = some free) :
    free ∉ taken := by
  induction fuel generalizing attempt with
  | zero => cases h
  | succ fuel ih =>
      rw [firstFree] at h
      split at h
      next => exact ih h
      next hfree =>
        obtain rfl := Option.some.inj h
        exact hfree

/-- If no attempt is free, all are taken. -/
theorem mem_of_firstFree_eq_none (h : firstFree name taken base fuel attempt = none) :
    ∀ step < fuel, name base (attempt + step) ∈ taken := by
  induction fuel generalizing attempt with
  | zero => exact fun step hlt => absurd hlt (Nat.not_lt_zero _)
  | succ fuel ih =>
      rw [firstFree] at h
      split at h
      next hmem =>
        intro step hlt
        cases step with
        | zero => exact hmem
        | succ step =>
            have hnext := ih h step (Nat.lt_of_succ_lt_succ hlt)
            rwa [Nat.add_right_comm, Nat.add_assoc] at hnext
      next => cases h

/-- Among more attempts than there are taken names one is free. -/
theorem exists_firstFree (hname : (name base).Injective) (h : taken.length < fuel) :
    ∃ free, firstFree name taken base fuel attempt = some free := by
  cases hfound : firstFree name taken base fuel attempt with
  | some free => exact ⟨free, rfl⟩
  | none =>
      have hsubset : (List.range fuel).map (fun step => name base (attempt + step)) ⊆ taken := by
        intro candidate hmem
        obtain ⟨step, hstep, rfl⟩ := List.mem_map.mp hmem
        exact mem_of_firstFree_eq_none hfound step (List.mem_range.mp hstep)
      have hnodup : ((List.range fuel).map fun step => name base (attempt + step)).Nodup := by
        apply List.Nodup.map _ List.nodup_range
        intro left right heq
        exact Nat.add_left_cancel (hname heq)
      have hlength := (List.subperm_of_subset hnodup hsubset).length_le
      rw [List.length_map, List.length_range] at hlength
      exact absurd h (Nat.not_lt_of_le hlength)

/-- Every base gets a name, no two the same and none that was taken. -/
theorem exists_assign (hname : ∀ base, (name base).Injective) (bases taken : List α) :
    ∃ names, assign name taken bases = some names ∧ names.length = bases.length ∧
      names.Nodup ∧ ∀ free ∈ names, free ∉ taken := by
  induction bases generalizing taken with
  | nil => exact ⟨[], rfl, rfl, List.nodup_nil, fun _ hmem => nomatch hmem⟩
  | cons base rest ih =>
      obtain ⟨free, hfree⟩ := @exists_firstFree _ _ name taken base (taken.length + 1) 0
        (hname base) (Nat.lt_succ_self _)
      obtain ⟨names, hnames, hlength, hnodup, hnew⟩ := ih (free :: taken)
      refine ⟨free :: names, ?_, ?_, ?_, ?_⟩
      · rw [assign, hfree, Option.bind_some, hnames, Option.map_some]
      · rw [List.length_cons, hlength, List.length_cons]
      · apply List.nodup_cons.mpr
        exact ⟨fun hmem => hnew free hmem List.mem_cons_self, hnodup⟩
      · intro other hmem
        cases hmem with
        | head => exact not_mem_of_firstFree hfree
        | tail _ hmem => exact fun htaken => hnew other hmem (List.mem_cons_of_mem _ htaken)

end FreshNames
