import Mathlib.Dynamics.FixedPoints.Basic
import Mathlib.Data.Set.Function

/-! # Values computed again until they stay the same

A loop applies a function to its own result and ends when the result is the value that it was
computed from. It ends where some iterate is a fixed point. -/

namespace Settling

open Function

variable {α : Type*} {f : α → α} {x : α}

/-- Some iterate of a value is a fixed point. -/
def Settles (f : α → α) (x : α) : Prop := ∃ rounds, IsFixedPt f (f^[rounds] x)

theorem settles_of_fixed (h : f x = x) : Settles f x := ⟨0, h⟩

theorem settles_of_next (h : Settles f (f x)) : Settles f x := by
  obtain ⟨rounds, hfixed⟩ := h
  exact ⟨rounds + 1, hfixed⟩

/-- Values that are moved within a set never settle. -/
theorem not_settles_of_mapsTo {s : Set α} (hmaps : Set.MapsTo f s s) (hmoves : ∀ y ∈ s, f y ≠ y)
    (hx : x ∈ s) : ¬ Settles f x := by
  rintro ⟨rounds, hfixed⟩
  exact hmoves _ (hmaps.iterate rounds hx) hfixed

/-- A number that does not rise at first settles if it does so wherever it rises after it fell. -/
theorem settles_of_falling {f : Nat → Nat} {x : Nat} (hfirst : f x ≤ x)
    (hrise : ∀ before, f before < before → f before < f (f before) → Settles f (f before)) :
    Settles f x := by
  induction x using Nat.strongRecOn with
  | ind x ih =>
      obtain hfixed | hfalls := Nat.eq_or_lt_of_le hfirst
      · exact settles_of_fixed hfixed
      · apply settles_of_next
        obtain hrises | hagain := Nat.lt_or_ge (f x) (f (f x))
        · exact hrise x hfalls hrises
        · exact ih (f x) hfalls hagain

end Settling
