import Mathlib.Data.List.Count
import Mathlib.Data.List.Perm.Basic
import Mathlib.Order.Basic

/-! # Requests that are still waited for

Requests of several kinds are on their way at once, each with a stamp of the moment it was
made. One of a kind is waited for while its stamp is the present one; once the present moves
on, no request that was made before is waited for any more. -/

namespace Outstanding

variable {ρ π : Type*} [DecidableEq π]

/-- A request of the kind that has the present stamp. -/
def waits (ofKind : ρ → Bool) (stamp : ρ → π) (present : π) (request : ρ) : Bool :=
  ofKind request && decide (stamp request = present)

/-- How many requests of the kind are waited for. -/
def waiting (ofKind : ρ → Bool) (stamp : ρ → π) (present : π) (requests : List ρ) : Nat :=
  requests.countP (waits ofKind stamp present)

variable {ofKind : ρ → Bool} {stamp : ρ → π} {present later : π} {requests made : List ρ}
  {request : ρ}

theorem waits_iff :
    waits ofKind stamp present request = true ↔
      ofKind request = true ∧ stamp request = present := by
  rw [waits, Bool.and_eq_true, decide_eq_true_iff]

theorem waiting_append :
    waiting ofKind stamp present (requests ++ made) =
      waiting ofKind stamp present requests + waiting ofKind stamp present made :=
  List.countP_append

theorem waiting_singleton :
    waiting ofKind stamp present [request] =
      if waits ofKind stamp present request = true then 1 else 0 := by
  rw [waiting, List.countP_singleton]

/-- Requests of other kinds are not waited for. -/
theorem waiting_eq_zero_of_ofKind (h : ∀ request ∈ requests, ofKind request = false) :
    waiting ofKind stamp present requests = 0 := by
  apply List.countP_eq_zero.mpr
  intro request hmem hwaits
  exact Bool.false_ne_true ((h request hmem).symm.trans (waits_iff.mp hwaits).1)

/-- Requests of other kinds change nothing. -/
theorem waiting_append_other (h : ∀ request ∈ made, ofKind request = false) :
    waiting ofKind stamp present (requests ++ made) = waiting ofKind stamp present requests := by
  rw [waiting_append, waiting_eq_zero_of_ofKind h, Nat.add_zero]

/-- Once the present moves on, no request that was made before is waited for. -/
theorem waiting_eq_zero_of_lt [PartialOrder π]
    (hpast : ∀ request ∈ requests, stamp request ≤ present)
    (hlater : present < later) : waiting ofKind stamp later requests = 0 := by
  apply List.countP_eq_zero.mpr
  intro request hmem hwaits
  have hle := hpast request hmem
  rw [(waits_iff.mp hwaits).2] at hle
  exact absurd hlater (not_lt_of_ge hle)

/-- The present does not come back: fewer of the old requests are waited for later. -/
theorem waiting_le_of_le [PartialOrder π] (hpast : ∀ request ∈ requests, stamp request ≤ present)
    (hlater : present ≤ later) :
    waiting ofKind stamp later requests ≤ waiting ofKind stamp present requests := by
  by_cases heq : present = later
  · subst heq
    exact Nat.le_refl _
  · rw [waiting_eq_zero_of_lt hpast (lt_of_le_of_ne hlater heq)]
    exact Nat.zero_le _

/-- A request that is answered is waited for no more, and no other one is concerned. -/
theorem waiting_eraseIdx {index : Nat} (h : requests[index]? = some request) :
    waiting ofKind stamp present requests =
      waiting ofKind stamp present (requests.eraseIdx index) +
        if waits ofKind stamp present request = true then 1 else 0 := by
  obtain ⟨hlt, hget⟩ := List.getElem?_eq_some_iff.mp h
  have hperm := List.getElem_cons_eraseIdx_perm hlt
  rw [hget] at hperm
  calc
    waiting ofKind stamp present requests =
        waiting ofKind stamp present (request :: requests.eraseIdx index) :=
      (hperm.countP_eq _).symm
    _ = _ := List.countP_cons

/-- Some request is waited for exactly where the number is not 0. -/
theorem waiting_pos_iff :
    0 < waiting ofKind stamp present requests ↔
      ∃ request ∈ requests, waits ofKind stamp present request = true :=
  List.countP_pos_iff

end Outstanding
