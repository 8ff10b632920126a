import Mathlib.Data.List.Basic

/-! # Worklists

A loop that takes the last item pushed, changes a state and pushes further
items. The loop is given by its step; it ends when every item pushed ranks
below the item it came from. -/

namespace Worklist

variable {α σ : Type*}

/-- Run the loop with at most the given number of steps. The head of the list is
the item pushed last. -/
def run (step : α → σ → σ × List α) : Nat → List α → σ → Option σ
  | _, [], state => some state
  | 0, _ :: _, _ => none
  | fuel + 1, item :: pending, state =>
      run step fuel ((step item state).2.reverse ++ pending) (step item state).1

variable {step : α → σ → σ × List α}

@[simp] theorem run_nil (fuel : Nat) (state : σ) : run step fuel [] state = some state := by
  cases fuel <;> rfl

@[simp] theorem run_succ_cons (fuel : Nat) (item : α) (pending : List α) (state : σ) :
    run step (fuel + 1) (item :: pending) state =
      run step fuel ((step item state).2.reverse ++ pending) (step item state).1 := rfl

/-- What a step keeps, the loop keeps. -/
theorem run_invariant (invariant : List α → σ → Prop)
    (hstep : ∀ item pending state, invariant (item :: pending) state →
      invariant ((step item state).2.reverse ++ pending) (step item state).1)
    {fuel : Nat} {pending : List α} {state final : σ}
    (hstart : invariant pending state) (h : run step fuel pending state = some final) :
    invariant [] final := by
  induction fuel generalizing pending state with
  | zero =>
      cases pending with
      | nil =>
          cases h
          exact hstart
      | cons item pending => cases h
  | succ fuel ih =>
      cases pending with
      | nil =>
          cases h
          exact hstart
      | cons item pending => exact ih (hstep item pending state hstart) h

/-- A prefix of the list is worked off by some number of steps, whatever stands
below it. -/
private theorem run_prefix {rank : α → Nat}
    (hrank : ∀ item state, ∀ pushed ∈ (step item state).2, rank pushed < rank item) (bound : Nat) :
    ∀ (items : List α), (∀ item ∈ items, rank item < bound) → ∀ state,
      ∃ steps final, ∀ fuel rest,
        run step (steps + fuel) (items ++ rest) state = run step fuel rest final := by
  induction bound with
  | zero =>
      intro items hitems state
      cases items with
      | nil => exact ⟨0, state, fun fuel rest => by rw [Nat.zero_add, List.nil_append]⟩
      | cons item items => exact absurd (hitems item List.mem_cons_self) (Nat.not_lt_zero _)
  | succ bound ih =>
      intro items hitems
      induction items with
      | nil =>
          intro state
          exact ⟨0, state, fun fuel rest => by rw [Nat.zero_add, List.nil_append]⟩
      | cons item items ihItems =>
          intro state
          have hpushed : ∀ pushed ∈ (step item state).2.reverse, rank pushed < bound := by
            intro pushed hmem
            have hlt := hrank item state pushed (List.mem_reverse.mp hmem)
            have hle := hitems item List.mem_cons_self
            omega
          obtain ⟨below, middle, hbelow⟩ := ih _ hpushed (step item state).1
          obtain ⟨steps, final, hsteps⟩ :=
            ihItems (fun other hother => hitems other (List.mem_cons_of_mem _ hother)) middle
          refine ⟨below + steps + 1, final, fun fuel rest => ?_⟩
          have hfuel : below + steps + 1 + fuel = (below + (steps + fuel)) + 1 := by omega
          rw [hfuel, List.cons_append, run_succ_cons, hbelow, hsteps]

/-- Enough steps end the loop, and more steps change nothing. -/
theorem run_terminates (rank : α → Nat)
    (hrank : ∀ item state, ∀ pushed ∈ (step item state).2, rank pushed < rank item)
    (pending : List α) (state : σ) :
    ∃ steps final, ∀ fuel, run step (steps + fuel) pending state = some final := by
  obtain ⟨bound, hbound⟩ : ∃ bound, ∀ item ∈ pending, rank item < bound := by
    induction pending with
    | nil => exact ⟨0, by simp⟩
    | cons item pending ih =>
        obtain ⟨bound, hbound⟩ := ih
        refine ⟨max bound (rank item + 1), fun other hother => ?_⟩
        rcases List.mem_cons.mp hother with rfl | hother
        · omega
        · have hlt := hbound other hother
          omega
  obtain ⟨steps, final, hsteps⟩ := run_prefix hrank bound pending hbound state
  refine ⟨steps, final, fun fuel => ?_⟩
  have hrun := hsteps fuel []
  rw [List.append_nil, run_nil] at hrun
  exact hrun

end Worklist
