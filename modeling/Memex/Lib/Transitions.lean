import Mathlib.Data.List.Induction

/-! # Runs of guarded steps

A system moves by labelled steps, each of which a state may refuse. A run is a
list of labels none of which is refused. -/

namespace Transitions

variable {σ ε : Type*} {step : σ → ε → Option σ}

/-- Take the labelled steps one after another. -/
def run (step : σ → ε → Option σ) : σ → List ε → Option σ
  | state, [] => some state
  | state, label :: rest => (step state label).bind fun next => run step next rest

@[simp] theorem run_nil (state : σ) : run step state [] = some state := rfl

theorem run_cons (state : σ) (label : ε) (rest : List ε) :
    run step state (label :: rest) =
      (step state label).bind fun next => run step next rest := rfl

theorem run_append (state : σ) (left right : List ε) :
    run step state (left ++ right) =
      (run step state left).bind fun next => run step next right := by
  induction left generalizing state with
  | nil => rfl
  | cons label rest ih =>
      rw [List.cons_append, run_cons, run_cons, Option.bind_assoc]
      exact Option.bind_congr fun next _ => ih next

/-- The last step of a run starts where the steps before it end. -/
theorem run_concat_eq_some {state final : σ} {labels : List ε} {label : ε} :
    run step state (labels ++ [label]) = some final ↔
      ∃ next, run step state labels = some next ∧ step next label = some final := by
  rw [run_append, Option.bind_eq_some_iff]
  apply exists_congr
  intro next
  rw [run_cons]
  cases step next label with
  | none => rfl
  | some last => rfl

/-- A run through a given label passes the states before and after it. -/
theorem run_split_eq_some {state final : σ} {before after : List ε} {label : ε} :
    run step state (before ++ label :: after) = some final ↔
      ∃ first second, run step state before = some first ∧ step first label = some second ∧
        run step second after = some final := by
  constructor
  · intro h
    rw [run_append, Option.bind_eq_some_iff] at h
    obtain ⟨first, hfirst, hrest⟩ := h
    rw [run_cons, Option.bind_eq_some_iff] at hrest
    obtain ⟨second, hsecond, hfinal⟩ := hrest
    exact ⟨first, second, hfirst, hsecond, hfinal⟩
  · rintro ⟨first, second, hfirst, hsecond, hfinal⟩
    rw [run_append, hfirst, Option.bind_some, run_cons, hsecond, Option.bind_some, hfinal]

/-- What a step keeps, a run keeps. -/
theorem run_invariant {invariant : σ → Prop}
    (hstep : ∀ state label next, invariant state → step state label = some next → invariant next)
    {state final : σ} {labels : List ε} (h : invariant state)
    (hrun : run step state labels = some final) : invariant final := by
  induction labels generalizing state with
  | nil =>
      obtain rfl := Option.some.inj hrun
      exact h
  | cons label rest ih =>
      rw [run_cons, Option.bind_eq_some_iff] at hrun
      obtain ⟨next, hnext, hrest⟩ := hrun
      exact ih (hstep state label next h hnext) hrest

/-- What a step keeps of the labels and the state, a run keeps. -/
theorem run_history {invariant : List ε → σ → Prop}
    (hstep : ∀ labels state label next, invariant labels state → step state label = some next →
      invariant (labels ++ [label]) next)
    {state final : σ} {labels : List ε} (h : invariant [] state)
    (hrun : run step state labels = some final) : invariant labels final := by
  induction labels using List.reverseRecOn generalizing final with
  | nil =>
      obtain rfl := Option.some.inj hrun
      exact h
  | append_singleton labels label ih =>
      obtain ⟨next, hnext, hlast⟩ := run_concat_eq_some.mp hrun
      exact hstep labels next label final (ih hnext) hlast

end Transitions
