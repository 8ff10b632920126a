import Mathlib.Data.List.Basic

/-! # Transactions with an injected fault

The statements of a transaction run on a working copy. The durable state is
replaced only when every statement and the final commit succeed. -/

namespace Memex.Transaction

variable {σ : Type*}

/-- Run the statements on a working copy. `some n` makes the statement after
`n` successful ones fail, the commit itself being the last. -/
def work : List (σ → σ) → Option Nat → σ → Option σ
  | [], some 0, _ => none
  | [], _, copy => some copy
  | _ :: _, some 0, _ => none
  | statement :: rest, some (n + 1), copy => work rest (some n) (statement copy)
  | statement :: rest, none, copy => work rest none (statement copy)

/-- The durable state after the transaction, and whether it committed. -/
def commit (statements : List (σ → σ)) (fault : Option Nat) (durable : σ) : σ × Bool :=
  match work statements fault durable with
  | some copy => (copy, true)
  | none => (durable, false)

theorem work_eq_some {statements : List (σ → σ)} {fault : Option Nat} {copy result : σ}
    (h : work statements fault copy = some result) :
    result = statements.foldl (fun state statement => statement state) copy := by
  induction statements generalizing fault copy with
  | nil =>
      match fault, h with
      | none, h => exact (Option.some.inj h).symm
      | some (_ + 1), h => exact (Option.some.inj h).symm
  | cons statement rest ih =>
      match fault, h with
      | none, h => exact ih h
      | some (_ + 1), h => exact ih h

theorem work_none_fault (statements : List (σ → σ)) (copy : σ) :
    work statements none copy =
      some (statements.foldl (fun state statement => statement state) copy) := by
  induction statements generalizing copy with
  | nil => rfl
  | cons statement rest ih => exact ih (statement copy)

/-- A committed transaction has performed all its statements in order. -/
theorem commit_of_committed {statements : List (σ → σ)} {fault : Option Nat} {durable : σ}
    (h : (commit statements fault durable).2 = true) :
    (commit statements fault durable).1 =
      statements.foldl (fun state statement => statement state) durable := by
  unfold commit at h ⊢
  cases hwork : work statements fault durable with
  | some copy => exact work_eq_some hwork
  | none => simp [hwork] at h

/-- A failed transaction leaves the durable state as it was. -/
theorem commit_of_failed {statements : List (σ → σ)} {fault : Option Nat} {durable : σ}
    (h : (commit statements fault durable).2 = false) :
    (commit statements fault durable).1 = durable := by
  unfold commit at h ⊢
  cases hwork : work statements fault durable with
  | some copy => simp [hwork] at h
  | none => rfl

@[simp] theorem commit_none (statements : List (σ → σ)) (durable : σ) :
    commit statements none durable =
      (statements.foldl (fun state statement => statement state) durable, true) := by
  simp [commit, work_none_fault]

/-! ### Statements that the tables may refuse -/

/-- One statement after another, each on the copy that the one before has left. -/
def runAll (statements : List (σ → Option σ)) (copy : σ) : Option σ :=
  statements.foldlM (fun state statement => statement state) copy

@[simp] theorem runAll_nil (copy : σ) : runAll [] copy = some copy := rfl

@[simp] theorem runAll_cons (statement : σ → Option σ) (rest : List (σ → Option σ)) (copy : σ) :
    runAll (statement :: rest) copy = (statement copy).bind (runAll rest) := rfl

theorem runAll_append (first second : List (σ → Option σ)) (copy : σ) :
    runAll (first ++ second) copy = (runAll first copy).bind (runAll second) :=
  List.foldlM_append

/-- Run the statements on a working copy, with a fault as in `work`. -/
def attempt : List (σ → Option σ) → Option Nat → σ → Option σ
  | [], some 0, _ => none
  | [], _, copy => some copy
  | _ :: _, some 0, _ => none
  | statement :: rest, some (n + 1), copy => (statement copy).bind (attempt rest (some n))
  | statement :: rest, none, copy => (statement copy).bind (attempt rest none)

/-- The durable state after the transaction, and whether it committed. -/
def commitAll (statements : List (σ → Option σ)) (fault : Option Nat) (durable : σ) : σ × Bool :=
  match attempt statements fault durable with
  | some copy => (copy, true)
  | none => (durable, false)

theorem attempt_eq_some {statements : List (σ → Option σ)} {fault : Option Nat} {copy result : σ}
    (h : attempt statements fault copy = some result) : runAll statements copy = some result := by
  induction statements generalizing fault copy with
  | nil =>
      match fault, h with
      | none, h => exact h
      | some (_ + 1), h => exact h
  | cons statement rest ih =>
      match fault, h with
      | none, h =>
          obtain ⟨next, hnext, hrest⟩ := Option.bind_eq_some_iff.mp h
          rw [runAll_cons, hnext, Option.bind_some]
          exact ih hrest
      | some (_ + 1), h =>
          obtain ⟨next, hnext, hrest⟩ := Option.bind_eq_some_iff.mp h
          rw [runAll_cons, hnext, Option.bind_some]
          exact ih hrest

theorem attempt_none (statements : List (σ → Option σ)) (copy : σ) :
    attempt statements none copy = runAll statements copy := by
  induction statements generalizing copy with
  | nil => rfl
  | cons statement rest ih =>
      rw [attempt, runAll_cons]
      apply congrArg
      funext next
      exact ih next

/-- A committed transaction has performed all its statements, and a failed one none. -/
theorem commitAll_cases (statements : List (σ → Option σ)) (fault : Option Nat) (durable : σ) :
    (∃ copy, runAll statements durable = some copy ∧
        commitAll statements fault durable = (copy, true)) ∨
      commitAll statements fault durable = (durable, false) := by
  rw [commitAll]
  cases hattempt : attempt statements fault durable with
  | none => exact Or.inr rfl
  | some copy => exact Or.inl ⟨copy, attempt_eq_some hattempt, rfl⟩

theorem commitAll_none {statements : List (σ → Option σ)} {durable copy : σ}
    (h : runAll statements durable = some copy) :
    commitAll statements none durable = (copy, true) := by
  rw [commitAll, attempt_none, h]

end Memex.Transaction
