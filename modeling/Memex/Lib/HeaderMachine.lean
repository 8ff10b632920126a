import Mathlib.Data.List.Induction

/-! # Row machines with a header

A row machine reads rows, keeps a header that rows overwrite and a carried
part, and emits records that quote the header. A run that is interrupted keeps
the carried part but rebuilds the header; this compares it with a run that
was never interrupted. -/

namespace HeaderMachine

variable {α σ ρ H C : Type*}

/-- Feed inputs to a step one after another and collect what it emits. -/
def run (step : σ → α → σ × List ρ) : σ → List α → σ × List ρ
  | state, [] => (state, [])
  | state, input :: rest =>
      let next := step state input
      let later := run step next.1 rest
      (later.1, next.2 ++ later.2)

@[simp] theorem run_nil (step : σ → α → σ × List ρ) (state : σ) :
    run step state [] = (state, []) := rfl

theorem run_cons (step : σ → α → σ × List ρ) (state : σ) (input : α) (rest : List α) :
    run step state (input :: rest) =
      ((run step (step state input).1 rest).1,
        (step state input).2 ++ (run step (step state input).1 rest).2) := rfl

theorem run_append (step : σ → α → σ × List ρ) (state : σ) (left right : List α) :
    run step state (left ++ right) =
      ((run step (run step state left).1 right).1,
        (run step state left).2 ++ (run step (run step state left).1 right).2) := by
  induction left generalizing state with
  | nil => simp
  | cons input rest ih => simp [run_cons, ih]

/-- Two steps over the same states: what one emits is seen in what the other emits. -/
theorem run_map_eq_flatMap {τ γ : Type*} {step : σ → α → σ × List ρ} {step' : σ → α → σ × List τ}
    {view : ρ → γ} {parts : τ → List γ}
    (hstate : ∀ state input, (step' state input).1 = (step state input).1)
    (hviews : ∀ state input,
      (step state input).2.map view = (step' state input).2.flatMap parts)
    (state : σ) (inputs : List α) :
    (run step state inputs).2.map view = (run step' state inputs).2.flatMap parts := by
  induction inputs generalizing state with
  | nil => rfl
  | cons input rest ih =>
      rw [run_cons, run_cons, hstate, List.map_append, List.flatMap_append, hviews, ih]

/-- What every step emits, a run emits. -/
theorem forall_mem_run {step : σ → α → σ × List ρ} {good : ρ → Prop}
    (h : ∀ state input, ∀ emitted ∈ (step state input).2, good emitted) (state : σ)
    (inputs : List α) : ∀ emitted ∈ (run step state inputs).2, good emitted := by
  induction inputs generalizing state with
  | nil => exact fun _ hmem => absurd hmem List.not_mem_nil
  | cons input rest ih =>
      rw [run_cons]
      exact List.forall_mem_append.mpr ⟨h state input, ih _⟩

/-- What is seen of the emissions may not depend on the states. -/
theorem run_map_of_stateless {γ : Type*} {step : σ → α → σ × List ρ} {view : ρ → γ}
    {parts : α → List γ} (h : ∀ state input, (step state input).2.map view = parts input)
    (state : σ) (inputs : List α) : (run step state inputs).2.map view = inputs.flatMap parts := by
  induction inputs generalizing state with
  | nil => rfl
  | cons input rest ih => rw [run_cons, List.map_append, h, ih, List.flatMap_cons]

private theorem append_eq_append_iff {left left' right right' : List ρ}
    (h : left.length = left'.length) :
    left ++ right = left' ++ right' ↔ left = left' ∧ right = right' := by
  constructor
  · intro heq
    exact List.append_inj heq h
  · rintro ⟨rfl, rfl⟩
    rfl

/-- What the last row that sets a field sets it to. -/
def lastSet {β : Type*} (rule : α → Option β) (rows : List α) : Option β :=
  (rows.filterMap rule).getLast?

theorem lastSet_append {β : Type*} (rule : α → Option β) (left right : List α) :
    lastSet rule (left ++ right) = (lastSet rule right).or (lastSet rule left) := by
  simp [lastSet, List.filterMap_append, List.getLast?_append]

@[simp] theorem lastSet_singleton {β : Type*} (rule : α → Option β) (row : α) :
    lastSet rule [row] = rule row := by
  cases h : rule row <;> simp [lastSet, h]

/-- A field that rows overwrite holds what was set last. -/
theorem foldl_field {β : Type*} (field : H → β) (rule : α → Option β) {step : H → α → H}
    (hstep : ∀ header row, field (step header row) = (rule row).getD (field header))
    (header : H) (rows : List α) :
    field (rows.foldl step header) = (lastSet rule rows).getD (field header) := by
  induction rows using List.reverseRecOn with
  | nil => rfl
  | append_singleton rows row ih =>
      rw [List.foldl_append, List.foldl_cons, List.foldl_nil, hstep, ih, lastSet_append,
        lastSet_singleton]
      cases rule row <;> simp

end HeaderMachine

/-- A row machine. `advance` is what a row does to the header, `row` what it does to
the carried part and what it emits once the header has advanced. `agree` says when
two headers look the same to a row, `same` when two carried parts act the same. -/
structure HeaderMachine (α H C ρ : Type*) where
  advance : H → α → H
  row : H → C → α → C × List ρ
  agree : α → H → H → Prop
  same : C → C → Prop
  same_refl : ∀ carried, same carried carried
  row_same : ∀ header other carried carried' input, same carried carried' →
    same (row header carried input).1 (row other carried' input).1
  row_length : ∀ header other carried carried' input, same carried carried' →
    (row header carried input).2.length = (row other carried' input).2.length
  row_eq_iff : ∀ header other carried carried' input, same carried carried' →
    ((row header carried input).2 = (row other carried' input).2 ↔ agree input header other)

namespace HeaderMachine

variable {α H C ρ : Type*} (machine : HeaderMachine α H C ρ)

/-- One row: the header advances first. -/
def step (state : H × C) (input : α) : (H × C) × List ρ :=
  let header := machine.advance state.1 input
  let result := machine.row header state.2 input
  ((header, result.1), result.2)

/-- The header behind a list of rows. -/
def advanceAll (header : H) (rows : List α) : H :=
  rows.foldl machine.advance header

@[simp] theorem advanceAll_nil (header : H) : machine.advanceAll header [] = header := rfl

@[simp] theorem advanceAll_cons (header : H) (input : α) (rows : List α) :
    machine.advanceAll header (input :: rows) =
      machine.advanceAll (machine.advance header input) rows := rfl

theorem advanceAll_append (header : H) (left right : List α) :
    machine.advanceAll header (left ++ right) =
      machine.advanceAll (machine.advanceAll header left) right := by
  simp [advanceAll]

theorem run_header (state : H × C) (rows : List α) :
    (run machine.step state rows).1.1 = machine.advanceAll state.1 rows := by
  induction rows generalizing state with
  | nil => rfl
  | cons input rest ih => rw [run_cons, ih]; rfl

theorem run_same (header other : H) {carried carried' : C} (h : machine.same carried carried')
    (rows : List α) :
    machine.same (run machine.step (header, carried) rows).1.2
      (run machine.step (other, carried') rows).1.2 := by
  induction rows generalizing header other carried carried' with
  | nil => exact h
  | cons input rest ih =>
      simp only [run_cons]
      exact ih _ _ (machine.row_same _ _ _ _ input h)

theorem run_length (header other : H) {carried carried' : C}
    (h : machine.same carried carried') (rows : List α) :
    (run machine.step (header, carried) rows).2.length =
      (run machine.step (other, carried') rows).2.length := by
  induction rows generalizing header other carried carried' with
  | nil => rfl
  | cons input rest ih =>
      simp only [run_cons, List.length_append]
      have hrow := machine.row_length (machine.advance header input)
        (machine.advance other input) _ _ input h
      have hrest := ih (machine.advance header input) (machine.advance other input)
        (machine.row_same (machine.advance header input) (machine.advance other input) _ _ input h)
      exact congrArg₂ (· + ·) hrow hrest

/-- Every row sees the same header in both runs, as far as it looks. -/
def Agrees (header other : H) (rows : List α) : Prop :=
  ∀ since input rest, rows = since ++ input :: rest →
    machine.agree input (machine.advanceAll header (since ++ [input]))
      (machine.advanceAll other (since ++ [input]))

theorem agrees_nil (header other : H) : machine.Agrees header other [] := by
  intro since input rest h
  simp at h

theorem agrees_cons (header other : H) (input : α) (rows : List α) :
    machine.Agrees header other (input :: rows) ↔
      machine.agree input (machine.advance header input) (machine.advance other input) ∧
        machine.Agrees (machine.advance header input) (machine.advance other input) rows := by
  constructor
  · intro h
    refine ⟨h [] input rows rfl, ?_⟩
    intro since next rest hrows
    exact h (input :: since) next rest (by rw [hrows]; rfl)
  · rintro ⟨hfirst, hrest⟩ since next rest hrows
    cases since with
    | nil =>
        obtain ⟨rfl, -⟩ := List.cons.inj hrows
        exact hfirst
    | cons first since =>
        obtain ⟨rfl, htail⟩ := List.cons.inj hrows
        exact hrest since next rest htail

/-- Two runs over the same rows emit the same exactly when every row sees the same. -/
theorem run_emitted_eq_iff (header other : H) {carried carried' : C}
    (h : machine.same carried carried') (rows : List α) :
    (run machine.step (header, carried) rows).2 = (run machine.step (other, carried') rows).2 ↔
      machine.Agrees header other rows := by
  induction rows generalizing header other carried carried' with
  | nil => simp [agrees_nil]
  | cons input rest ih =>
      have hsame := machine.row_same (machine.advance header input)
        (machine.advance other input) _ _ input h
      have hlength := machine.row_length (machine.advance header input)
        (machine.advance other input) _ _ input h
      have hrow := machine.row_eq_iff (machine.advance header input)
        (machine.advance other input) _ _ input h
      rw [agrees_cons, ← hrow, ← ih _ _ hsame]
      exact append_eq_append_iff hlength

/-- A run interrupted between segments: every segment starts with a header of its own. -/
def replay : C → List (H × List α) → List ρ
  | _, [] => []
  | carried, segment :: rest =>
      let result := run machine.step (segment.1, carried) segment.2
      result.2 ++ replay result.1.2 rest

/-- The rows of the segments, in order. -/
def joined (segments : List (H × List α)) : List α :=
  segments.flatMap Prod.snd

/-- The interrupted run emits what the uninterrupted one does exactly when the header
every segment starts with looks right to each of its rows. -/
theorem replay_eq_iff (start : H) {carried carried' : C} (h : machine.same carried carried')
    (segments : List (H × List α)) :
    machine.replay carried segments =
        (run machine.step (start, carried') (joined segments)).2 ↔
      ∀ before segment after, segments = before ++ segment :: after →
        machine.Agrees segment.1 (machine.advanceAll start (joined before)) segment.2 := by
  induction segments generalizing start carried carried' with
  | nil => simp [replay, joined]
  | cons segment rest ih =>
      have hsame := machine.run_same segment.1 start h segment.2
      have hlength := machine.run_length segment.1 start h segment.2
      have hfirst := machine.run_emitted_eq_iff segment.1 start h segment.2
      have hheader := machine.run_header (start, carried') segment.2
      have hrest := ih (machine.advanceAll start segment.2) hsame
      have hjoined : joined (segment :: rest) = segment.2 ++ joined rest := rfl
      rw [hjoined, run_append]
      simp only [replay]
      have hstate : (run machine.step (start, carried') segment.2).1 =
          (machine.advanceAll start segment.2,
            (run machine.step (start, carried') segment.2).1.2) :=
        Prod.ext hheader rfl
      rw [← hstate] at hrest
      rw [append_eq_append_iff hlength, hfirst, hrest]
      constructor
      · rintro ⟨hsegment, hafter⟩ before next after hsplit
        cases before with
        | nil =>
            obtain ⟨rfl, -⟩ := List.cons.inj hsplit
            exact hsegment
        | cons first before =>
            obtain ⟨rfl, htail⟩ := List.cons.inj hsplit
            have hagrees := hafter before next after htail
            rwa [← advanceAll_append] at hagrees
      · intro hall
        refine ⟨hall [] segment rest rfl, ?_⟩
        intro before next after hsplit
        have hagrees := hall (segment :: before) next after (by rw [hsplit]; rfl)
        rwa [← advanceAll_append]

end HeaderMachine
