import Mathlib.Data.List.Count
import Mathlib.Data.List.Nodup
import Mathlib.Data.List.Perm.Basic
import Mathlib.Logic.Function.Basic

/-! # A machine with one state for each key

Every entry of a stream moves the state of its key, and may be reported. What the entries of one
key report does not depend on what stands between them. -/

namespace KeyedMachine

variable {κ σ α ρ : Type*} (key : α → Option κ) (step : Option σ → α → Option σ × Option ρ)

/-- The entries of a key. -/
def entriesOf [DecidableEq κ] (wanted : κ) (entries : List α) : List α :=
  entries.filter fun entry => key entry = some wanted

/-- The reports of a machine that has one state for all entries. -/
def alone (state : Option σ) : List α → List ρ
  | [] => []
  | entry :: rest => (step state entry).2.toList ++ alone (step state entry).1 rest

/-- The reports of a machine with one state for each key. Entries without a key are skipped. -/
def run [DecidableEq κ] (states : κ → Option σ) : List α → List (κ × ρ)
  | [] => []
  | entry :: rest =>
      match key entry with
      | none => run states rest
      | some wanted =>
          (step (states wanted) entry).2.toList.map (wanted, ·) ++
            run (Function.update states wanted (step (states wanted) entry).1) rest

variable [DecidableEq κ] {key step} {states : κ → Option σ} {entries others : List α}

/-- The reports of a key. -/
def reportsOf (wanted : κ) (reports : List (κ × ρ)) : List ρ :=
  (reports.filter fun report => report.1 = wanted).map Prod.snd

theorem reportsOf_append (wanted : κ) (reports more : List (κ × ρ)) :
    reportsOf wanted (reports ++ more) = reportsOf wanted reports ++ reportsOf wanted more := by
  simp only [reportsOf, List.filter_append, List.map_append]

theorem reportsOf_tagged (wanted other : κ) (reports : List ρ) :
    reportsOf wanted (reports.map (other, ·)) = if other = wanted then reports else [] := by
  induction reports with
  | nil => simp [reportsOf]
  | cons report rest ih =>
      change reportsOf wanted ([(other, report)] ++ rest.map (other, ·)) = _
      rw [reportsOf_append, ih]
      by_cases hsame : other = wanted
      · simp [reportsOf, hsame]
      · simp [reportsOf, hsame]

/-- A key reports what its entries alone do. -/
theorem reportsOf_run (wanted : κ) :
    reportsOf wanted (run key step states entries) =
      alone step (states wanted) (entriesOf key wanted entries) := by
  induction entries generalizing states with
  | nil => rfl
  | cons entry rest ih =>
      cases hkey : key entry with
      | none =>
          have hskip : entriesOf key wanted (entry :: rest) = entriesOf key wanted rest := by
            simp [entriesOf, hkey]
          simp only [run, hkey, hskip]
          exact ih
      | some other =>
          simp only [run, hkey, reportsOf_append, reportsOf_tagged, ih]
          by_cases hsame : other = wanted
          · subst hsame
            have hkeep : entriesOf key other (entry :: rest) =
                entry :: entriesOf key other rest := by
              simp [entriesOf, hkey]
            rw [if_pos rfl, hkeep, alone, Function.update_self]
          · have hskip : entriesOf key wanted (entry :: rest) = entriesOf key wanted rest := by
              simp [entriesOf, hkey, hsame]
            rw [if_neg hsame, hskip, List.nil_append, Function.update_of_ne (Ne.symm hsame)]

private theorem count_reportsOf [DecidableEq ρ] (wanted : κ) (report : ρ)
    (reports : List (κ × ρ)) :
    reports.count (wanted, report) = (reportsOf wanted reports).count report := by
  induction reports with
  | nil => rfl
  | cons first rest ih =>
      obtain ⟨other, found⟩ := first
      change _ = (reportsOf wanted ([(other, found)] ++ rest)).count report
      rw [reportsOf_append, List.count_append, ← ih, List.count_cons, Nat.add_comm]
      congr 1
      by_cases hsame : other = wanted
      · simp [reportsOf, hsame, List.count_singleton]
      · simp [reportsOf, hsame]

/-- Two machines whose keys report the same report the same, in some order. -/
theorem perm_of_reportsOf {reports more : List (κ × ρ)}
    (h : ∀ wanted, reportsOf wanted reports = reportsOf wanted more) : reports.Perm more := by
  classical
  apply List.perm_iff_count.mpr
  rintro ⟨wanted, report⟩
  rw [count_reportsOf, count_reportsOf, h]

/-- How the entries of different keys are interleaved does not matter. -/
theorem run_perm
    (h : ∀ wanted, entriesOf key wanted entries = entriesOf key wanted others) :
    (run key step states entries).Perm (run key step states others) := by
  apply perm_of_reportsOf
  intro wanted
  rw [reportsOf_run, reportsOf_run, h]

private theorem reportsOf_flatMap (wanted : κ) (keys : List κ) (hkeys : keys.Nodup)
    (reports : κ → List ρ) :
    reportsOf wanted (keys.flatMap fun other => (reports other).map (other, ·)) =
      if wanted ∈ keys then reports wanted else [] := by
  induction keys with
  | nil => rfl
  | cons other rest ih =>
      obtain ⟨hother, hrest⟩ := List.nodup_cons.mp hkeys
      rw [List.flatMap_cons, reportsOf_append, reportsOf_tagged, ih hrest]
      by_cases hsame : other = wanted
      · subst hsame
        rw [if_pos rfl, if_neg hother, if_pos List.mem_cons_self, List.append_nil]
      · have hmem : wanted ∈ other :: rest ↔ wanted ∈ rest := by
          rw [List.mem_cons]
          exact or_iff_right (Ne.symm hsame)
        rw [if_neg hsame, List.nil_append]
        exact (if_congr hmem rfl rfl).symm

/-- A machine reports, in some order, what its keys report alone. -/
theorem run_perm_flatMap {keys : List κ} (hkeys : keys.Nodup)
    (hall : ∀ entry ∈ entries, ∀ wanted, key entry = some wanted → wanted ∈ keys) :
    (run key step states entries).Perm (keys.flatMap fun wanted =>
      (alone step (states wanted) (entriesOf key wanted entries)).map (wanted, ·)) := by
  apply perm_of_reportsOf
  intro wanted
  rw [reportsOf_run, reportsOf_flatMap wanted keys hkeys]
  split
  next => rfl
  next hnot =>
    have hnone : entriesOf key wanted entries = [] := by
      apply List.filter_eq_nil_iff.mpr
      intro entry hentry hkey
      exact hnot (hall entry hentry wanted (of_decide_eq_true hkey))
    rw [hnone, alone]

theorem entriesOf_entriesOf (wanted : κ) (entries : List α) :
    entriesOf key wanted (entriesOf key wanted entries) = entriesOf key wanted entries := by
  unfold entriesOf
  rw [List.filter_filter]
  simp

/-- The entries of one key. -/
theorem run_entriesOf_perm (wanted : κ) :
    (run key step states (entriesOf key wanted entries)).Perm
      ((alone step (states wanted) (entriesOf key wanted entries)).map (wanted, ·)) := by
  have hkey : ∀ entry ∈ entriesOf key wanted entries, ∀ other, key entry = some other →
      other ∈ [wanted] := by
    intro entry hentry other hother
    have hsame := of_decide_eq_true (List.mem_filter.mp hentry).2
    rw [hother] at hsame
    exact List.mem_singleton.mpr (Option.some.inj hsame)
  have hruns : (run key step states (entriesOf key wanted entries)).Perm _ :=
    run_perm_flatMap (List.nodup_singleton wanted) hkey
  rwa [List.flatMap_singleton, entriesOf_entriesOf] at hruns

end KeyedMachine
