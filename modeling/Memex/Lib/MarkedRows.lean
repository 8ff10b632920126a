import Memex.Lib.Overlay

/-! # Rows in groups with a mark for each group

The rows of a table belong to groups, and a second table marks a group with what its rows were
made from. Whoever writes a row drops the mark of its group in the same statement, so that a mark
which is still there describes the rows. -/

namespace Memex.MarkedRows

open Overlay

variable {γ ι ρ μ : Type*} [DecidableEq γ] [DecidableEq ι]

@[ext]
structure Marked (γ ι ρ μ : Type*) [DecidableEq γ] [DecidableEq ι] where
  rows : Table (γ × ι) ρ := ∅
  marks : Table γ μ := ∅

namespace Marked

variable {state next : Marked γ ι ρ μ} {group other : γ} {index : ι} {row : ρ} {mark : μ}

/-- The rows of a group. -/
def rowsOf (state : Marked γ ι ρ μ) (group : γ) (index : ι) : Option ρ :=
  state.rows.lookup (group, index)

/-- A new row; the key must not be taken. -/
def insertRow (group : γ) (index : ι) (row : ρ) (state : Marked γ ι ρ μ) :
    Option (Marked γ ι ρ μ) :=
  if (group, index) ∈ state.rows then none
  else some
    { rows := state.rows.insert (group, index) row
      marks := state.marks.erase group }

/-- Other columns for a row that is there. -/
def updateRow (group : γ) (index : ι) (row : ρ) (state : Marked γ ι ρ μ) : Marked γ ι ρ μ :=
  if (group, index) ∈ state.rows then
    { rows := state.rows.insert (group, index) row
      marks := state.marks.erase group }
  else state

def deleteRow (group : γ) (index : ι) (state : Marked γ ι ρ μ) : Marked γ ι ρ μ :=
  if (group, index) ∈ state.rows then
    { rows := state.rows.erase (group, index)
      marks := state.marks.erase group }
  else state

/-- All rows of a group go. The mark of a group without rows stays. -/
def deleteGroup (group : γ) (state : Marked γ ι ρ μ) : Marked γ ι ρ μ :=
  let keys := state.rows.keys.filter fun key => key.1 = group
  { rows := eraseAll keys state.rows
    marks := if keys = ∅ then state.marks else state.marks.erase group }

def setMark (group : γ) (mark : μ) (state : Marked γ ι ρ μ) : Marked γ ι ρ μ :=
  { state with marks := state.marks.insert group mark }

def dropMark (group : γ) (state : Marked γ ι ρ μ) : Marked γ ι ρ μ :=
  { state with marks := state.marks.erase group }

theorem insertRow_of_free (row : ρ) (h : state.rowsOf group index = none) :
    state.insertRow group index row = some
      { rows := state.rows.insert (group, index) row
        marks := state.marks.erase group } := by
  rw [rowsOf, Finmap.lookup_eq_none] at h
  rw [insertRow, if_neg h]

theorem insertRow_eq_some (h : state.insertRow group index row = some next) :
    next = { rows := state.rows.insert (group, index) row
             marks := state.marks.erase group } := by
  rw [insertRow] at h
  split at h
  · cases h
  · exact (Option.some.inj h).symm

theorem rowsOf_put (rows : Table (γ × ι) ρ) (marks : Table γ μ) (other : γ) (place : ι) :
    rowsOf { rows := rows.insert (group, index) row, marks } other place =
      if other = group ∧ place = index then some row else rows.lookup (other, place) := by
  rw [rowsOf, lookup_insert_ite]
  simp only [Prod.mk.injEq]

theorem rowsOf_deleteGroup (other : γ) (place : ι) :
    (state.deleteGroup group).rowsOf other place =
      if other = group then none else state.rowsOf other place := by
  change (eraseAll _ state.rows).lookup (other, place) = _
  rw [lookup_eraseAll, rowsOf]
  by_cases hsame : other = group
  · rw [if_pos hsame, ite_eq_left_iff, Finset.mem_filter, Finmap.mem_keys]
    intro habsent
    exact Finmap.lookup_eq_none.mpr fun hmem => habsent ⟨hmem, hsame⟩
  · rw [if_neg hsame, if_neg]
    rw [Finset.mem_filter]
    exact fun hmem => hsame hmem.2

@[simp] theorem rowsOf_setMark : (state.setMark group mark).rowsOf = state.rowsOf := rfl

/-- What the mark of a group says holds of its rows. -/
def Sound (describes : γ → μ → (ι → Option ρ) → Prop) (state : Marked γ ι ρ μ) : Prop :=
  ∀ group, ∀ mark ∈ state.marks.lookup group, describes group mark (state.rowsOf group)

/-- Each group has lost its mark, or has it and its rows as before. -/
def Keeps (state next : Marked γ ι ρ μ) : Prop :=
  ∀ group, next.marks.lookup group = none ∨
    next.marks.lookup group = state.marks.lookup group ∧ next.rowsOf group = state.rowsOf group

theorem Keeps.refl (state : Marked γ ι ρ μ) : Keeps state state := fun _ => Or.inr ⟨rfl, rfl⟩

theorem Keeps.trans {last : Marked γ ι ρ μ} (hfirst : Keeps state next)
    (hsecond : Keeps next last) :
    Keeps state last := by
  intro group
  obtain hgone | ⟨hmark, hrows⟩ := hsecond group
  · exact Or.inl hgone
  · obtain hgone | ⟨hmark', hrows'⟩ := hfirst group
    · exact Or.inl (hmark.trans hgone)
    · exact Or.inr ⟨hmark.trans hmark', hrows.trans hrows'⟩

/-- A change to the rows of one group that drops its mark. -/
theorem keeps_of_erase {rows : Table (γ × ι) ρ}
    (hrows : ∀ other index, other ≠ group → rows.lookup (other, index) = state.rowsOf other index) :
    Keeps state { rows, marks := state.marks.erase group } := by
  intro other
  by_cases hsame : other = group
  · subst hsame
    exact Or.inl (Finmap.lookup_erase _ _)
  · refine Or.inr ⟨Finmap.lookup_erase_ne hsame, ?_⟩
    funext index
    exact hrows other index hsame

theorem keeps_insertRow (h : state.insertRow group index row = some next) : Keeps state next := by
  rw [insertRow_eq_some h]
  apply keeps_of_erase
  intro other place hother
  exact Finmap.lookup_insert_of_ne _ fun hkey => hother (congrArg Prod.fst hkey)

theorem keeps_updateRow : Keeps state (state.updateRow group index row) := by
  rw [updateRow]
  split
  · apply keeps_of_erase
    intro other place hother
    exact Finmap.lookup_insert_of_ne _ fun hkey => hother (congrArg Prod.fst hkey)
  · exact Keeps.refl state

theorem keeps_deleteRow : Keeps state (state.deleteRow group index) := by
  rw [deleteRow]
  split
  · apply keeps_of_erase
    intro other place hother
    exact Finmap.lookup_erase_ne fun hkey => hother (congrArg Prod.fst hkey)
  · exact Keeps.refl state

theorem keeps_dropMark : Keeps state (state.dropMark group) :=
  keeps_of_erase fun _ _ _ => rfl

theorem keeps_deleteGroup : Keeps state (state.deleteGroup group) := by
  by_cases hnone : (state.rows.keys.filter fun key => key.1 = group) = ∅
  · have hsame : state.deleteGroup group = state := by
      rw [deleteGroup]
      simp only [hnone, eraseAll_empty, if_true]
    rw [hsame]
    exact Keeps.refl state
  · have herased : state.deleteGroup group =
        { rows := (state.deleteGroup group).rows, marks := state.marks.erase group } := by
      rw [deleteGroup]
      simp only [hnone, if_false]
    rw [herased]
    apply keeps_of_erase
    intro other index hother
    have hrows := @rowsOf_deleteGroup γ ι ρ μ _ _ state group other index
    rw [if_neg hother] at hrows
    exact hrows

variable {describes : γ → μ → (ι → Option ρ) → Prop}

theorem Sound.keeps (h : state.Sound describes) (hkeeps : Keeps state next) :
    next.Sound describes := by
  intro group mark hmark
  obtain hgone | ⟨hsame, hrows⟩ := hkeeps group
  · rw [hgone] at hmark
    cases hmark
  · rw [hrows]
    rw [hsame] at hmark
    exact h group mark hmark

/-- A mark may be set when it describes the rows. -/
theorem Sound.setMark (h : state.Sound describes)
    (hmark : describes group mark (state.rowsOf group)) :
    (state.setMark group mark).Sound describes := by
  intro other found hfound
  change found ∈ (state.marks.insert group mark).lookup other at hfound
  rw [lookup_insert_ite] at hfound
  split at hfound
  next hsame =>
    subst hsame
    obtain rfl := Option.some.inj hfound
    exact hmark
  next => exact h other found hfound

theorem sound_empty : Sound describes ({} : Marked γ ι ρ μ) := by
  intro group mark hmark
  cases hmark

end Marked

end Memex.MarkedRows
