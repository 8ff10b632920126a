import Mathlib.Data.Finset.Card
import Mathlib.Data.List.Nodup
import Mathlib.Data.List.Range

/-! # Permuting a list in place

A list of positions says for each place where its item stands before. Every cycle of the
positions is rotated through one hole: the first item is taken out, each successor is moved into
the hole, and the first item fills the last one. A place whose item has been taken out is a hole;
to take from a hole or to fill a full place is a fault. -/

namespace CycleRotation

variable {α : Type}

/-- Take the item out of a place. -/
def takeCell (cells : List (Option α)) (place : ℕ) : Option (α × List (Option α)) :=
  match cells[place]? with
  | some (some item) => some (item, cells.set place none)
  | _ => none

/-- Put an item into a hole. -/
def fillCell (cells : List (Option α)) (place : ℕ) (item : α) : Option (List (Option α)) :=
  match cells[place]? with
  | some none => some (cells.set place (some item))
  | _ => none

/-- Move successors into the hole at `current` until the cycle is back at its start. Every place
that is passed becomes a fixed point. The number of rounds is bounded by `fuel`. -/
def followCycle (start : ℕ) (saved : α) :
    ℕ → ℕ → List ℕ × List (Option α) → Option (List ℕ × List (Option α))
  | 0, _, _ => none
  | fuel + 1, current, (positions, cells) => do
      let next ← positions[current]?
      let positions := positions.set current current
      if next = start then
        let cells ← fillCell cells current saved
        some (positions, cells)
      else
        let (item, cells) ← takeCell cells next
        let cells ← fillCell cells current item
        followCycle start saved fuel next (positions, cells)

/-- Rotate the cycle that a place is on, if it is not a fixed point. -/
def rotateAt (fuel : ℕ) (state : List ℕ × List (Option α)) (start : ℕ) :
    Option (List ℕ × List (Option α)) := do
  let position ← state.1[start]?
  if position = start then
    some state
  else
    let (saved, cells) ← takeCell state.2 start
    followCycle start saved fuel start (state.1, cells)

/-- Rotate the cycles of all places, one after another. -/
def rotateAll (fuel : ℕ) (positions : List ℕ) (items : List α) :
    Option (List ℕ × List (Option α)) :=
  (List.range positions.length).foldlM (rotateAt fuel) (positions, items.map some)

/-! ## What the loops keep -/

/-- The visited places have the item that belongs there, and are fixed points; the others are as
they were at first, except for the hole. -/
structure Rotated (next : ℕ → ℕ) (items : List α) (visited : Finset ℕ) (hole : Option ℕ)
    (state : List ℕ × List (Option α)) : Prop where
  positions_length : state.1.length = items.length
  cells_length : state.2.length = items.length
  position : ∀ place < items.length,
    state.1[place]? = some (if place ∈ visited then place else next place)
  cell : ∀ place < items.length, state.2[place]? =
    some (if hole = some place then none
      else items[if place ∈ visited then next place else place]?)

/-- The visited places are whole cycles. -/
def Closed (next : ℕ → ℕ) (size : ℕ) (visited : Finset ℕ) : Prop :=
  ∀ place < size, place ∈ visited ↔ next place ∈ visited

/-- The visited places are whole cycles and the way from `start` to `current`. -/
structure OnWay (next : ℕ → ℕ) (size start current : ℕ) (visited : Finset ℕ) : Prop where
  lt : current < size
  fresh : current ∉ visited
  started : start ∈ visited ∨ start = current
  leaves : ∀ place ∈ visited, next place ∈ visited ∨ next place = current
  comes : ∀ place < size, next place ∈ visited ∨ next place = current →
    place ∈ visited ∨ next place = start

section Loops

variable {next : ℕ → ℕ} {items : List α} {visited : Finset ℕ}
  {positions : List ℕ} {cells : List (Option α)} {fuel start current : ℕ}

theorem takeCell_eq {place : ℕ} {item : α} (h : cells[place]? = some (some item)) :
    takeCell cells place = some (item, cells.set place none) := by
  rw [takeCell, h]

theorem fillCell_eq {place : ℕ} (item : α) (h : cells[place]? = some none) :
    fillCell cells place item = some (cells.set place (some item)) := by
  rw [fillCell, h]

/-- An item is taken out of a place that has not been visited. -/
theorem Rotated.take {place : ℕ} (h : Rotated next items visited none (positions, cells))
    (hlt : place < items.length) (hfresh : place ∉ visited) :
    takeCell cells place = some (items[place], cells.set place none) ∧
      Rotated next items visited (some place) (positions, cells.set place none) := by
  have hcell : cells[place]? = some (some items[place]) := by
    rw [h.cell place hlt, if_neg (by simp), if_neg hfresh, List.getElem?_eq_getElem hlt]
  refine ⟨takeCell_eq hcell, h.positions_length, ?_, h.position, fun other hother => ?_⟩
  · rw [List.length_set]
    exact h.cells_length
  · rw [List.getElem?_set]
    by_cases hsame : place = other
    · subst hsame
      simp [h.cells_length, hlt]
    · rw [if_neg hsame, h.cell other hother]
      simp [hsame]

/-- The hole is filled with the item that belongs there, and the place is visited. -/
theorem Rotated.fill {item : α}
    (h : Rotated next items visited (some current) (positions, cells))
    (hlt : current < items.length) (hitem : items[next current]? = some item) :
    fillCell cells current item = some (cells.set current (some item)) ∧
      Rotated next items (insert current visited) none
        (positions.set current current, cells.set current (some item)) := by
  have hcell : cells[current]? = some none := by
    rw [h.cell current hlt, if_pos rfl]
  refine ⟨fillCell_eq item hcell, ?_, ?_, fun place hplace => ?_, fun place hplace => ?_⟩
  · rw [List.length_set]
    exact h.positions_length
  · rw [List.length_set]
    exact h.cells_length
  · rw [List.getElem?_set]
    by_cases hsame : current = place
    · subst hsame
      simp [h.positions_length, hlt]
    · rw [if_neg hsame, h.position place hplace]
      have hne : place ≠ current := fun h => hsame h.symm
      simp [hne]
  · rw [List.getElem?_set]
    by_cases hsame : current = place
    · subst hsame
      simp [h.cells_length, hlt, hitem]
    · rw [if_neg hsame, h.cell place hplace]
      have hne : place ≠ current := fun h => hsame h.symm
      simp [hsame, hne]

/-- Taking the successor and filling the hole before it moves the hole on. -/
theorem Rotated.move (h : Rotated next items visited (some current) (positions, cells))
    (hcurrent : current < items.length) (hnext : next current < items.length)
    (hne : next current ≠ current) (hfresh : next current ∉ visited) :
    ∃ taken filled, takeCell cells (next current) = some (items[next current], taken) ∧
      fillCell taken current items[next current] = some filled ∧
      Rotated next items (insert current visited) (some (next current))
        (positions.set current current, filled) := by
  have hcell : cells[next current]? = some (some items[next current]) := by
    rw [h.cell _ hnext, if_neg (by simpa using hne.symm), if_neg hfresh,
      List.getElem?_eq_getElem hnext]
  have hhole : (cells.set (next current) none)[current]? = some none := by
    rw [List.getElem?_set, if_neg hne, h.cell _ hcurrent, if_pos rfl]
  refine ⟨_, _, takeCell_eq hcell, fillCell_eq _ hhole, ?_, ?_, fun place hplace => ?_,
    fun place hplace => ?_⟩
  · rw [List.length_set]
    exact h.positions_length
  · rw [List.length_set, List.length_set]
    exact h.cells_length
  · rw [List.getElem?_set]
    by_cases hsame : current = place
    · subst hsame
      simp [h.positions_length, hcurrent]
    · rw [if_neg hsame, h.position place hplace]
      have hother : place ≠ current := fun h => hsame h.symm
      simp [hother]
  · rw [List.getElem?_set, List.getElem?_set, List.length_set]
    by_cases hsame : current = place
    · subst hsame
      simp [h.cells_length, hcurrent, hne, List.getElem?_eq_getElem hnext]
    · have hother : place ≠ current := fun h => hsame h.symm
      by_cases hhole : next current = place
      · simp [hsame, hhole, h.cells_length, hplace]
      · rw [if_neg hsame, if_neg hhole, h.cell place hplace]
        simp [hsame, hhole, hother]

/-- The successor on the way has not been visited, unless it is the start. -/
theorem OnWay.next_fresh {size : ℕ} (h : OnWay next size start current visited)
    (hne : next current ≠ start) : next current ∉ insert current visited := by
  intro hmem
  have hback : next current ∈ visited ∨ next current = current :=
    (Finset.mem_insert.mp hmem).symm
  obtain hvisited | hstart := h.comes current h.lt hback
  · exact h.fresh hvisited
  · exact hne hstart

/-- One step on the way. -/
theorem OnWay.step {size : ℕ} (hinj : ∀ left < size, ∀ right < size,
      next left = next right → left = right) (hmaps : ∀ place < size, next place < size)
    (h : OnWay next size start current visited) (hne : next current ≠ start) :
    OnWay next size start (next current) (insert current visited) where
  lt := hmaps current h.lt
  fresh := h.next_fresh hne
  started := by
    obtain hstart | rfl := h.started
    · exact Or.inl (Finset.mem_insert_of_mem hstart)
    · exact Or.inl (Finset.mem_insert_self _ _)
  leaves place hplace := by
    obtain rfl | hplace := Finset.mem_insert.mp hplace
    · exact Or.inr rfl
    · obtain hvisited | hcurrent := h.leaves place hplace
      · exact Or.inl (Finset.mem_insert_of_mem hvisited)
      · exact Or.inl (hcurrent ▸ Finset.mem_insert_self _ _)
  comes place hplace hback := by
    obtain hback | hback := hback
    · have hold := h.comes place hplace (Finset.mem_insert.mp hback).symm
      exact hold.imp_left Finset.mem_insert_of_mem
    · have hsame := hinj place hplace current h.lt hback
      exact Or.inl (hsame ▸ Finset.mem_insert_self _ _)

/-- Back at the start, the way is a whole cycle. -/
theorem OnWay.closed {size : ℕ} (hinj : ∀ left < size, ∀ right < size,
      next left = next right → left = right)
    (h : OnWay next size start current visited) (hback : next current = start) :
    Closed next size (insert current visited) := by
  have hstart : start ∈ insert current visited := by
    obtain hvisited | hsame := h.started
    · exact Finset.mem_insert_of_mem hvisited
    · exact hsame ▸ Finset.mem_insert_self _ _
  intro place hplace
  constructor
  · intro hmem
    obtain rfl | hmem := Finset.mem_insert.mp hmem
    · exact hback ▸ hstart
    · obtain hvisited | hcurrent := h.leaves place hmem
      · exact Finset.mem_insert_of_mem hvisited
      · exact hcurrent ▸ Finset.mem_insert_self _ _
  · intro hmem
    obtain hvisited | hnext := h.comes place hplace (Finset.mem_insert.mp hmem).symm
    · exact Finset.mem_insert_of_mem hvisited
    · have hsame := hinj place hplace current h.lt (hnext.trans hback.symm)
      exact hsame ▸ Finset.mem_insert_self _ _

theorem OnWay.of_closed {size : ℕ} (h : Closed next size visited)
    (hsubset : ∀ place ∈ visited, place < size) (hlt : start < size) (hfresh : start ∉ visited) :
    OnWay next size start start visited where
  lt := hlt
  fresh := hfresh
  started := Or.inr rfl
  leaves place hplace := Or.inl ((h place (hsubset place hplace)).mp hplace)
  comes place hplace hback := hback.imp_left (h place hplace).mpr

/-- A way that is followed comes back to its start, within as many rounds as places are left. -/
theorem followCycle_spec {saved : α}
    (hinj : ∀ left < items.length, ∀ right < items.length, next left = next right → left = right)
    (hmaps : ∀ place < items.length, next place < items.length)
    (hsaved : items[start]? = some saved) (hfuel : items.length ≤ fuel + visited.card)
    (hsubset : visited ⊆ Finset.range items.length)
    (hway : OnWay next items.length start current visited)
    (h : Rotated next items visited (some current) (positions, cells)) :
    ∃ state all, followCycle start saved fuel current (positions, cells) = some state ∧
      Rotated next items all none state ∧ Closed next items.length all ∧ start ∈ all ∧
      visited ⊆ all ∧ all ⊆ Finset.range items.length := by
  induction fuel generalizing current visited positions cells with
  | zero =>
      -- The place of the hole is one more than those that are visited.
      have hcard := Finset.card_lt_card (Finset.ssubset_insert hway.fresh)
      have hle := Finset.card_le_card (Finset.insert_subset
        (Finset.mem_range.mpr hway.lt) hsubset)
      rw [Finset.card_range] at hle
      omega
  | succ fuel ih =>
      have hposition : positions[current]? = some (next current) := by
        rw [h.position current hway.lt, if_neg hway.fresh]
      have hnewSubset : insert current visited ⊆ Finset.range items.length :=
        Finset.insert_subset (Finset.mem_range.mpr hway.lt) hsubset
      rw [followCycle, hposition]
      by_cases hback : next current = start
      · obtain ⟨hfill, hrotated⟩ := h.fill hway.lt (hback ▸ hsaved)
        refine ⟨_, insert current visited, ?_, hrotated, hway.closed hinj hback, ?_,
          Finset.subset_insert _ _, hnewSubset⟩
        · simp [hback, hfill]
        · obtain hvisited | hsame := hway.started
          · exact Finset.mem_insert_of_mem hvisited
          · exact hsame ▸ Finset.mem_insert_self _ _
      · have hnext := hmaps current hway.lt
        have hfresh := hway.next_fresh hback
        have hne : next current ≠ current := fun hsame => hfresh (by simp [hsame])
        obtain ⟨taken, filled, htake, hfill, hrotated⟩ := h.move hway.lt hnext hne
          fun hvisited => hfresh (Finset.mem_insert_of_mem hvisited)
        have hcard := Finset.card_insert_of_notMem hway.fresh
        obtain ⟨state, all, hfollow, hall, hclosed, hstart, hincluded, hrange⟩ :=
          ih (by omega) hnewSubset (hway.step hinj hmaps hback) hrotated
        refine ⟨state, all, ?_, hall, hclosed, hstart,
          (Finset.subset_insert _ _).trans hincluded, hrange⟩
        simp [hback, htake, hfill, hfollow]

/-- After the cycle of a place has been rotated, the place is among whole cycles. -/
theorem rotateAt_spec {state : List ℕ × List (Option α)}
    (hinj : ∀ left < items.length, ∀ right < items.length, next left = next right → left = right)
    (hmaps : ∀ place < items.length, next place < items.length)
    (hfuel : items.length ≤ fuel) (hsubset : visited ⊆ Finset.range items.length)
    (hclosed : Closed next items.length visited) (hstart : start < items.length)
    (h : Rotated next items visited none state) :
    ∃ after all, rotateAt fuel state start = some after ∧
      Rotated next items all none after ∧ Closed next items.length all ∧ start ∈ all ∧
      visited ⊆ all ∧ all ⊆ Finset.range items.length := by
  have hposition := h.position start hstart
  by_cases hvisited : start ∈ visited
  · refine ⟨state, visited, ?_, h, hclosed, hvisited, Finset.Subset.refl _, hsubset⟩
    rw [rotateAt, hposition]
    simp [hvisited]
  · rw [if_neg hvisited] at hposition
    have hway := OnWay.of_closed hclosed
      (fun place hplace => Finset.mem_range.mp (hsubset hplace)) hstart hvisited
    by_cases hfixed : next start = start
    · -- A fixed point is a cycle of its own.
      refine ⟨state, insert start visited, ?_, ⟨h.positions_length, h.cells_length, ?_, ?_⟩,
        hway.closed hinj hfixed, Finset.mem_insert_self _ _, Finset.subset_insert _ _,
        Finset.insert_subset (Finset.mem_range.mpr hstart) hsubset⟩
      · rw [rotateAt, hposition]
        simp [hfixed]
      · intro place hplace
        rw [h.position place hplace]
        by_cases hsame : place = start
        · subst hsame
          simp [hfixed]
        · simp [hsame]
      · intro place hplace
        rw [h.cell place hplace]
        by_cases hsame : place = start
        · subst hsame
          simp [hfixed]
        · simp [hsame]
    · obtain ⟨htake, hrotated⟩ := h.take hstart hvisited
      obtain ⟨after, all, hfollow, hall⟩ := followCycle_spec hinj hmaps
        (List.getElem?_eq_getElem hstart) (Nat.le_add_right_of_le hfuel) hsubset hway hrotated
      refine ⟨after, all, ?_, hall⟩
      rw [rotateAt, hposition]
      simp [hfixed, htake, hfollow]

/-- The loop over the places. -/
theorem foldlM_rotateAt_spec {state : List ℕ × List (Option α)}
    (hinj : ∀ left < items.length, ∀ right < items.length, next left = next right → left = right)
    (hmaps : ∀ place < items.length, next place < items.length)
    (hfuel : items.length ≤ fuel) (hsubset : visited ⊆ Finset.range items.length)
    (hclosed : Closed next items.length visited) (starts : List ℕ)
    (hstarts : ∀ start ∈ starts, start < items.length)
    (h : Rotated next items visited none state) :
    ∃ after all, starts.foldlM (rotateAt fuel) state = some after ∧
      Rotated next items all none after ∧ visited ⊆ all ∧ ∀ start ∈ starts, start ∈ all := by
  induction starts generalizing state visited with
  | nil => exact ⟨state, visited, rfl, h, Finset.Subset.refl _, by simp⟩
  | cons start rest ih =>
      obtain ⟨middle, passed, hstep, hmiddle, hpassedClosed, hmem, hincluded, hrange⟩ :=
        rotateAt_spec hinj hmaps hfuel hsubset hclosed (hstarts start List.mem_cons_self) h
      obtain ⟨after, all, hrest, hafter, hlater, hall⟩ := ih hrange hpassedClosed
        (fun other hother => hstarts other (List.mem_cons_of_mem _ hother)) hmiddle
      refine ⟨after, all, ?_, hafter, hincluded.trans hlater, ?_⟩
      · rw [List.foldlM_cons, hstep]
        exact hrest
      · intro other hother
        obtain rfl | hother := List.mem_cons.mp hother
        · exact hlater hmem
        · exact hall other hother

end Loops

/-- For every permutation of the places, each cycle ends, no fault occurs, and every place is left
with the item that the positions say. -/
theorem rotateAll_eq {positions : List ℕ} {items : List α} {fuel : ℕ}
    (hperm : positions.Perm (List.range items.length)) (hfuel : items.length ≤ fuel) :
    rotateAll fuel positions items =
      some (List.range items.length, positions.map fun position => items[position]?) := by
  have hlength : positions.length = items.length := by
    rw [hperm.length_eq, List.length_range]
  have hnodup : positions.Nodup := hperm.nodup_iff.mpr List.nodup_range
  let next := fun place => positions.getD place place
  have hnext : ∀ place < items.length, positions[place]? = some (next place) := by
    intro place hplace
    rw [List.getElem?_eq_getElem (hlength ▸ hplace)]
    simp [next, hlength, hplace]
  have hmaps : ∀ place < items.length, next place < items.length := by
    intro place hplace
    exact List.mem_range.mp (hperm.mem_iff.mp (List.mem_of_getElem? (hnext place hplace)))
  have hinj : ∀ left < items.length, ∀ right < items.length,
      next left = next right → left = right := by
    intro left hleft right hright hsame
    apply (List.getElem?_inj (hlength ▸ hleft) hnodup).mp
    rw [hnext left hleft, hnext right hright, hsame]
  have hstart : Rotated next items ∅ none (positions, items.map some) := by
    refine ⟨hlength, List.length_map _, fun place hplace => ?_, fun place hplace => ?_⟩
    · simpa using hnext place hplace
    · simp [List.getElem?_eq_getElem hplace]
  obtain ⟨after, all, hrun, hafter, _, hall⟩ := foldlM_rotateAt_spec hinj hmaps hfuel
    (Finset.empty_subset _) (fun place _ => by simp) (List.range positions.length)
    (fun start hmem => hlength ▸ List.mem_range.mp hmem) hstart
  have hvisited : ∀ place < items.length, place ∈ all := fun place hplace =>
    hall place (List.mem_range.mpr (hlength ▸ hplace))
  rw [rotateAll, hrun]
  apply congrArg
  apply Prod.ext
  · apply List.ext_getElem?
    intro place
    by_cases hplace : place < items.length
    · rw [hafter.position place hplace, if_pos (hvisited place hplace)]
      simp [hplace]
    · rw [List.getElem?_eq_none (by rw [hafter.positions_length]; omega),
        List.getElem?_eq_none (by rw [List.length_range]; omega)]
  · apply List.ext_getElem?
    intro place
    by_cases hplace : place < items.length
    · rw [hafter.cell place hplace, if_pos (hvisited place hplace), List.getElem?_map,
        hnext place hplace]
      simp
    · rw [List.getElem?_eq_none (by rw [hafter.cells_length]; omega),
        List.getElem?_eq_none (by rw [List.length_map]; omega)]

end CycleRotation
