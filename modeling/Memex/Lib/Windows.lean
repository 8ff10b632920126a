import Mathlib.Data.List.Induction
import Mathlib.Data.List.Sort

/-! # Windows onto a sequence

A window holds the entries of a sequence from some offset on. Windows that overlap or touch
are joined in one pass over the windows in the order of their offsets; where two of them hold
an entry of the same position, a preference decides which of the two stays. -/

/-- Entries of a sequence from an offset on; an entry in between may be missing. -/
structure Window (α : Type*) where
  offset : Nat
  cells : List (Option α)

namespace Window

variable {α : Type*}

/-- The first position after a window. -/
def stop (window : Window α) : Nat := window.offset + window.cells.length

/-- A position lies within a window. -/
def Spans (window : Window α) (position : Nat) : Prop :=
  window.offset ≤ position ∧ position < window.stop

/-- What a window shows at a position. -/
def cellAt (window : Window α) (position : Nat) : Option α :=
  if window.offset ≤ position then window.cells[position - window.offset]?.join else none

/-- No entry is missing. -/
def Filled (window : Window α) : Prop := ∀ cell ∈ window.cells, cell.isSome

/-- A window reaches from the start to the stop of another one at least. -/
def Encloses (outer inner : Window α) : Prop :=
  outer.offset ≤ inner.offset ∧ inner.stop ≤ outer.stop

/-- A window ends before another one begins, with a gap in between. -/
def Apart (left right : Window α) : Prop := left.stop < right.offset

/-- A filled window shows something exactly at the positions within it. -/
theorem Filled.isSome_cellAt_iff {window : Window α} (h : window.Filled) (position : Nat) :
    (window.cellAt position).isSome ↔ window.Spans position := by
  simp only [cellAt, Spans, stop]
  by_cases hstart : window.offset ≤ position
  · by_cases hlt : position - window.offset < window.cells.length
    · have hcell := h _ (List.getElem_mem hlt)
      obtain ⟨entry, hentry⟩ := Option.isSome_iff_exists.mp hcell
      simp only [if_pos hstart, List.getElem?_eq_getElem hlt, hentry, Option.join_some,
        Option.isSome_some, true_iff]
      omega
    · simp only [if_pos hstart, List.getElem?_eq_none (Nat.le_of_not_lt hlt), Option.join_none,
        Option.isSome_none, Bool.false_eq_true, false_iff]
      omega
  · simp [hstart]

section Put

variable (prefer : α → α → α)

/-- Put an entry at an index. What stands there already is preferred or not; an index past the
end leaves missing entries in between. -/
def put (cells : List (Option α)) (index : Nat) (entry : α) : List (Option α) :=
  match cells[index]? with
  | some (some old) => cells.set index (some (prefer old entry))
  | some none => cells.set index (some entry)
  | none => cells ++ List.replicate (index - cells.length) none ++ [some entry]

/-- Put entries one after the other from an index on, passing over missing ones. -/
def putAll (cells : List (Option α)) (index : Nat) : List (Option α) → List (Option α)
  | [] => cells
  | none :: rest => putAll cells (index + 1) rest
  | some entry :: rest => putAll (put prefer cells index entry) (index + 1) rest

variable {prefer} {cells : List (Option α)} {index : Nat}

theorem length_put (entry : α) :
    (put prefer cells index entry).length = max cells.length (index + 1) := by
  rw [put]
  split
  case h_1 old hcell =>
    have hlt := (List.getElem?_eq_some_iff.mp hcell).1
    rw [List.length_set]
    omega
  case h_2 hcell =>
    have hlt := (List.getElem?_eq_some_iff.mp hcell).1
    rw [List.length_set]
    omega
  case h_3 hcell =>
    have hle := List.getElem?_eq_none_iff.mp hcell
    simp only [List.length_append, List.length_replicate, List.length_singleton]
    omega

/-- An entry is put where it belongs and nowhere else. -/
theorem join_getElem?_put (entry : α) (position : Nat) :
    (put prefer cells index entry)[position]?.join =
      if position = index then Option.merge prefer cells[index]?.join (some entry)
      else cells[position]?.join := by
  rw [put]
  split
  case h_1 old hcell =>
    have hlt := (List.getElem?_eq_some_iff.mp hcell).1
    by_cases heq : position = index
    · subst heq
      rw [List.getElem?_set_self hlt, if_pos rfl, hcell, Option.join_some, Option.join_some,
        Option.merge_some_some]
    · rw [List.getElem?_set_ne (Ne.symm heq), if_neg heq]
  case h_2 hcell =>
    have hlt := (List.getElem?_eq_some_iff.mp hcell).1
    by_cases heq : position = index
    · subst heq
      rw [List.getElem?_set_self hlt, if_pos rfl, hcell, Option.join_some, Option.join_some,
        Option.merge_none_left]
    · rw [List.getElem?_set_ne (Ne.symm heq), if_neg heq]
  case h_3 hcell =>
    have hle := List.getElem?_eq_none_iff.mp hcell
    have hlength : (cells ++ List.replicate (index - cells.length) none).length = index := by
      simp only [List.length_append, List.length_replicate]
      omega
    rcases Nat.lt_trichotomy position index with hlt | heq | hgt
    · rw [List.getElem?_append_left (by omega), if_neg (Nat.ne_of_lt hlt),
        List.getElem?_append]
      split
      · rfl
      next hge =>
        rw [List.getElem?_eq_none (Nat.le_of_not_lt hge), List.getElem?_replicate]
        split <;> rfl
    · subst heq
      rw [List.getElem?_append_right (by omega), hlength, if_pos rfl, hcell]
      simp
    · rw [List.getElem?_append_right (by omega), hlength, if_neg (Nat.ne_of_gt hgt),
        List.getElem?_eq_none (by simp only [List.length_singleton]; omega),
        List.getElem?_eq_none (by omega)]

theorem isSome_of_mem_put {entry : α} (hindex : index ≤ cells.length)
    (hcells : ∀ cell ∈ cells, cell.isSome) :
    ∀ cell ∈ put prefer cells index entry, cell.isSome := by
  intro cell hmem
  rw [put] at hmem
  split at hmem
  · obtain hmem | rfl := List.mem_or_eq_of_mem_set hmem
    · exact hcells cell hmem
    · rfl
  · obtain hmem | rfl := List.mem_or_eq_of_mem_set hmem
    · exact hcells cell hmem
    · rfl
  · rw [Nat.sub_eq_zero_of_le hindex, List.replicate_zero, List.append_nil] at hmem
    obtain hmem | hmem := List.mem_append.mp hmem
    · exact hcells cell hmem
    · rw [List.mem_singleton.mp hmem]
      rfl

/-- Entries that are put in turn are each merged with what stands at their place. -/
theorem join_getElem?_putAll (entries : List (Option α)) (position : Nat) :
    (putAll prefer cells index entries)[position]?.join =
      Option.merge prefer cells[position]?.join
        (if index ≤ position then entries[position - index]?.join else none) := by
  induction entries generalizing cells index with
  | nil => simp [putAll]
  | cons first rest ih =>
      have hrest : (if index + 1 ≤ position then rest[position - (index + 1)]?.join else none) =
          if index + 1 ≤ position then (first :: rest)[position - index]?.join else none := by
        by_cases hlt : index + 1 ≤ position
        · rw [if_pos hlt, if_pos hlt, show position - index = position - (index + 1) + 1 by omega,
            List.getElem?_cons_succ]
        · rw [if_neg hlt, if_neg hlt]
      cases first with
      | none =>
          rw [putAll, ih, hrest]
          rcases Nat.lt_trichotomy position index with hlt | heq | hgt
          · rw [if_neg (by omega), if_neg (by omega)]
          · subst heq
            simp
          · rw [if_pos (by omega), if_pos (by omega)]
      | some entry =>
          rw [putAll, ih, hrest, join_getElem?_put]
          rcases Nat.lt_trichotomy position index with hlt | heq | hgt
          · rw [if_neg (by omega), if_neg (by omega), if_neg (by omega)]
          · subst heq
            rw [if_pos rfl, if_neg (by omega), if_pos le_rfl, Option.merge_none_right,
              Nat.sub_self, List.getElem?_cons_zero, Option.join_some]
          · rw [if_neg (by omega), if_pos (by omega), if_pos (by omega)]

theorem isSome_of_mem_putAll {entries : List (Option α)} (hindex : index ≤ cells.length)
    (hcells : ∀ cell ∈ cells, cell.isSome) (hentries : ∀ cell ∈ entries, cell.isSome) :
    ∀ cell ∈ putAll prefer cells index entries, cell.isSome := by
  induction entries generalizing cells index with
  | nil => exact hcells
  | cons first rest ih =>
      have hrest := fun cell hmem => hentries cell (List.mem_cons_of_mem _ hmem)
      cases first with
      | none => exact absurd (hentries none List.mem_cons_self) Bool.false_ne_true
      | some entry =>
          apply ih
          · rw [length_put]
            omega
          · exact isSome_of_mem_put hindex hcells
          · exact hrest

theorem length_putAll {entries : List (Option α)} (hentries : ∀ cell ∈ entries, cell.isSome) :
    (putAll prefer cells index entries).length =
      if entries = [] then cells.length else max cells.length (index + entries.length) := by
  induction entries generalizing cells index with
  | nil => rfl
  | cons first rest ih =>
      have hrest := fun cell hmem => hentries cell (List.mem_cons_of_mem _ hmem)
      cases first with
      | none => exact absurd (hentries none List.mem_cons_self) Bool.false_ne_true
      | some entry =>
          rw [putAll, ih hrest, length_put, if_neg (List.cons_ne_nil _ _), List.length_cons]
          split
          next hnil => rw [hnil, List.length_nil]
          next => omega

end Put

section Coalesce

variable (prefer : α → α → α)

/-- Lay a window over one that does not begin after it. -/
def overlay (previous window : Window α) : Window α where
  offset := previous.offset
  cells := putAll prefer previous.cells (window.offset - previous.offset) window.cells

@[simp] theorem offset_overlay (previous window : Window α) :
    (overlay prefer previous window).offset = previous.offset := rfl

/-- Add a window to those before it: apart from the last of them, or laid over it. -/
def extend (merged : List (Window α)) (window : Window α) : List (Window α) :=
  match merged.getLast? with
  | none => merged ++ [window]
  | some previous =>
    if previous.stop < window.offset then merged ++ [window]
    else merged.dropLast ++ [overlay prefer previous window]

/-- One pass over windows in the order of their offsets. -/
def coalesce (windows : List (Window α)) : List (Window α) :=
  windows.foldl (extend prefer) []

/-- What windows show at a position, put together in their order. -/
def view (windows : List (Window α)) (position : Nat) : Option α :=
  windows.foldl (fun shown window => Option.merge prefer shown (window.cellAt position)) none

variable {prefer} {windows merged : List (Window α)} {previous window : Window α}

variable (prefer) in
/-- The two ways a window is added to those before it. -/
theorem extend_cases (merged : List (Window α)) (window : Window α) :
    (extend prefer merged window = merged ++ [window] ∧
      ∀ previous, merged.getLast? = some previous → previous.Apart window) ∨
    ∃ before previous, merged = before ++ [previous] ∧ window.offset ≤ previous.stop ∧
      extend prefer merged window = before ++ [overlay prefer previous window] := by
  rw [extend]
  cases hlast : merged.getLast? with
  | none => exact Or.inl ⟨rfl, fun _ h => by cases h⟩
  | some previous =>
      obtain ⟨before, rfl⟩ := List.getLast?_eq_some_iff.mp hlast
      by_cases happart : previous.stop < window.offset
      · refine Or.inl ⟨if_pos happart, ?_⟩
        rintro other hother
        cases hother
        exact happart
      · refine Or.inr ⟨before, previous, rfl, Nat.le_of_not_lt happart, ?_⟩
        simp only [if_neg happart, List.dropLast_concat]

theorem coalesce_concat (windows : List (Window α)) (window : Window α) :
    coalesce prefer (windows ++ [window]) = extend prefer (coalesce prefer windows) window := by
  rw [coalesce, List.foldl_append]
  rfl

theorem view_concat (windows : List (Window α)) (window : Window α) (position : Nat) :
    view prefer (windows ++ [window]) position =
      Option.merge prefer (view prefer windows position) (window.cellAt position) := by
  rw [view, List.foldl_append]
  rfl

/-- The window that is laid over another one is shown, and what it lies over where it is
preferred. -/
theorem cellAt_overlay (h : previous.offset ≤ window.offset) (position : Nat) :
    (overlay prefer previous window).cellAt position =
      Option.merge prefer (previous.cellAt position) (window.cellAt position) := by
  rw [cellAt, cellAt, cellAt, offset_overlay]
  by_cases hstart : previous.offset ≤ position
  · rw [if_pos hstart, if_pos hstart, overlay, join_getElem?_putAll]
    by_cases hwindow : window.offset ≤ position
    · rw [if_pos hwindow, if_pos (by omega),
        show position - previous.offset - (window.offset - previous.offset) =
          position - window.offset by omega]
    · rw [if_neg hwindow, if_neg (by omega)]
  · rw [if_neg hstart, if_neg hstart, if_neg (by omega)]
    rfl

theorem filled_overlay (hle : previous.offset ≤ window.offset)
    (htouch : window.offset ≤ previous.stop) (hprevious : previous.Filled)
    (hwindow : window.Filled) : (overlay prefer previous window).Filled := by
  refine isSome_of_mem_putAll ?_ hprevious hwindow
  rw [stop] at htouch
  omega

variable (prefer) in
/-- A window that touches the one it is laid over ends with the later of the two. -/
theorem stop_overlay (hle : previous.offset ≤ window.offset)
    (htouch : window.offset ≤ previous.stop) (hwindow : window.Filled) :
    (overlay prefer previous window).stop = max previous.stop window.stop := by
  simp only [stop, overlay] at htouch ⊢
  rw [length_putAll hwindow]
  split
  next hnil =>
    rw [hnil, List.length_nil]
    omega
  next => omega

/-- Windows sorted by their offsets, none of which misses an entry. -/
structure Sorted (windows : List (Window α)) : Prop where
  offsets : windows.Pairwise fun left right => left.offset ≤ right.offset
  filled : ∀ window ∈ windows, window.Filled

theorem Sorted.left {window : Window α} (h : Sorted (windows ++ [window])) : Sorted windows where
  offsets := (List.pairwise_append.mp h.offsets).1
  filled other hmem := h.filled other (List.mem_append_left _ hmem)

theorem Sorted.last {window other : Window α} (h : Sorted (windows ++ [window]))
    (hmem : other ∈ windows) : other.offset ≤ window.offset :=
  (List.pairwise_append.mp h.offsets).2.2 other hmem window (List.mem_singleton_self _)

theorem Sorted.filled_last {window : Window α} (h : Sorted (windows ++ [window])) :
    window.Filled :=
  h.filled window (List.mem_append_right _ (List.mem_singleton_self _))

/-- The windows of one pass begin where some window began. -/
theorem exists_offset_of_mem_coalesce (hmem : window ∈ coalesce prefer windows) :
    ∃ origin ∈ windows, window.offset = origin.offset := by
  induction windows using List.reverseRecOn generalizing window with
  | nil => exact absurd hmem List.not_mem_nil
  | append_singleton init last ih =>
      rw [coalesce_concat] at hmem
      have hkept : ∀ other ∈ coalesce prefer init,
          ∃ origin ∈ init ++ [last], other.offset = origin.offset := by
        intro other hother
        obtain ⟨origin, horigin, heq⟩ := ih hother
        exact ⟨origin, List.mem_append_left _ horigin, heq⟩
      obtain ⟨heq, -⟩ | ⟨before, previous, hmerged, -, heq⟩ :=
        extend_cases prefer (coalesce prefer init) last
      · rw [heq] at hmem
        obtain hmem | hmem := List.mem_append.mp hmem
        · exact hkept window hmem
        · exact ⟨last, List.mem_append_right _ (List.mem_singleton_self _),
            congrArg offset (List.mem_singleton.mp hmem)⟩
      · rw [heq] at hmem
        obtain hmem | hmem := List.mem_append.mp hmem
        · exact hkept window (hmerged ▸ List.mem_append_left _ hmem)
        · rw [List.mem_singleton.mp hmem]
          exact hkept previous (hmerged ▸ List.mem_append_right _ (List.mem_singleton_self _))

variable (prefer) in
/-- A sorted list's last window does not begin before any window of the pass so far. -/
theorem Sorted.offset_le (h : Sorted (windows ++ [window]))
    (hmem : previous ∈ coalesce prefer windows) : previous.offset ≤ window.offset := by
  obtain ⟨origin, horigin, heq⟩ := exists_offset_of_mem_coalesce hmem
  exact heq ▸ h.last horigin

variable (prefer) in
/-- The windows of one pass miss no entry and lie apart from each other. -/
theorem coalesce_wellFormed (h : Sorted windows) :
    (∀ window ∈ coalesce prefer windows, window.Filled) ∧
      (coalesce prefer windows).Pairwise Apart := by
  induction windows using List.reverseRecOn with
  | nil => exact ⟨fun _ hmem => absurd hmem List.not_mem_nil, List.Pairwise.nil⟩
  | append_singleton init last ih =>
      obtain ⟨hfilled, hapart⟩ := ih h.left
      rw [coalesce_concat]
      have hoffset : ∀ previous ∈ coalesce prefer init, previous.offset ≤ last.offset :=
        fun previous hmem => h.offset_le prefer hmem
      obtain ⟨heq, hlast⟩ | ⟨before, previous, hmerged, htouch, heq⟩ :=
        extend_cases prefer (coalesce prefer init) last
      · rw [heq]
        constructor
        · intro window hmem
          obtain hmem | hmem := List.mem_append.mp hmem
          · exact hfilled window hmem
          · exact List.mem_singleton.mp hmem ▸ h.filled_last
        · refine List.pairwise_append.mpr ⟨hapart, List.pairwise_singleton _ _, ?_⟩
          rintro window hmem other hother
          rw [List.mem_singleton.mp hother]
          generalize coalesce prefer init = merged at *
          cases merged using List.reverseRecOn with
          | nil => exact absurd hmem List.not_mem_nil
          | append_singleton before previous =>
              have hprevious := hlast previous List.getLast?_concat
              obtain hmem | hmem := List.mem_append.mp hmem
              · have hbefore := (List.pairwise_append.mp hapart).2.2 window hmem previous
                  (List.mem_singleton_self _)
                simp only [Apart, stop] at hprevious hbefore ⊢
                omega
              · exact List.mem_singleton.mp hmem ▸ hprevious
      · rw [heq]
        rw [hmerged] at hfilled hapart hoffset
        have hprevious := List.mem_append_right before (List.mem_singleton_self previous)
        constructor
        · intro window hmem
          obtain hmem | hmem := List.mem_append.mp hmem
          · exact hfilled window (List.mem_append_left _ hmem)
          · rw [List.mem_singleton.mp hmem]
            exact filled_overlay (hoffset previous hprevious) htouch
              (hfilled previous hprevious) h.filled_last
        · obtain ⟨hbefore, -, hcross⟩ := List.pairwise_append.mp hapart
          refine List.pairwise_append.mpr ⟨hbefore, List.pairwise_singleton _ _, ?_⟩
          rintro window hmem other hother
          rw [List.mem_singleton.mp hother]
          exact hcross window hmem previous (List.mem_singleton_self _)

variable (prefer) in
/-- One pass changes nothing in what the windows show together. -/
theorem view_coalesce [Std.Associative prefer] (h : Sorted windows) (position : Nat) :
    view prefer (coalesce prefer windows) position = view prefer windows position := by
  induction windows using List.reverseRecOn with
  | nil => rfl
  | append_singleton init last ih =>
      rw [coalesce_concat, view_concat, ← ih h.left]
      obtain ⟨heq, -⟩ | ⟨before, previous, hmerged, -, heq⟩ :=
        extend_cases prefer (coalesce prefer init) last
      · rw [heq, view_concat]
      · have hoffset : previous.offset ≤ last.offset := h.offset_le prefer
          (hmerged ▸ List.mem_append_right _ (List.mem_singleton_self _))
        rw [heq, hmerged, view_concat, view_concat, cellAt_overlay hoffset,
          @Std.Associative.assoc _ (Option.merge prefer)]

variable (prefer) in
/-- Every window lies within one of the windows of the pass. -/
theorem exists_encloses (h : Sorted windows) (hmem : window ∈ windows) :
    ∃ outer ∈ coalesce prefer windows, outer.Encloses window := by
  induction windows using List.reverseRecOn with
  | nil => exact absurd hmem List.not_mem_nil
  | append_singleton init last ih =>
      rw [coalesce_concat]
      have hinit := fun hmem => ih h.left hmem
      obtain ⟨heq, -⟩ | ⟨before, previous, hmerged, htouch, heq⟩ :=
        extend_cases prefer (coalesce prefer init) last
      · rw [heq]
        obtain hmem | hmem := List.mem_append.mp hmem
        · obtain ⟨outer, houter, hencloses⟩ := hinit hmem
          exact ⟨outer, List.mem_append_left _ houter, hencloses⟩
        · rw [List.mem_singleton.mp hmem]
          exact ⟨last, List.mem_append_right _ (List.mem_singleton_self _), le_rfl, le_rfl⟩
      · have hoffset : previous.offset ≤ last.offset := h.offset_le prefer
          (hmerged ▸ List.mem_append_right _ (List.mem_singleton_self _))
        have hstop := stop_overlay prefer hoffset htouch h.filled_last
        have hnew := List.mem_append_right before
          (List.mem_singleton_self (overlay prefer previous last))
        rw [heq]
        obtain hmem | hmem := List.mem_append.mp hmem
        · obtain ⟨outer, houter, hencloses⟩ := hinit hmem
          rw [hmerged] at houter
          obtain houter | houter := List.mem_append.mp houter
          · exact ⟨outer, List.mem_append_left _ houter, hencloses⟩
          · rw [List.mem_singleton.mp houter] at hencloses
            refine ⟨_, hnew, hencloses.1, ?_⟩
            rw [hstop]
            exact le_trans hencloses.2 (le_max_left _ _)
        · rw [List.mem_singleton.mp hmem]
          refine ⟨_, hnew, hoffset, ?_⟩
          rw [hstop]
          exact le_max_right _ _

end Coalesce

section View

variable {prefer : α → α → α} {windows : List (Window α)} {window : Window α} {position : Nat}

variable (prefer) in
/-- Windows show something exactly where one of them does. -/
theorem isSome_view_iff :
    (view prefer windows position).isSome ↔ ∃ window ∈ windows,
      (window.cellAt position).isSome := by
  induction windows using List.reverseRecOn with
  | nil => simp [view]
  | append_singleton init last ih =>
      rw [view_concat, Option.isSome_merge, Bool.or_eq_true, ih]
      simp [or_and_right, exists_or]

variable (prefer) in
/-- What windows that lie apart show is what the one of them shows that spans the position. -/
theorem view_eq_of_apart (hfilled : ∀ window ∈ windows, window.Filled)
    (hapart : windows.Pairwise Apart) (hmem : window ∈ windows) {entry : α}
    (hcell : window.cellAt position = some entry) :
    view prefer windows position = some entry := by
  induction windows using List.reverseRecOn with
  | nil => exact absurd hmem List.not_mem_nil
  | append_singleton init last ih =>
      obtain ⟨hinit, -, hcross⟩ := List.pairwise_append.mp hapart
      have hleft := fun other (hother : other ∈ init) =>
        hfilled other (List.mem_append_left _ hother)
      have hlast := hfilled last (List.mem_append_right _ (List.mem_singleton_self _))
      have hspans := ((hfilled window hmem).isSome_cellAt_iff position).mp
        (by rw [hcell]; rfl)
      rw [view_concat]
      obtain hmem | hmem := List.mem_append.mp hmem
      · have hgap := hcross window hmem last (List.mem_singleton_self _)
        have hnone : last.cellAt position = none := by
          rw [← Option.not_isSome_iff_eq_none, hlast.isSome_cellAt_iff]
          simp only [Spans, Apart] at hspans hgap ⊢
          omega
        rw [ih hleft hinit hmem, hnone, Option.merge_none_right]
      · rw [List.mem_singleton.mp hmem] at hspans hcell
        have hnone : view prefer init position = none := by
          rw [← Option.not_isSome_iff_eq_none, isSome_view_iff prefer]
          rintro ⟨other, hother, hsome⟩
          have hgap := hcross other hother last (List.mem_singleton_self _)
          have hother := ((hleft other hother).isSome_cellAt_iff position).mp hsome
          simp only [Spans, Apart] at hspans hother hgap
          omega
        rw [hnone, hcell, Option.merge_none_left]

/-- Where the preferred one of two entries is one of them and stands above both, windows show
an entry of one of them that stands above the entries of all. -/
theorem view_spec {r : α → α → Prop} [Std.Refl r] [IsTrans α r]
    (hchoice : ∀ left right, prefer left right = left ∨ prefer left right = right)
    (hleft : ∀ left right, r left (prefer left right))
    (hright : ∀ left right, r right (prefer left right)) {entry : α}
    (h : view prefer windows position = some entry) :
    (∃ window ∈ windows, window.cellAt position = some entry) ∧
      ∀ window ∈ windows, ∀ other, window.cellAt position = some other → r other entry := by
  induction windows using List.reverseRecOn generalizing entry with
  | nil => cases h
  | append_singleton init last ih =>
      rw [view_concat] at h
      have hsplit : ∀ window, window ∈ init ++ [last] ↔ window ∈ init ∨ window = last := by
        simp
      cases hview : view prefer init position with
      | none =>
          rw [hview, Option.merge_none_left] at h
          have hnone : ∀ window ∈ init, window.cellAt position = none := by
            intro window hmem
            rw [← Option.not_isSome_iff_eq_none]
            intro hsome
            have hshown := (isSome_view_iff prefer).mpr ⟨window, hmem, hsome⟩
            rw [hview] at hshown
            cases hshown
          constructor
          · exact ⟨last, (hsplit last).mpr (Or.inr rfl), h⟩
          · intro window hmem other hother
            obtain hmem | rfl := (hsplit window).mp hmem
            · rw [hnone window hmem] at hother
              cases hother
            · cases hother.symm.trans h
              exact Std.Refl.refl _
      | some shown =>
          obtain ⟨⟨origin, horigin, hcell⟩, habove⟩ := ih hview
          cases hlast : last.cellAt position with
          | none =>
              rw [hview, hlast, Option.merge_none_right] at h
              cases h
              constructor
              · exact ⟨origin, (hsplit origin).mpr (Or.inl horigin), hcell⟩
              · intro window hmem other hother
                obtain hmem | rfl := (hsplit window).mp hmem
                · exact habove window hmem other hother
                · rw [hlast] at hother
                  cases hother
          | some newer =>
              rw [hview, hlast, Option.merge_some_some] at h
              cases h
              constructor
              · obtain heq | heq := hchoice shown newer
                · exact ⟨origin, (hsplit origin).mpr (Or.inl horigin), by rw [hcell, heq]⟩
                · exact ⟨last, (hsplit last).mpr (Or.inr rfl), by rw [hlast, heq]⟩
              · intro window hmem other hother
                obtain hmem | rfl := (hsplit window).mp hmem
                · exact IsTrans.trans _ _ _ (habove window hmem other hother)
                    (hleft shown newer)
                · cases hlast.symm.trans hother
                  exact hright shown newer

end View

end Window
