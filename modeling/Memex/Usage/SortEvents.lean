import Memex.Lib.CycleRotation
import Memex.Usage.Merge

/-! # Sorting usage events

`sort_usage_events` of `usage/snapshot.rs`: the places of the events are sorted, with their
timestamps beside them, and the events are then rotated into these places. -/

namespace Memex.Usage

open CycleRotation KWayMerge

/-- `par_sort_unstable_by`. What it does with equal items is open; it sorts by a comparison that
is a total order of the items. -/
structure UnstableSort where
  run : {β : Type} → (β → β → Ordering) → List β → List β
  perm : ∀ {β : Type} (comparison : β → β → Ordering) (items : List β),
    (run comparison items).Perm items
  sorted : ∀ {β κ : Type} [LinearOrder κ] (key : β → κ) (comparison : β → β → Ordering)
    (items : List β), (∀ left ∈ items, ∀ right ∈ items,
      comparison left right = compare (key left) (key right)) →
    (run comparison items).Pairwise fun left right => key left ≤ key right

/-- The timestamps with the places of the events. -/
def sortEntries (events : List UsageEventView) : List (Nat × Nat) :=
  events.zipIdx.map fun event => (event.1.timestampMs, event.2)

/-- The comparison of two entries. Most are decided by the timestamp; the places are in bounds. -/
def compareEntries (events : List UsageEventView) (left right : Nat × Nat) : Ordering :=
  let byTime := compare left.1 right.1
  if byTime ≠ .eq then byTime
  else match events[left.2]?, events[right.2]? with
    | some a, some b => ((compare a.sourcePath b.sourcePath).then
        (compare a.sourceOrder b.sourceOrder)).then (compare left.2 right.2)
    | _, _ => .eq

/-- `sort_usage_events`, with the rounds on a cycle bounded by `fuel`. -/
def sortUsageEventsInPlace (sort : UnstableSort) (fuel : Nat) (events : List UsageEventView) :
    Option (List UsageEventView) :=
  let order := sort.run (compareEntries events) (sortEntries events)
  (rotateAll fuel (order.map Prod.snd) events).bind fun state => state.2.mapM id

/-- The events in stable order of their keys. -/
def stablySorted (events : List UsageEventView) : List UsageEventView :=
  events.insertionSort fun left right => left.sortKey ≤ right.sortKey

section Order

variable {events : List UsageEventView}

/-- The key of an entry: that of its event, then its place. -/
def entryKey (events : List UsageEventView) (entry : Nat × Nat) : SortKey ×ₗ ℕ :=
  toLex ((events[entry.2]?.map UsageEventData.sortKey).getD (toLex (0, toLex ("", 0))), entry.2)

theorem entryKey_eq {time place : Nat} {event : UsageEventView} (h : events[place]? = some event) :
    entryKey events (time, place) = toLex (event.sortKey, place) := by
  rw [entryKey, h, Option.map_some, Option.getD_some]

theorem exists_of_mem_sortEntries {entry : Nat × Nat} (h : entry ∈ sortEntries events) :
    ∃ event, events[entry.2]? = some event ∧ entry.1 = event.timestampMs := by
  obtain ⟨⟨event, place⟩, hmem, rfl⟩ := List.mem_map.mp h
  exact ⟨event, List.mk_mem_zipIdx_iff_getElem?.mp hmem, rfl⟩

/-- The comparison is the order of the keys. -/
theorem compareEntries_eq {left right : Nat × Nat} (hleft : left ∈ sortEntries events)
    (hright : right ∈ sortEntries events) :
    compareEntries events left right =
      compare (entryKey events left) (entryKey events right) := by
  obtain ⟨a, ha, hatime⟩ := exists_of_mem_sortEntries hleft
  obtain ⟨b, hb, hbtime⟩ := exists_of_mem_sortEntries hright
  obtain ⟨leftTime, leftPlace⟩ := left
  obtain ⟨rightTime, rightPlace⟩ := right
  rw [entryKey_eq ha, entryKey_eq hb, compareEntries, ha, hb]
  simp only at hatime hbtime
  subst hatime hbtime
  simp only [Prod.Lex.compare_def, compareLex, compareOn, UsageEventData.sortKey, ofLex_toLex]
  cases compare a.timestampMs b.timestampMs <;> rfl

theorem map_entryKey_sortEntries (events : List UsageEventView) :
    (sortEntries events).map (entryKey events) =
      events.zipIdx.map fun event => toLex (event.1.sortKey, event.2) := by
  rw [sortEntries, List.map_map]
  apply List.map_congr_left
  rintro ⟨event, place⟩ hmem
  exact entryKey_eq (List.mk_mem_zipIdx_iff_getElem?.mp hmem)

/-- The events with their places, in stable order of their keys. -/
def stablyPlaced (events : List UsageEventView) : List (UsageEventView × Nat) :=
  events.zipIdx.insertionSort fun left right => left.1.sortKey ≤ right.1.sortKey

theorem map_fst_stablyPlaced (events : List UsageEventView) :
    (stablyPlaced events).map Prod.fst = stablySorted events := by
  have hmap : (stablyPlaced events).map Prod.fst = (events.zipIdx.map Prod.fst).insertionSort
      fun left right => left.sortKey ≤ right.sortKey := by
    apply List.map_insertionSort
    exact fun _ _ _ _ => Iff.rfl
  rw [hmap, List.zipIdx_map_fst]
  rfl

/-- The order found by the sort is the stable one, though the sort is not stable: no two keys of
entries are equal. -/
theorem map_entryKey_run (sort : UnstableSort) (events : List UsageEventView) :
    (sort.run (compareEntries events) (sortEntries events)).map (entryKey events) =
      (stablyPlaced events).map fun event => toLex (event.1.sortKey, event.2) := by
  have hstable : (stablyPlaced events).map (fun event => toLex (event.1.sortKey, event.2)) =
      (events.zipIdx.map fun event => toLex (event.1.sortKey, event.2)).insertionSort KeyLE := by
    apply List.map_insertionSort
    exact fun _ _ _ _ => Iff.rfl
  rw [hstable]
  have hsorted := sort.sorted (entryKey events) (compareEntries events) (sortEntries events)
    fun _ hleft _ hright => compareEntries_eq hleft hright
  have hperm := (sort.perm (compareEntries events) (sortEntries events)).map (entryKey events)
  rw [map_entryKey_sortEntries] at hperm
  apply (hperm.trans (List.perm_insertionSort KeyLE _).symm).eq_of_pairwise
  · exact fun _ _ _ _ hle hge => le_antisymm hle hge
  · exact List.pairwise_map.mpr hsorted
  · apply pairwise_insertionSort
    apply List.pairwise_map.mpr
    have hplaces : (events.zipIdx.map Prod.snd).Pairwise (· ≤ ·) := by
      rw [List.zipIdx_map_snd]
      exact List.pairwise_le_range'
    exact List.pairwise_map.mp hplaces

/-- The places in the order found. -/
theorem map_snd_run (sort : UnstableSort) (events : List UsageEventView) :
    (sort.run (compareEntries events) (sortEntries events)).map Prod.snd =
      (stablyPlaced events).map Prod.snd := by
  have hplaces := congrArg (List.map fun key => (ofLex key).2) (map_entryKey_run sort events)
  rw [List.map_map, List.map_map] at hplaces
  exact hplaces

theorem perm_stablyPlaced (events : List UsageEventView) :
    ((stablyPlaced events).map Prod.snd).Perm (List.range events.length) := by
  have hperm := (List.perm_insertionSort
    (fun left right => left.1.sortKey ≤ right.1.sortKey) events.zipIdx).map Prod.snd
  rw [List.zipIdx_map_snd, ← List.range_eq_range'] at hperm
  exact hperm

theorem getElem?_of_mem_stablyPlaced {event : UsageEventView × Nat}
    (h : event ∈ stablyPlaced events) : events[event.2]? = some event.1 := by
  have hmem := (List.perm_insertionSort _ events.zipIdx).mem_iff.mp h
  exact List.mk_mem_zipIdx_iff_getElem?.mp hmem

theorem mapM_id_some {α : Type} (items : List α) : (items.map some).mapM id = some items := by
  induction items with
  | nil => rfl
  | cons item rest ih =>
      rw [List.map_cons, List.mapM_cons, ih]
      rfl

end Order

/-- For every list of events and whatever the sort does with equal items, the rotation ends, never
takes an event that is gone nor overwrites one, and leaves the events in stable order. -/
theorem sort_usage_events_in_place (sort : UnstableSort) (events : List UsageEventView) :
    (∀ fuel, events.length ≤ fuel →
      sortUsageEventsInPlace sort fuel events = some (stablySorted events)) ∧
    (stablySorted events).Perm events := by
  refine ⟨fun fuel hfuel => ?_, List.perm_insertionSort _ events⟩
  rw [sortUsageEventsInPlace, map_snd_run,
    rotateAll_eq (perm_stablyPlaced events) hfuel, Option.bind_some, List.map_map]
  have hcells : (stablyPlaced events).map ((fun place => events[place]?) ∘ Prod.snd) =
      (stablySorted events).map some := by
    rw [← map_fst_stablyPlaced, List.map_map]
    apply List.map_congr_left
    intro event hevent
    exact getElem?_of_mem_stablyPlaced hevent
  rw [hcells]
  exact mapM_id_some _

/-- A sort of that kind: insertion sort. -/
def insertionSorts : UnstableSort where
  run comparison items := items.insertionSort fun left right => (comparison left right).isLE
  perm _ _ := List.perm_insertionSort _ _
  sorted key comparison items h := by
    have hsame : (items.insertionSort fun left right =>
        (comparison left right).isLE).map id = (items.map id).insertionSort
          fun left right => key left ≤ key right := by
      apply List.map_insertionSort
      intro left hleft right hright
      rw [h left hleft right hright, Ordering.isLE_iff_ne_gt, compare_gt_iff_gt, not_lt]
      rfl
    rw [List.map_id, List.map_id] at hsame
    rw [hsame]
    exact List.pairwise_insertionSort _ items

/-- Three events on one cycle, two of them tied. -/
def cyclicEvents : List UsageEventView :=
  [{ eventAt "log" 7 with messageId := some "first" },
    { eventAt "log" 5 with messageId := some "second" },
    { eventAt "log" 5 with messageId := some "third" }]

theorem sort_usage_events_in_place_of_cycle :
    sortUsageEventsInPlace insertionSorts 3 cyclicEvents = some (stablySorted cyclicEvents) :=
  (sort_usage_events_in_place insertionSorts cyclicEvents).1 3 (by decide)

example : (sortUsageEventsInPlace insertionSorts 3 cyclicEvents).map
    (List.map UsageEventData.messageId) = some [some "second", some "third", some "first"] := by
  decide +kernel

end Memex.Usage
