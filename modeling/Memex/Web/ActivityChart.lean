import Mathlib.Data.List.MinMax
import Memex.Web.Activity

/-! # The chart groups the events

However the machines' activity was added up before, the chart has the totals of the events on its
columns. -/

namespace Memex.Web.Activity

open Totals

/-! ## Grids -/

variable {unit now timestamp : Nat}

theorem divCeil_succ (count size : Nat) (h : 0 < size) :
    divCeil (count + 1) size = count / size + 1 := by
  rw [divCeil, Nat.add_right_comm, Nat.add_sub_cancel, Nat.add_div_right _ h]

/-- A grid of whole units, with at most sixty columns. -/
structure Grid.Aligned (unit now : Nat) (grid : Grid) (first last size : Nat) : Prop where
  start : grid.start = first * unit
  stop : grid.stop = last * unit
  step : grid.step = size * unit
  le : first ≤ last
  now : grid.stop ≤ now
  pos : 0 < size
  columns : (last - first) / size < 60

theorem gridOf_aligned (hunit : 0 < unit) (now : Nat) (since : Option Nat) {first : Option Nat}
    (hfirst : ∀ time ∈ first, unit ∣ time) :
    ∃ low high size, (gridOf unit now since first).Aligned unit now low high size := by
  have hstart : unit ∣ ((since.map (· / unit * unit)).or first).getD (now / unit * unit) := by
    cases since with
    | some time => exact Nat.dvd_mul_left unit (time / unit)
    | none =>
        cases first with
        | some time => exact hfirst time rfl
        | none => exact Nat.dvd_mul_left unit (now / unit)
  obtain ⟨low, hlow⟩ : ∃ low, ((since.map (· / unit * unit)).or first).getD (now / unit * unit) =
      low * unit := by
    obtain ⟨low, hlow⟩ := hstart
    exact ⟨low, hlow.trans (Nat.mul_comm _ _)⟩
  have hmin : min (low * unit) (now / unit * unit) = min low (now / unit) * unit :=
    Nat.mul_min_mul_right _ _ _
  have hle : min low (now / unit) ≤ now / unit := Nat.min_le_right _ _
  have hunits : (now / unit * unit - min low (now / unit) * unit) / unit =
      now / unit - min low (now / unit) := by
    rw [← Nat.sub_mul, Nat.mul_div_cancel _ hunit]
  refine ⟨min low (now / unit), now / unit,
    (now / unit - min low (now / unit)) / 60 + 1, ?_, rfl, ?_, hle, ?_, ?_, ?_⟩
  · rw [gridOf, hlow, hmin]
  · rw [gridOf, hlow, hmin, hunits, divCeil_succ _ _ (by decide)]
  · exact Nat.div_mul_le_self now unit
  · exact Nat.succ_pos _
  · rw [Nat.div_lt_iff_lt_mul (Nat.succ_pos _)]
    omega

namespace Grid.Aligned

variable {grid : Grid} {first last size : Nat}

/-- The columns there are. -/
theorem count_eq (h : grid.Aligned unit now first last size) (hunit : 0 < unit) :
    divCeil ((grid.stop - grid.start) / unit + 1) (grid.step / unit) =
      (last - first) / size + 1 := by
  rw [h.start, h.stop, h.step, ← Nat.sub_mul, Nat.mul_div_cancel _ hunit,
    Nat.mul_div_cancel _ hunit, divCeil_succ _ _ h.pos]

/-- A column begins at a whole unit, and not after the end. -/
theorem column_le (h : grid.Aligned unit now first last size) {index : Nat}
    (hindex : index ≤ (last - first) / size) :
    grid.start + index * grid.step = (first + index * size) * unit ∧
      grid.start + index * grid.step ≤ grid.stop := by
  have heq : grid.start + index * grid.step = (first + index * size) * unit := by
    rw [h.start, h.step, Nat.add_mul, Nat.mul_assoc]
  have hle : index * size ≤ last - first :=
    (Nat.le_div_iff_mul_le h.pos).mp hindex
  have hfirst := h.le
  refine ⟨heq, ?_⟩
  rw [heq, h.stop]
  apply Nat.mul_le_mul_right
  omega

/-- Whether the unit of a time is in the grid is told by the time. -/
theorem mem_iff (h : grid.Aligned unit now first last size) (hunit : 0 < unit) :
    (¬ (timestamp / unit * unit < grid.start ∨ grid.stop < timestamp / unit * unit)) ↔
      grid.start ≤ timestamp ∧ timestamp < grid.stop + unit := by
  rw [not_or, Nat.not_lt, Nat.not_lt, h.start, h.stop, Nat.mul_le_mul_right_iff hunit,
    Nat.mul_le_mul_right_iff hunit, Nat.le_div_iff_mul_le hunit,
    ← @Nat.lt_succ_iff (timestamp / unit), Nat.div_lt_iff_lt_mul hunit, Nat.succ_mul]

theorem index_floor (h : grid.Aligned unit now first last size) (hunit : 0 < unit) :
    (timestamp / unit * unit - grid.start) / grid.step =
      (timestamp - grid.start) / grid.step := by
  rw [h.start, h.step, ← Nat.sub_mul, Nat.mul_div_mul_right _ _ hunit, Nat.mul_comm size unit,
    ← Nat.div_div_eq_div_mul, Nat.mul_comm first unit, Nat.sub_mul_div]

/-- A time and its unit have one column. -/
theorem column_floor (h : grid.Aligned unit now first last size) (hunit : 0 < unit) :
    grid.column (timestamp / unit * unit) = grid.column timestamp := by
  rw [Grid.column, Grid.column, h.index_floor hunit]

theorem index_le (h : grid.Aligned unit now first last size) (hunit : 0 < unit)
    (hlt : timestamp < grid.stop + unit) :
    (timestamp - grid.start) / grid.step ≤ (last - first) / size := by
  rw [h.start, h.step, Nat.mul_comm size unit, ← Nat.div_div_eq_div_mul, Nat.mul_comm first unit,
    Nat.sub_mul_div]
  apply Nat.div_le_div_right
  rw [h.stop, ← Nat.succ_mul, ← Nat.div_lt_iff_lt_mul hunit] at hlt
  omega

end Grid.Aligned

/-! ## Buckets -/

section Buckets

variable {chrono : Chrono}

/-- The dated events with the keys of their buckets. -/
def rawEntries (chrono : Chrono) (unit : Nat) (events : List Event) : Buckets :=
  events.filterMap fun event =>
    if event.isDated chrono then
      some (toLex (event.timestampMs / unit * unit, event.source), event.value)
    else none

theorem foldl_addActivityValue (chrono : Chrono) (unit : Nat) (events : List Event)
    (buckets : Buckets) :
    events.foldl (addActivityValue chrono unit) buckets =
      (rawEntries chrono unit events).foldl (fun sums entry => add entry.1 entry.2 sums)
        buckets := by
  induction events generalizing buckets with
  | nil => rfl
  | cons event rest ih =>
      rw [List.foldl_cons, ih, addActivityValue]
      cases hdated : event.isDated chrono with
      | true =>
          have hcons : rawEntries chrono unit (event :: rest) =
              (toLex (event.timestampMs / unit * unit, event.source), event.value) ::
                rawEntries chrono unit rest := List.filterMap_cons_some (if_pos hdated)
          rw [hcons]
          rfl
      | false =>
          have hskip : rawEntries chrono unit (event :: rest) = rawEntries chrono unit rest :=
            List.filterMap_cons_none (by simp [hdated])
          rw [hskip]
          rfl

/-- The points of a payload with the keys of their buckets. -/
def pointEntries (points : List RawActivityPoint) : Buckets :=
  points.map fun point => (toLex (point.timestampMs, point.source), point.value)

theorem pointEntries_rawPoints (chrono : Chrono) (unit : Nat) (events : List Event) :
    pointEntries (rawPoints chrono unit events) = totals (rawEntries chrono unit events) := by
  rw [pointEntries, rawPoints, foldl_addActivityValue, List.map_map]
  exact List.map_id _

theorem rawEntries_flatMap {α : Type} (events : α → List Event) (machines : List α) :
    rawEntries chrono unit (machines.flatMap events) =
      machines.flatMap fun machine => rawEntries chrono unit (events machine) :=
  List.filterMap_flatMap

/-- The points of machines have added up the events of all. -/
theorem regroups_pointEntries (machines : List Machine) :
    Regroups (rawEntries chrono unit (machines.flatMap (·.events)))
      (pointEntries (machines.flatMap fun machine => rawPoints chrono unit machine.events)) := by
  have hpoints : pointEntries (machines.flatMap fun machine =>
      rawPoints chrono unit machine.events) =
      machines.flatMap fun machine => totals (rawEntries chrono unit machine.events) := by
    rw [pointEntries, List.map_flatMap]
    exact List.flatMap_congr fun machine _ => pointEntries_rawPoints chrono unit machine.events
  rw [rawEntries_flatMap, hpoints]
  exact Regroups.flatMap (fun machine => regroups_totals _) machines

/-- The earliest unit with activity. -/
def earliest (entries : Buckets) : Option Nat :=
  (entries.map fun entry => (ofLex entry.1).1).min?

/-- The first bucket has the earliest time. -/
theorem firstTimestamp_totals (entries : Buckets) :
    firstTimestamp (totals entries) = earliest entries := by
  have hkeys := (regroups_totals entries).mem_keys
  have hsorted := sorted_totals entries
  cases htotals : totals entries with
  | nil =>
      have hnone : entries = [] := by
        apply List.eq_nil_iff_forall_not_mem.mpr
        intro entry hmem
        have hkey := (hkeys entry.1).mp (List.mem_map_of_mem hmem)
        rw [htotals] at hkey
        cases hkey
      rw [hnone]
      rfl
  | cons bucket rest =>
      symm
      apply List.min?_eq_some_iff.mpr
      constructor
      · have hkey : bucket.1 ∈ entries.map Prod.fst := by
          rw [hkeys, htotals]
          exact List.mem_cons_self
        obtain ⟨entry, hmem, hsame⟩ := List.mem_map.mp hkey
        exact List.mem_map.mpr ⟨entry, hmem, by rw [hsame]⟩
      · intro time hmem
        obtain ⟨entry, hentry, rfl⟩ := List.mem_map.mp hmem
        have hkey := (hkeys entry.1).mp (List.mem_map_of_mem hentry)
        rw [htotals] at hkey hsorted
        obtain ⟨hfirst, -⟩ := List.pairwise_cons.mp hsorted
        cases List.mem_cons.mp hkey with
        | inl hsame => rw [hsame]
        | inr hrest => exact Prod.Lex.monotone_fst _ _ (hfirst _ hrest).le

theorem dvd_earliest (events : List Event) :
    ∀ time ∈ earliest (rawEntries chrono unit events), unit ∣ time := by
  intro time hmem
  have hin := List.min?_mem hmem
  obtain ⟨entry, hentry, rfl⟩ := List.mem_map.mp hin
  obtain ⟨event, -, hevent⟩ := List.mem_filterMap.mp hentry
  split at hevent
  next =>
    obtain rfl := Option.some.inj hevent
    exact Nat.dvd_mul_left _ _
  next => cases hevent

end Buckets

/-! ## Merged payloads -/

/-- Payloads that all arrived are merged to the points of all. -/
theorem foldl_offer (metric : ActivityMetric) (payloads : List (String × RawActivityPayload))
    (merge : Merge) :
    let last := (payloads.map fun (id, raw) => (id, (.ok raw : Except String _))).foldl
      (Merge.offer metric) merge
    last.merged.points = merge.merged.points ++ payloads.flatMap (·.2.points) ∧
      last.successes = merge.successes + payloads.length ∧ last.errors = merge.errors := by
  induction payloads generalizing merge with
  | nil => exact ⟨(List.append_nil _).symm, rfl, rfl⟩
  | cons payload rest ih =>
      obtain ⟨hpoints, hsuccesses, herrors⟩ := ih (merge.offer metric (payload.1, .ok payload.2))
      refine ⟨?_, ?_, herrors⟩
      · rw [List.flatMap_cons, ← List.append_assoc]
        exact hpoints
      · rw [List.length_cons, Nat.add_comm rest.length, ← Nat.add_assoc]
        exact hsuccesses

theorem exists_mergeActivityResults {payloads : List (String × RawActivityPayload)}
    (hne : payloads ≠ []) (metric : ActivityMetric) :
    ∃ raw, mergeActivityResults (payloads.map fun (id, raw) => (id, .ok raw)) metric = .ok raw ∧
      raw.points = payloads.flatMap (·.2.points) := by
  obtain ⟨hpoints, hsuccesses, -⟩ := foldl_offer metric payloads {}
  have hpos := List.length_pos_iff.mpr hne
  refine ⟨_, if_neg ?_, hpoints⟩
  rw [hsuccesses]
  omega

/-! ## Charts -/

/-- The first time whose year has five digits. -/
def fiveDigitYearMs : Nat := 253402300800000

/-- What is known of a calendar: its dates have no gap, texts tell whole units apart, and they
ascend while years have four digits. -/
structure Chrono.Documented (chrono : Chrono) : Prop where
  valid_of_le : ∀ left right : Nat, left ≤ right → chrono.isValid right = true →
    chrono.isValid left = true
  format_injective : ∀ unit ∈ [hourMs, dayMs], ∀ left right : Nat,
    chrono.isValid (left * unit : Nat) = true → chrono.isValid (right * unit : Nat) = true →
    chrono.format (pattern unit) (left * unit : Nat) =
      chrono.format (pattern unit) (right * unit : Nat) → left = right
  format_lt : ∀ unit ∈ [hourMs, dayMs], ∀ left right : Nat, left < right →
    chrono.isValid (right * unit : Nat) = true → right * unit < fiveDigitYearMs →
    chrono.format (pattern unit) (left * unit : Nat) <
      chrono.format (pattern unit) (right * unit : Nat)

section Charts

variable (chrono : Chrono) (unit : Nat) (grid : Grid)

/-- The text of a time. -/
def textOf (timestamp : Nat) : String := chrono.format (pattern unit) timestamp

/-- Whether an event is one of the grid. -/
def Event.inGrid (event : Event) : Bool :=
  event.isDated chrono && grid.start ≤ event.timestampMs && event.timestampMs < grid.stop + unit

/-- The column of an event and its source. -/
def Event.columnKey (event : Event) : String ×ₗ String :=
  toLex (textOf chrono unit (grid.column event.timestampMs), event.source)

/-- The events of the grid with their columns. -/
def directEntries (events : List Event) : Groups :=
  (events.filter (Event.inGrid chrono unit grid)).map fun event =>
    (event.columnKey chrono unit grid, event.value)

def toPoints (groups : Groups) : List ActivityPoint :=
  groups.map fun group => ⟨(ofLex group.1).1, (ofLex group.1).2, group.2⟩

/-- The events of the grid, grouped by their columns. -/
def directPoints (events : List Event) : List ActivityPoint :=
  toPoints (totals (directEntries chrono unit grid events))

/-- The grid of the events. -/
def directGrid (now : Nat) (since : Option Nat) (events : List Event) : Grid :=
  gridOf unit now since (earliest (rawEntries chrono unit events))

/-- The texts of the columns. -/
def directKeys : List String :=
  (List.range (divCeil ((grid.stop - grid.start) / unit + 1) (grid.step / unit))).map fun index =>
    textOf chrono unit (grid.start + index * grid.step)

/-- The column of a bucket of the grid. -/
def bucketColumn (key : Nat ×ₗ String) : Option (String ×ₗ String) :=
  if (ofLex key).1 < grid.start ∨ grid.stop < (ofLex key).1 then none
  else some (toLex (textOf chrono unit (grid.column (ofLex key).1), (ofLex key).2))

variable {chrono unit grid} {first last size : Nat}

theorem mapM_eq_some {α β : Type} {f : α → Option β} {g : α → β} {items : List α}
    (h : ∀ item ∈ items, f item = some (g item)) : items.mapM f = some (items.map g) := by
  induction items with
  | nil => rfl
  | cons item rest ih =>
      rw [List.mapM_cons, h item List.mem_cons_self,
        ih fun other hmem => h other (List.mem_cons_of_mem _ hmem)]
      rfl

theorem label_eq_some (h : chrono.Documented) (hnow : chrono.isValid now = true)
    (hlt : now < 2 ^ 63) (hle : timestamp ≤ now) :
    label chrono unit timestamp = some (textOf chrono unit timestamp) := by
  have hcast : asI64 timestamp = timestamp := if_pos (hle.trans_lt hlt)
  rw [label, hcast, if_pos (h.valid_of_le timestamp now hle hnow), textOf]

theorem Grid.Aligned.column_le_now (h : grid.Aligned unit now first last size)
    (hunit : 0 < unit) (hlt : timestamp < grid.stop + unit) : grid.column timestamp ≤ now :=
  (h.column_le (h.index_le hunit hlt)).2.trans h.now

/-- The loop over the buckets adds them up by their columns. -/
theorem foldlM_regroup (h : chrono.Documented) (hnow : chrono.isValid now = true)
    (hlt : now < 2 ^ 63) (hunit : 0 < unit) (hgrid : grid.Aligned unit now first last size)
    (buckets : Buckets) (groups : Groups) :
    buckets.foldlM (regroup chrono unit grid) groups =
      some ((mapKeys (bucketColumn chrono unit grid) buckets).foldl
        (fun sums entry => add entry.1 entry.2 sums) groups) := by
  induction buckets generalizing groups with
  | nil => rfl
  | cons bucket rest ih =>
      obtain ⟨key, value⟩ := bucket
      rw [List.foldlM_cons]
      by_cases hout : (ofLex key).1 < grid.start ∨ grid.stop < (ofLex key).1
      · have hskip : mapKeys (bucketColumn chrono unit grid) ((key, value) :: rest) =
            mapKeys (bucketColumn chrono unit grid) rest :=
          List.filterMap_cons_none (by rw [bucketColumn, if_pos hout]; rfl)
        have hstep : regroup chrono unit grid groups (key, value) = some groups :=
          if_pos (by simpa using hout)
        rw [hstep, hskip]
        exact ih groups
      · have hcons : mapKeys (bucketColumn chrono unit grid) ((key, value) :: rest) =
            (toLex (textOf chrono unit (grid.column (ofLex key).1), (ofLex key).2), value) ::
              mapKeys (bucketColumn chrono unit grid) rest :=
          List.filterMap_cons_some (by rw [bucketColumn, if_neg hout]; rfl)
        have hin : (ofLex key).1 < grid.stop + unit := by omega
        have hstep : regroup chrono unit grid groups (key, value) =
            some (add (toLex (textOf chrono unit (grid.column (ofLex key).1), (ofLex key).2)) value
              groups) := by
          have hlabel := @label_eq_some now _ chrono unit h hnow hlt
            (hgrid.column_le_now hunit hin)
          rw [regroup]
          dsimp only
          rw [if_neg (by simpa using hout), hlabel, Option.map_some]
        rw [hstep, hcons]
        exact ih _

/-- Of the dated events those of the grid have columns. -/
theorem mapKeys_rawEntries (hunit : 0 < unit) (hgrid : grid.Aligned unit now first last size)
    (events : List Event) :
    mapKeys (bucketColumn chrono unit grid) (rawEntries chrono unit events) =
      directEntries chrono unit grid events := by
  rw [mapKeys, rawEntries, List.filterMap_filterMap, directEntries, ← List.filterMap_eq_map,
    List.filterMap_filter]
  apply List.filterMap_congr
  intro event _
  cases hdated : event.isDated chrono with
  | false => simp [Event.inGrid, hdated]
  | true =>
      have hmem := @Grid.Aligned.mem_iff unit now event.timestampMs grid first last size hgrid hunit
      have hcolumn := @Grid.Aligned.column_floor unit now event.timestampMs grid first last size
        hgrid hunit
      by_cases hin : grid.start ≤ event.timestampMs ∧ event.timestampMs < grid.stop + unit
      · have hkey : bucketColumn chrono unit grid
            (toLex (event.timestampMs / unit * unit, event.source)) =
            some (toLex (textOf chrono unit (grid.column (event.timestampMs / unit * unit)),
              event.source)) := if_neg (hmem.mpr hin)
        have hsome : event.inGrid chrono unit grid = true := by
          simpa [Event.inGrid, hdated] using hin
        simp only [Option.bind_some, if_true, hkey, hcolumn, hsome, Option.map_some,
          Event.columnKey, Function.comp]
      · have hkey : bucketColumn chrono unit grid
            (toLex (event.timestampMs / unit * unit, event.source)) = none :=
          if_pos (not_not.mp (mt hmem.mp hin))
        have hnone : event.inGrid chrono unit grid = false := by
          simpa [Event.inGrid, hdated] using hin
        simp only [Option.bind_some, if_true, hkey, hnone, Option.map_none, Bool.false_eq_true,
          if_false]

/-- The chart of the buckets is that of the events. -/
theorem activityBuckets_totals (h : chrono.Documented) (hnow : chrono.isValid now = true)
    (hlt : now < 2 ^ 63) (hunit : 0 < unit) (since : Option Nat) (events : List Event)
    (hgrid : grid = directGrid chrono unit now since events) :
    activityBuckets chrono (totals (rawEntries chrono unit events)) since now unit =
      some (directKeys chrono unit grid, directPoints chrono unit grid events,
        (((grid.stop - grid.start) / dayMs + 1 : Nat) : Int)) := by
  obtain ⟨first, last, size, haligned⟩ := gridOf_aligned hunit now since
    (@dvd_earliest unit chrono events)
  rw [directGrid] at hgrid
  rw [← hgrid] at haligned
  have hkeys : ((List.range (divCeil ((grid.stop - grid.start) / unit + 1)
      (grid.step / unit))).mapM fun index =>
        label chrono unit (grid.start + index * grid.step)) =
      some (directKeys chrono unit grid) := by
    apply mapM_eq_some
    intro index hindex
    rw [List.mem_range, haligned.count_eq hunit, Nat.lt_succ_iff] at hindex
    exact label_eq_some h hnow hlt ((haligned.column_le hindex).2.trans haligned.now)
  have hgroups : (totals (rawEntries chrono unit events)).foldlM (regroup chrono unit grid) [] =
      some (totals (directEntries chrono unit grid events)) := by
    rw [foldlM_regroup h hnow hlt hunit haligned, ← mapKeys_rawEntries hunit haligned events]
    exact congrArg some
      ((regroups_totals (rawEntries chrono unit events)).mapKeys _).totals_eq.symm
  simp only [activityBuckets, firstTimestamp_totals, ← hgrid, hkeys, hgroups, Option.bind_some,
    Option.map_some]
  rfl

/-- The texts of the columns are those of whole units. -/
theorem directKeys_eq (hunit : 0 < unit) (hgrid : grid.Aligned unit now first last size) :
    directKeys chrono unit grid = (List.range ((last - first) / size + 1)).map fun index =>
      textOf chrono unit ((first + index * size) * unit) := by
  rw [directKeys, hgrid.count_eq hunit]
  apply List.map_congr_left
  intro index hindex
  rw [List.mem_range, Nat.lt_succ_iff] at hindex
  rw [(hgrid.column_le hindex).1]

theorem length_directKeys_le (hunit : 0 < unit)
    (hgrid : grid.Aligned unit now first last size) :
    (directKeys chrono unit grid).length ≤ 60 := by
  rw [directKeys_eq hunit hgrid, List.length_map, List.length_range]
  exact hgrid.columns

/-- The time of a column is not after now. -/
theorem Grid.Aligned.mul_le_now (hgrid : grid.Aligned unit now first last size) {index : Nat}
    (hindex : index ∈ List.range ((last - first) / size + 1)) :
    (first + index * size) * unit ≤ now := by
  rw [List.mem_range, Nat.lt_succ_iff] at hindex
  obtain ⟨heq, hle⟩ := hgrid.column_le hindex
  rw [← heq]
  exact hle.trans hgrid.now

theorem nodup_directKeys (h : chrono.Documented) (hnow : chrono.isValid now = true)
    (hunit : unit ∈ [hourMs, dayMs]) (hpos : 0 < unit)
    (hgrid : grid.Aligned unit now first last size) : (directKeys chrono unit grid).Nodup := by
  rw [directKeys_eq hpos hgrid]
  apply List.Nodup.map_on _ List.nodup_range
  intro left hleft right hright hsame
  have hvalid : ∀ index ∈ List.range ((last - first) / size + 1),
      chrono.isValid ((first + index * size) * unit : Nat) = true := fun index hindex =>
    h.valid_of_le _ now (hgrid.mul_le_now hindex) hnow
  have heq := h.format_injective unit hunit _ _ (hvalid left hleft) (hvalid right hright) hsame
  exact Nat.eq_of_mul_eq_mul_right hgrid.pos (Nat.add_left_cancel heq)

theorem pairwise_directKeys (h : chrono.Documented) (hnow : chrono.isValid now = true)
    (hunit : unit ∈ [hourMs, dayMs]) (hpos : 0 < unit) (hyear : now < fiveDigitYearMs)
    (hgrid : grid.Aligned unit now first last size) :
    (directKeys chrono unit grid).Pairwise (· < ·) := by
  rw [directKeys_eq hpos hgrid, List.pairwise_map]
  apply List.Pairwise.imp_of_mem _ List.pairwise_lt_range
  intro left right _ hright hlt
  have hle := hgrid.mul_le_now hright
  apply h.format_lt unit hunit _ _ _ (h.valid_of_le _ now hle hnow) (hle.trans_lt hyear)
  exact Nat.add_lt_add_left (Nat.mul_lt_mul_of_pos_right hlt hgrid.pos) first

/-- A point is the total of the events of its column and source. -/
theorem mem_directPoints_iff {events : List Event} {point : ActivityPoint} :
    point ∈ directPoints chrono unit grid events ↔
      let own := events.filter fun event => event.inGrid chrono unit grid &&
        event.columnKey chrono unit grid = toLex (point.date, point.source)
      own ≠ [] ∧ point.value.value = min (own.map fun event => event.value.value).sum
        (2 ^ 64 - 1) := by
  have hpoint : point ∈ directPoints chrono unit grid events ↔
      (toLex (point.date, point.source), point.value) ∈
        totals (directEntries chrono unit grid events) := by
    rw [directPoints, toPoints, List.mem_map]
    constructor
    · rintro ⟨group, hmem, rfl⟩
      exact hmem
    · exact fun hmem => ⟨_, hmem, rfl⟩
  have hown : (directEntries chrono unit grid events).filter (fun entry =>
      entry.1 = toLex (point.date, point.source)) =
      (events.filter fun event => event.inGrid chrono unit grid &&
        event.columnKey chrono unit grid = toLex (point.date, point.source)).map fun event =>
          (event.columnKey chrono unit grid, event.value) := by
    rw [directEntries, List.filter_map, List.filter_filter]
    simp only [Function.comp_def, Bool.and_comm]
  rw [hpoint, mem_totals_iff, sumAt, hown, List.map_map]
  dsimp only
  generalize hlist : (events.filter fun event => event.inGrid chrono unit grid &&
    event.columnKey chrono unit grid = toLex (point.date, point.source)) = own at *
  have hkey : toLex (point.date, point.source) ∈
      (directEntries chrono unit grid events).map Prod.fst ↔ own ≠ [] := by
    constructor
    · intro hmem hnil
      obtain ⟨entry, hentry, hsame⟩ := List.mem_map.mp hmem
      rw [hnil, List.map_nil, List.filter_eq_nil_iff] at hown
      exact hown entry hentry (decide_eq_true hsame)
    · intro hne
      obtain ⟨event, hevent⟩ := List.exists_mem_of_ne_nil _ hne
      have hmem : (event.columnKey chrono unit grid, event.value) ∈
          (directEntries chrono unit grid events).filter (fun entry =>
            entry.1 = toLex (point.date, point.source)) := by
        rw [hown]
        exact List.mem_map_of_mem hevent
      obtain ⟨hentry, hsame⟩ := List.mem_filter.mp hmem
      exact List.mem_map.mpr ⟨_, hentry, of_decide_eq_true hsame⟩
  have hsum : (own.map (Prod.snd ∘ fun event : Event =>
      (event.columnKey chrono unit grid, event.value))).sum = point.value ↔
      point.value.value = min (own.map fun event => event.value.value).sum (2 ^ 64 - 1) := by
    have hvalue := Count.value_sum (own.map fun event => event.value)
    rw [List.map_map] at hvalue
    constructor
    · intro heq
      rw [← heq]
      exact hvalue
    · intro heq
      exact Count.ext (hvalue.trans heq.symm)
  rw [hkey, hsum]

/-- The date of a point is a column's. -/
theorem date_mem_directKeys (hunit : 0 < unit) (hgrid : grid.Aligned unit now first last size)
    {events : List Event} {point : ActivityPoint}
    (hmem : point ∈ directPoints chrono unit grid events) :
    point.date ∈ directKeys chrono unit grid := by
  obtain ⟨hne, -⟩ := mem_directPoints_iff.mp hmem
  obtain ⟨event, hevent⟩ := List.exists_mem_of_ne_nil _ hne
  have hboth := (List.mem_filter.mp hevent).2
  rw [Bool.and_eq_true, decide_eq_true_iff, Event.inGrid, Bool.and_eq_true,
    decide_eq_true_iff] at hboth
  obtain ⟨⟨-, hlt⟩, hkey⟩ := hboth
  have hdate : textOf chrono unit (grid.column event.timestampMs) = point.date :=
    congrArg (fun key => (ofLex key).1) hkey
  rw [← hdate, directKeys]
  apply List.mem_map.mpr
  refine ⟨(event.timestampMs - grid.start) / grid.step, ?_, rfl⟩
  rw [List.mem_range, hgrid.count_eq hunit, Nat.lt_succ_iff]
  exact hgrid.index_le hunit hlt

/-! ## Machines in any order -/

theorem rawEntries_perm {events others : List Event} (h : events.Perm others) :
    (rawEntries chrono unit events).Perm (rawEntries chrono unit others) :=
  h.filterMap _

end Charts

theorem bucketMs_mem (request : ActivityRequest) : bucketMs request ∈ [hourMs, dayMs] := by
  rw [bucketMs]
  split
  next => exact List.mem_cons_self
  next => exact List.mem_cons_of_mem _ List.mem_cons_self

theorem bucketMs_pos (request : ActivityRequest) : 0 < bucketMs request := by
  rw [bucketMs]
  split <;> decide

/-- The events of all machines. -/
def allEvents (machines : List Machine) : List Event := machines.flatMap (·.events)

/-- The machines' results, merged in the order they arrive, give the chart of all events. -/
theorem exists_chart {chrono : Chrono} (h : chrono.Documented) {now : Nat}
    (hnow : chrono.isValid now = true) (hlt : now < 2 ^ 63) (request : ActivityRequest)
    {machines arrived : List Machine} (hperm : arrived.Perm machines) (hne : machines ≠ []) :
    ∃ raw payload,
      mergeActivityResults (arrived.map fun machine =>
        (machine.id, .ok (rawActivityPayload chrono (bucketMs request) machine)))
        request.metric = .ok raw ∧
      finishActivityPayload chrono raw request now = some payload ∧
      payload.points = directPoints chrono (bucketMs request)
        (directGrid chrono (bucketMs request) now (sinceOf request now) (allEvents machines))
        (allEvents machines) ∧
      payload.bucketKeys = directKeys chrono (bucketMs request)
        (directGrid chrono (bucketMs request) now (sinceOf request now)
          (allEvents machines)) := by
  have harrived : arrived.map (fun machine =>
      (machine.id, rawActivityPayload chrono (bucketMs request) machine)) ≠ [] := by
    rw [Ne, List.map_eq_nil_iff]
    rintro rfl
    exact hne hperm.nil_eq.symm
  obtain ⟨raw, hmerged, hpoints⟩ := exists_mergeActivityResults harrived request.metric
  rw [List.map_map] at hmerged
  rw [List.flatMap_map] at hpoints
  have hevents : (allEvents arrived).Perm (allEvents machines) := hperm.flatMap_right _
  have hbuckets : raw.points.foldl (fun (buckets : Buckets) point =>
      add (toLex (point.timestampMs, point.source)) point.value buckets) [] =
      totals (rawEntries chrono (bucketMs request) (allEvents machines)) := by
    calc _ = totals (pointEntries raw.points) := by
          rw [totals, pointEntries, List.foldl_map]
      _ = totals (rawEntries chrono (bucketMs request) (allEvents arrived)) := by
          rw [hpoints]
          exact (regroups_pointEntries arrived).totals_eq.symm
      _ = _ := (Regroups.perm (rawEntries_perm hevents)).totals_eq
  have hchart := activityBuckets_totals h hnow hlt (bucketMs_pos request) (sinceOf request now)
    (allEvents machines) rfl
  refine ⟨raw, ?_⟩
  simp only [finishActivityPayload, hbuckets, hchart, Option.map_some]
  exact ⟨_, hmerged, rfl, rfl, rfl⟩

end Memex.Web.Activity
