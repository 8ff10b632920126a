import Memex.Macos.HomeActivity
import Memex.Qt.Activity
import Memex.Web.ActivityChart

/-! # One chart for all clients

The clients merge the raw points of the machines themselves: their grids are the same, and so are
the totals of their columns. -/

namespace Memex.Web.Activity

open Totals

variable {chrono : Chrono} {unit now : Nat}

/-! ## Raw points -/

/-- A raw point is at a whole unit. -/
theorem dvd_of_mem_rawPoints {events : List Event} {point : RawActivityPoint}
    (hmem : point ∈ rawPoints chrono unit events) :
    unit ∣ point.timestampMs ∧ point.timestampMs < 2 ^ 63 := by
  have hkey : toLex (point.timestampMs, point.source) ∈
      (rawEntries chrono unit events).map Prod.fst := by
    rw [(regroups_totals _).mem_keys, ← pointEntries_rawPoints, pointEntries, List.map_map]
    exact List.mem_map_of_mem hmem
  obtain ⟨entry, hentry, hsame⟩ := List.mem_map.mp hkey
  obtain ⟨event, -, hevent⟩ := List.mem_filterMap.mp hentry
  split at hevent
  next hdated =>
    obtain rfl := Option.some.inj hevent
    have htime : event.timestampMs / unit * unit = point.timestampMs :=
      congrArg (fun key => (ofLex key).1) hsame
    rw [Event.isDated, Bool.and_eq_true, Bool.and_eq_true, decide_eq_true_iff,
      decide_eq_true_iff] at hdated
    have hle := Nat.div_mul_le_self event.timestampMs unit
    rw [← htime]
    exact ⟨Nat.dvd_mul_left _ _, by omega⟩
  next => cases hevent

theorem min?_perm {left right : List Nat} (h : left.Perm right) : left.min? = right.min? := by
  cases hmin : right.min? with
  | none =>
      rw [List.min?_eq_none_iff] at hmin
      rw [hmin] at h
      rw [h.eq_nil]
      rfl
  | some least =>
      rw [List.min?_eq_some_iff] at hmin ⊢
      exact ⟨h.mem_iff.mpr hmin.1, fun other hmem => hmin.2 other (h.mem_iff.mp hmem)⟩

theorem min?_map_cast (times : List Nat) :
    (times.map (Nat.cast : Nat → Int)).min? = times.min?.map Nat.cast := by
  cases hmin : times.min? with
  | none =>
      rw [List.min?_eq_none_iff.mp hmin]
      rfl
  | some least =>
      rw [List.min?_eq_some_iff] at hmin
      rw [Option.map_some, List.min?_eq_some_iff]
      refine ⟨List.mem_map_of_mem hmin.1, fun other hmem => ?_⟩
      obtain ⟨time, htime, rfl⟩ := List.mem_map.mp hmem
      exact Int.ofNat_le.mpr (hmin.2 time htime)

/-! ## Grids -/

/-- The time a range begins at, if it does. -/
def sinceMs (timeframe : TimeRange) (now : Nat) : Option Nat :=
  timeframe.days?.map fun days => now - days * dayMs

theorem homeGrid_eq (selection : Macos.HomeActivitySelection) (raw : List RawActivityPoint) :
    Macos.homeGrid selection raw =
      gridOf (Macos.unitOf selection.timeframe) selection.nowMs
        (sinceMs selection.timeframe selection.nowMs) (raw.map (·.timestampMs)).min? := by
  have hsince : (selection.timeframe.days?.map fun days =>
      if days * dayMs < selection.nowMs then selection.nowMs - days * dayMs else 0) =
      sinceMs selection.timeframe selection.nowMs := by
    rw [sinceMs]
    congr 1
    funext days
    split <;> omega
  simp only [Macos.homeGrid, gridOf, hsince, Nat.min_comm (selection.nowMs / _ * _)]
  rfl

theorem unitOf_pos (timeframe : TimeRange) : 0 < Macos.unitOf timeframe := by
  cases timeframe <;> decide

theorem unitOf_cast (timeframe : TimeRange) :
    Qt.unitOf timeframe = (Macos.unitOf timeframe : Int) := by
  cases timeframe <;> rfl

theorem floor_cast (time unit : Nat) :
    (time : Int).tdiv unit * unit = ((time / unit * unit : Nat) : Int) := rfl

/-- Thirty days or more after the beginning the start is no negative number, and that of all time
is a whole unit already. -/
theorem start_cast (timeframe : TimeRange) {points : List RawActivityPoint}
    (hnow : 30 * dayMs ≤ now)
    (hpoints : ∀ point ∈ points, Macos.unitOf timeframe ∣ point.timestampMs) :
    (if 0 < Qt.daysOf timeframe then
      ((now : Int) - Qt.daysOf timeframe * dayMs).tdiv (Macos.unitOf timeframe) *
        Macos.unitOf timeframe
      else (min (((points.map (·.timestampMs)).min?.map Nat.cast).getD
        ((now : Int).tdiv (Macos.unitOf timeframe) * Macos.unitOf timeframe))
        ((now : Int).tdiv (Macos.unitOf timeframe) * Macos.unitOf timeframe)).tdiv
          (Macos.unitOf timeframe) * Macos.unitOf timeframe) =
      ((gridOf (Macos.unitOf timeframe) now (sinceMs timeframe now)
        (points.map (·.timestampMs)).min?).start : Int) := by
  have hrolling : ∀ days ≤ 30, 0 < days → timeframe.days? = some days →
      Qt.daysOf timeframe = (days : Int) →
      (if 0 < Qt.daysOf timeframe then
        ((now : Int) - Qt.daysOf timeframe * dayMs).tdiv (Macos.unitOf timeframe) *
          Macos.unitOf timeframe
        else (min (((points.map (·.timestampMs)).min?.map Nat.cast).getD
          ((now : Int).tdiv (Macos.unitOf timeframe) * Macos.unitOf timeframe))
          ((now : Int).tdiv (Macos.unitOf timeframe) * Macos.unitOf timeframe)).tdiv
            (Macos.unitOf timeframe) * Macos.unitOf timeframe) =
        ((gridOf (Macos.unitOf timeframe) now (sinceMs timeframe now)
          (points.map (·.timestampMs)).min?).start : Int) := by
    intro days hdays hpos hsome hof
    have hle : days * dayMs ≤ now := (Nat.mul_le_mul_right dayMs hdays).trans hnow
    have hmin : (now - days * dayMs) / Macos.unitOf timeframe * Macos.unitOf timeframe ≤
        now / Macos.unitOf timeframe * Macos.unitOf timeframe :=
      Nat.mul_le_mul_right _ (Nat.div_le_div_right (Nat.sub_le _ _))
    have hpositive : 0 < Qt.daysOf timeframe := by omega
    rw [if_pos hpositive, hof, gridOf, sinceMs, hsome]
    simp only [Option.map_some, Option.some_or, Option.getD_some]
    rw [Nat.min_eq_left hmin, ← floor_cast, Int.natCast_sub hle, Int.natCast_mul]
  cases timeframe with
  | day => exact hrolling 1 (by decide) (by decide) rfl rfl
  | week => exact hrolling 7 (by decide) (by decide) rfl rfl
  | month => exact hrolling 30 (by decide) (by decide) rfl rfl
  | all =>
      have hdvd : Macos.unitOf .all ∣ min ((points.map (·.timestampMs)).min?.getD
          (now / Macos.unitOf .all * Macos.unitOf .all))
          (now / Macos.unitOf .all * Macos.unitOf .all) := by
        have hstop : Macos.unitOf .all ∣ now / Macos.unitOf .all * Macos.unitOf .all :=
          Nat.dvd_mul_left _ _
        rcases Nat.le_total ((points.map (·.timestampMs)).min?.getD
          (now / Macos.unitOf .all * Macos.unitOf .all))
          (now / Macos.unitOf .all * Macos.unitOf .all) with hle | hle
        · rw [Nat.min_eq_left hle]
          cases hmin : (points.map (·.timestampMs)).min? with
          | none => exact hstop
          | some least =>
              obtain ⟨point, hmem, rfl⟩ := List.mem_map.mp (List.min?_mem hmin)
              exact hpoints point hmem
        · rwa [Nat.min_eq_right hle]
      have hgetD : (((points.map (·.timestampMs)).min?.map Nat.cast).getD
          ((now / Macos.unitOf .all * Macos.unitOf .all : Nat) : Int)) =
          (((points.map (·.timestampMs)).min?.getD
            (now / Macos.unitOf .all * Macos.unitOf .all) : Nat) : Int) := by
        cases (points.map (·.timestampMs)).min? <;> rfl
      have hmin : ∀ left right : Nat, min (left : Int) right = (min left right : Nat) := by
        omega
      rw [if_neg (by decide), floor_cast, hgetD, hmin, floor_cast, Nat.div_mul_cancel hdvd]
      rfl

/-- The numbers of the grid are the same, as signed ones. -/
theorem activityGrid_eq (timeframe : TimeRange) {points : List RawActivityPoint}
    (hnow : 30 * dayMs ≤ now) (hlt : now < 2 ^ 63)
    (hpoints : ∀ point ∈ points, Macos.unitOf timeframe ∣ point.timestampMs ∧
      point.timestampMs < 2 ^ 63) {grid : Grid}
    (hgrid : grid = gridOf (Macos.unitOf timeframe) now (sinceMs timeframe now)
      (points.map (·.timestampMs)).min?) :
    Qt.activityGrid timeframe now points =
      ((grid.start : Int), (grid.stop : Int), (grid.step : Int)) := by
  have hpos := unitOf_pos timeframe
  have hcast : (Qt.asI64? now).getD 0 = now := by
    rw [Qt.asI64?, if_pos hlt, Option.getD_some]
  have hfirst : (points.filterMap fun point => Qt.asI64? point.timestampMs).min? =
      ((points.map (·.timestampMs)).min?).map Nat.cast := by
    rw [← min?_map_cast, List.map_map, ← List.filterMap_eq_map]
    congr 1
    apply List.filterMap_congr
    intro point hmem
    rw [Qt.asI64?, if_pos (hpoints point hmem).2]
    rfl
  have hstart : (if 0 < Qt.daysOf timeframe then
      ((now : Int) - Qt.daysOf timeframe * dayMs).tdiv (Macos.unitOf timeframe) *
        Macos.unitOf timeframe
      else (min (((points.map (·.timestampMs)).min?.map Nat.cast).getD
        ((now : Int).tdiv (Macos.unitOf timeframe) * Macos.unitOf timeframe))
        ((now : Int).tdiv (Macos.unitOf timeframe) * Macos.unitOf timeframe)).tdiv
          (Macos.unitOf timeframe) * Macos.unitOf timeframe) = (grid.start : Int) := by
    rw [hgrid]
    exact start_cast timeframe hnow fun point hmem => (hpoints point hmem).1
  have hstop : (now : Int).tdiv (Macos.unitOf timeframe) * Macos.unitOf timeframe =
      (grid.stop : Int) := by
    rw [hgrid, gridOf, ← Int.ofNat_tdiv, ← Int.natCast_mul]
  have hle : grid.start ≤ grid.stop := by
    rw [hgrid]
    exact Nat.min_le_right _ _
  have hstep : max ((((grid.stop : Int) - grid.start).tdiv (Macos.unitOf timeframe) + 1 + 59).tdiv
      60) 1 * Macos.unitOf timeframe = (grid.step : Int) := by
    have hdistance : ((grid.stop : Int) - grid.start).tdiv (Macos.unitOf timeframe) =
        ((grid.stop - grid.start) / Macos.unitOf timeframe : Nat) := by
      rw [← Int.natCast_sub hle]
      rfl
    have hgridStep : grid.step =
        ((grid.stop - grid.start) / Macos.unitOf timeframe + 1 + 59) / 60 *
          Macos.unitOf timeframe := by
      rw [hgrid]
      rfl
    generalize (grid.stop - grid.start) / Macos.unitOf timeframe = units at hgridStep hdistance
    have hcolumns : ((units : Int) + 1 + 59).tdiv 60 = ((units + 1 + 59) / 60 : Nat) := rfl
    have hone : (1 : Int) ≤ ((units + 1 + 59) / 60 : Nat) := by omega
    rw [hgridStep, hdistance, hcolumns, Int.max_eq_left hone, Int.natCast_mul]
  simp only [Qt.activityGrid, unitOf_cast, hcast, hfirst]
  rw [hstart, hstop, hstep]

/-! ## Bins -/

/-- The totals of bins, by column and source. -/
def binTotals (bins : List Qt.Bin) : Macos.HomeTotals :=
  bins.flatMap fun bin =>
    bin.sources.map fun entry => (toLex (bin.timestamp.toNat, entry.1), entry.2)

theorem binTotals_cons (bin : Qt.Bin) (bins : List Qt.Bin) :
    binTotals (bin :: bins) =
      (bin.sources.map fun entry => (toLex (bin.timestamp.toNat, entry.1), entry.2)) ++
        binTotals bins :=
  List.flatMap_cons

/-- A bin that is offered a value has it in its totals. -/
theorem regroups_modify {bins : List Qt.Bin} {index time : Nat}
    (h : bins[index]?.map (·.timestamp.toNat) = some time) (source : String) (value : Nat) :
    Regroups ((toLex (time, source), value) :: binTotals bins)
      (binTotals (bins.modify index (Qt.Bin.offer source value))) := by
  induction bins generalizing index with
  | nil => cases h
  | cons bin rest ih =>
      cases index with
      | zero =>
          obtain rfl : bin.timestamp.toNat = time := Option.some.inj h
          rw [List.modify_zero_cons, binTotals_cons, binTotals_cons, ← List.cons_append]
          apply Regroups.append _ (Regroups.refl _)
          exact (regroups_add source value bin.sources).map fun source =>
            toLex (bin.timestamp.toNat, source)
      | succ index =>
          rw [List.modify_succ_cons, binTotals_cons, binTotals_cons]
          apply (Regroups.perm List.perm_middle.symm).trans
          exact (ih h).append_left _

theorem forall_mem_modify {α : Type} {P : α → Prop} {f : α → α} {items : List α} {index : Nat}
    (h : ∀ item ∈ items, P item) (hf : ∀ item, P item → P (f item)) :
    ∀ item ∈ items.modify index f, P item := by
  induction items generalizing index with
  | nil =>
      rw [List.modify_nil]
      exact h
  | cons first rest ih =>
      obtain ⟨hfirst, hrest⟩ := List.forall_mem_cons.mp h
      cases index with
      | zero => exact List.forall_mem_cons.mpr ⟨hf first hfirst, hrest⟩
      | succ index => exact List.forall_mem_cons.mpr ⟨hfirst, ih hrest⟩

/-- The bins are the columns of the grid, and know their sources' totals. -/
structure BinBooks (grid : Grid) (bins : List Qt.Bin) : Prop where
  times : bins.map (·.timestamp) =
    (List.range ((grid.stop - grid.start) / grid.step + 1)).map fun index =>
      ((grid.start + index * grid.step : Nat) : Int)
  sources : ∀ bin ∈ bins, Sorted bin.sources ∧ bin.value = (bin.sources.map Prod.snd).sum

theorem map_timestamp_modify (bins : List Qt.Bin) (index : Nat) (source : String) (value : Nat) :
    (bins.modify index (Qt.Bin.offer source value)).map (·.timestamp) =
      bins.map (·.timestamp) := by
  induction bins generalizing index with
  | nil => rw [List.modify_nil]
  | cons bin rest ih =>
      cases index with
      | zero => rfl
      | succ index => rw [List.modify_succ_cons, List.map_cons, ih, List.map_cons]

theorem BinBooks.modify {grid : Grid} {bins : List Qt.Bin} (h : BinBooks grid bins) (index : Nat)
    (source : String) (value : Nat) :
    BinBooks grid (bins.modify index (Qt.Bin.offer source value)) where
  times := (map_timestamp_modify bins index source value).trans h.times
  sources := by
    apply forall_mem_modify h.sources
    rintro bin ⟨hsorted, hvalue⟩
    refine ⟨hsorted.add source value, ?_⟩
    have hsum := (regroups_add source value bin.sources).sum_eq
    rw [List.map_cons, List.sum_cons, ← hvalue, Nat.add_comm] at hsum
    exact hsum

/-- Whether a point is in the grid. -/
def inColumns (grid : Grid) (point : RawActivityPoint) : Bool :=
  grid.start ≤ point.timestampMs && point.timestampMs ≤ grid.stop

/-- The points of the grid with their columns. -/
def homeEntries (grid : Grid) (points : List RawActivityPoint) : Macos.HomeTotals :=
  (points.filter (inColumns grid)).map fun point =>
    (toLex (grid.column point.timestampMs, point.source), point.value.value)

theorem homeTotals_eq (grid : Grid) (points : List RawActivityPoint) :
    Macos.homeTotals grid points = totals (homeEntries grid points) := by
  rw [totals, homeEntries, List.foldl_map]
  rfl

theorem homeEntries_cons (grid : Grid) (point : RawActivityPoint)
    (points : List RawActivityPoint) :
    homeEntries grid (point :: points) =
      if inColumns grid point then
        (toLex (grid.column point.timestampMs, point.source), point.value.value) ::
          homeEntries grid points
      else homeEntries grid points := by
  rw [homeEntries, List.filter_cons]
  split <;> rfl

/-- A point of the grid goes to the bin of its column. -/
theorem BinBooks.offer {grid : Grid} {bins : List Qt.Bin} (h : BinBooks grid bins)
    {point : RawActivityPoint} (hlt : point.timestampMs < 2 ^ 63)
    (rest : List RawActivityPoint) :
    let offered := Qt.offerPoint grid.start grid.stop grid.step bins point
    BinBooks grid offered ∧
      Regroups (binTotals bins ++ homeEntries grid (point :: rest))
        (binTotals offered ++ homeEntries grid rest) := by
  have hcast : (Qt.asI64? point.timestampMs).getD 0 = point.timestampMs := by
    rw [Qt.asI64?, if_pos hlt, Option.getD_some]
  rw [homeEntries_cons]
  simp only [Qt.offerPoint, hcast]
  by_cases hin : grid.start ≤ point.timestampMs ∧ point.timestampMs ≤ grid.stop
  · have hcolumns : inColumns grid point = true := by simpa [inColumns] using hin
    have hindex : (((point.timestampMs : Int) - grid.start).tdiv grid.step).toNat =
        (point.timestampMs - grid.start) / grid.step := by
      rw [← Int.natCast_sub hin.1]
      rfl
    have htime : bins[(point.timestampMs - grid.start) / grid.step]?.map
        (·.timestamp.toNat) = some (grid.column point.timestampMs) := by
      have hle : (point.timestampMs - grid.start) / grid.step ≤
          (grid.stop - grid.start) / grid.step :=
        Nat.div_le_div_right (Nat.sub_le_sub_right hin.2 _)
      have htimes := congrArg (·[(point.timestampMs - grid.start) / grid.step]?) h.times
      simp only [List.getElem?_map, List.getElem?_range (Nat.lt_succ_of_le hle)] at htimes
      obtain ⟨bin, hbin, hbinTime⟩ := Option.map_eq_some_iff.mp htimes
      rw [hbin, Option.map_some, hbinTime, Int.toNat_natCast]
      rfl
    rw [if_pos hcolumns, if_neg (by simp; omega), hindex]
    refine ⟨h.modify _ _ _, ?_⟩
    apply (Regroups.perm List.perm_middle).trans
    exact (regroups_modify htime point.source point.value.value).append (Regroups.refl _)
  · have hcolumns : ¬ inColumns grid point = true := by simpa [inColumns] using hin
    rw [if_neg hcolumns, if_pos (by simp; omega)]
    exact ⟨h, Regroups.refl _⟩

theorem BinBooks.run {grid : Grid} {bins : List Qt.Bin} (h : BinBooks grid bins)
    {points : List RawActivityPoint} (hlt : ∀ point ∈ points, point.timestampMs < 2 ^ 63) :
    let last := points.foldl (Qt.offerPoint grid.start grid.stop grid.step) bins
    BinBooks grid last ∧
      Regroups (binTotals bins ++ homeEntries grid points) (binTotals last) := by
  induction points generalizing bins with
  | nil =>
      refine ⟨h, ?_⟩
      rw [homeEntries, List.filter_nil, List.map_nil, List.append_nil]
      exact Regroups.refl _
  | cons point rest ih =>
      obtain ⟨hpoint, hrest⟩ := List.forall_mem_cons.mp hlt
      obtain ⟨hbooks, hregroups⟩ := h.offer hpoint rest
      obtain ⟨hlast, hall⟩ := ih hbooks hrest
      exact ⟨hlast, hregroups.trans hall⟩

/-- Bins of ascending times have sorted totals. -/
theorem BinBooks.sorted {grid : Grid} {bins : List Qt.Bin} (h : BinBooks grid bins)
    (hstep : 0 < grid.step) : Sorted (binTotals bins) := by
  have hascend : bins.Pairwise fun left right => left.timestamp.toNat < right.timestamp.toNat := by
    have htimes : (bins.map (·.timestamp)).Pairwise fun left right => left.toNat < right.toNat := by
      rw [h.times, List.pairwise_map]
      apply List.Pairwise.imp _ List.pairwise_lt_range
      intro left right hlt
      rw [Int.toNat_natCast, Int.toNat_natCast]
      exact Nat.add_lt_add_left (Nat.mul_lt_mul_of_pos_right hlt hstep) grid.start
    rwa [List.pairwise_map] at htimes
  rw [Sorted, binTotals, List.map_flatMap, List.pairwise_flatMap]
  constructor
  · intro bin hmem
    rw [List.map_map, List.pairwise_map]
    have hsources := List.pairwise_map.mp (h.sources bin hmem).1
    apply hsources.imp
    intro left right hlt
    exact Prod.Lex.toLex_lt_toLex.mpr (Or.inr ⟨rfl, hlt⟩)
  · apply hascend.imp
    intro left right hlt key hkey key' hkey'
    rw [List.map_map] at hkey hkey'
    obtain ⟨entry, -, rfl⟩ := List.mem_map.mp hkey
    obtain ⟨entry', -, rfl⟩ := List.mem_map.mp hkey'
    exact Prod.Lex.toLex_lt_toLex.mpr (Or.inl hlt)

/-! ## Clients -/

/-- The bins before any point. -/
def emptyBins (grid : Grid) : List Qt.Bin :=
  (List.range (((grid.stop : Int) - grid.start).tdiv grid.step + 1).toNat).map fun (index : Nat) =>
    ⟨grid.start + index * grid.step, 0, []⟩

theorem binBooks_emptyBins {grid : Grid} (hle : grid.start ≤ grid.stop) :
    BinBooks grid (emptyBins grid) where
  times := by
    have hcount : (((grid.stop : Int) - grid.start).tdiv grid.step + 1).toNat =
        (grid.stop - grid.start) / grid.step + 1 := by
      rw [← Int.natCast_sub hle]
      rfl
    rw [emptyBins, hcount, List.map_map]
    rfl
  sources := by
    intro bin hmem
    obtain ⟨index, -, rfl⟩ := List.mem_map.mp hmem
    exact ⟨List.Pairwise.nil, rfl⟩

theorem binTotals_emptyBins (grid : Grid) : binTotals (emptyBins grid) = [] := by
  rw [binTotals, emptyBins, List.flatMap_map]
  exact List.flatMap_eq_nil_iff.mpr fun _ _ => rfl

variable {machines : List Machine} {selection : Macos.HomeActivitySelection}
  {batches : List RawActivityPayload} {points : List RawActivityPoint}

/-- The points of machines' payloads are at whole units. -/
theorem dvd_of_mem_payloads (hpoints : points.Perm ((machines.map
      (rawActivityPayload chrono unit)).flatMap (·.points))) :
    ∀ point ∈ points, unit ∣ point.timestampMs ∧ point.timestampMs < 2 ^ 63 := by
  intro point hmem
  obtain ⟨raw, hraw, hpoint⟩ := List.mem_flatMap.mp (hpoints.mem_iff.mp hmem)
  obtain ⟨machine, -, rfl⟩ := List.mem_map.mp hraw
  exact dvd_of_mem_rawPoints hpoint

/-- Both clients have the same columns, with the same totals. -/
theorem clients_agree (formatter : String → Nat → String) (failed : Bool)
    (hnow : 30 * dayMs ≤ selection.nowMs) (hlt : selection.nowMs < 2 ^ 63)
    (hbatches : batches.Perm (machines.map
      (rawActivityPayload chrono (Macos.unitOf selection.timeframe))))
    (hpoints : points.Perm ((machines.map
      (rawActivityPayload chrono (Macos.unitOf selection.timeframe))).flatMap (·.points))) :
    let bins := Qt.mergeActivity selection.timeframe selection.nowMs points
    let home := Macos.merge formatter batches selection failed
    let label := formatter (Macos.dateFormat (Macos.unitOf selection.timeframe))
    home.bucketKeys = bins.map (fun bin => label bin.timestamp.toNat) ∧
      home.points = bins.flatMap (fun bin => bin.sources.map fun entry =>
        ⟨label bin.timestamp.toNat, entry.1, entry.2⟩) ∧
      ∀ bin ∈ bins, bin.value = (bin.sources.map Prod.snd).sum := by
  have hunits := dvd_of_mem_payloads hpoints
  have hperm : (batches.flatMap (·.points)).Perm points :=
    (hbatches.flatMap_right _).trans hpoints.symm
  have htimes := min?_perm (hperm.map (·.timestampMs))
  have hhome := homeGrid_eq selection (batches.flatMap (·.points))
  rw [htimes] at hhome
  generalize hgrid : gridOf (Macos.unitOf selection.timeframe) selection.nowMs
    (sinceMs selection.timeframe selection.nowMs) (points.map (·.timestampMs)).min? = grid
    at hhome
  have hqt := activityGrid_eq selection.timeframe hnow hlt hunits hgrid.symm
  have hfirst : ∀ time ∈ (points.map (·.timestampMs)).min?,
      Macos.unitOf selection.timeframe ∣ time := by
    intro time hmem
    obtain ⟨point, hpoint, rfl⟩ := List.mem_map.mp (List.min?_mem hmem)
    exact (hunits point hpoint).1
  obtain ⟨first, last, size, haligned⟩ := gridOf_aligned (unitOf_pos selection.timeframe)
    selection.nowMs (sinceMs selection.timeframe selection.nowMs) hfirst
  rw [hgrid] at haligned
  have hstep : 0 < grid.step := by
    rw [haligned.step]
    exact Nat.mul_pos haligned.pos (unitOf_pos _)
  have hle : grid.start ≤ grid.stop := by
    rw [haligned.start, haligned.stop]
    exact Nat.mul_le_mul_right _ haligned.le
  obtain ⟨hbooks, hregroups⟩ := (binBooks_emptyBins hle).run fun point hmem => (hunits point hmem).2
  have hmerge : Qt.mergeActivity selection.timeframe selection.nowMs points =
      points.foldl (Qt.offerPoint grid.start grid.stop grid.step) (emptyBins grid) := by
    simp only [Qt.mergeActivity, hqt]
    rfl
  have htotals : Macos.homeTotals grid (batches.flatMap (·.points)) =
      binTotals (Qt.mergeActivity selection.timeframe selection.nowMs points) := by
    rw [binTotals_emptyBins, List.nil_append] at hregroups
    rw [homeTotals_eq, hmerge, ← hregroups.totals_eq_of_sorted (hbooks.sorted hstep)]
    exact (Regroups.perm ((hperm.filter _).map _)).totals_eq
  rw [← hmerge] at hbooks
  simp only [Macos.merge, hhome, htotals]
  refine ⟨?_, ?_, fun bin hmem => (hbooks.sources bin hmem).2⟩
  · have hkeys := congrArg (List.map fun time => formatter (Macos.dateFormat
      (Macos.unitOf selection.timeframe)) time.toNat) hbooks.times
    rw [List.map_map, List.map_map] at hkeys
    exact hkeys.symm
  · rw [binTotals, List.map_flatMap]
    simp only [List.map_map]
    rfl

/-! ## The chart -/

/-- The chart of the web server groups the events of all machines on its grid, and the two clients
have one grid and the same totals. -/
theorem activity_chart_direct (h : chrono.Documented) (machines : List Machine) :
    (∀ (request : ActivityRequest) (now : Nat) (arrived : List Machine), machines ≠ [] →
      arrived.Perm machines → chrono.isValid now = true → now < 2 ^ 63 →
      let unit := bucketMs request
      let events := allEvents machines
      let grid := directGrid chrono unit now (sinceOf request now) events
      ∃ raw payload,
        mergeActivityResults (arrived.map fun machine =>
          (machine.id, .ok (rawActivityPayload chrono unit machine))) request.metric = .ok raw ∧
        finishActivityPayload chrono raw request now = some payload ∧
        payload.points = directPoints chrono unit grid events ∧
        (∀ point, point ∈ payload.points ↔
          let own := events.filter fun event => event.inGrid chrono unit grid &&
            event.columnKey chrono unit grid = toLex (point.date, point.source)
          own ≠ [] ∧ point.value.value = min (own.map fun event => event.value.value).sum
            (2 ^ 64 - 1)) ∧
        (∀ point ∈ payload.points, point.date ∈ payload.bucketKeys) ∧
        payload.bucketKeys.length ≤ 60 ∧ payload.bucketKeys.Nodup ∧
        (now < fiveDigitYearMs → payload.bucketKeys.Pairwise (· < ·))) ∧
    ∀ (selection : Macos.HomeActivitySelection) (batches : List RawActivityPayload)
      (points : List RawActivityPoint) (formatter : String → Nat → String) (failed : Bool),
      30 * dayMs ≤ selection.nowMs → selection.nowMs < 2 ^ 63 →
      batches.Perm (machines.map
        (rawActivityPayload chrono (Macos.unitOf selection.timeframe))) →
      points.Perm ((machines.map
        (rawActivityPayload chrono (Macos.unitOf selection.timeframe))).flatMap (·.points)) →
      let bins := Qt.mergeActivity selection.timeframe selection.nowMs points
      let home := Macos.merge formatter batches selection failed
      let label := formatter (Macos.dateFormat (Macos.unitOf selection.timeframe))
      home.bucketKeys = bins.map (fun bin => label bin.timestamp.toNat) ∧
        home.points = bins.flatMap (fun bin => bin.sources.map fun entry =>
          ⟨label bin.timestamp.toNat, entry.1, entry.2⟩) ∧
        ∀ bin ∈ bins, bin.value = (bin.sources.map Prod.snd).sum := by
  constructor
  · intro request now arrived hne hperm hnow hlt unit events grid
    obtain ⟨raw, payload, hmerged, hfinish, hpoints, hkeys⟩ :=
      exists_chart h hnow hlt request hperm hne
    have hpos := bucketMs_pos request
    have hunit := bucketMs_mem request
    obtain ⟨first, last, size, haligned⟩ := gridOf_aligned hpos now (sinceOf request now)
      (@dvd_earliest unit chrono events)
    refine ⟨raw, payload, hmerged, hfinish, hpoints, ?_, ?_, ?_, ?_, ?_⟩
    · intro point
      rw [hpoints]
      exact mem_directPoints_iff
    · rw [hpoints, hkeys]
      exact fun point hmem => date_mem_directKeys hpos haligned hmem
    · rw [hkeys]
      exact length_directKeys_le hpos haligned
    · rw [hkeys]
      exact nodup_directKeys h hnow hunit hpos haligned
    · rw [hkeys]
      exact fun hyear => pairwise_directKeys h hnow hunit hpos hyear haligned
  · intro selection batches points formatter failed hnow hlt hbatches hpoints
    exact clients_agree formatter failed hnow hlt hbatches hpoints

/-! ## The beginning of 1970 -/

def twoDigits (number : Nat) : List Char :=
  [Nat.digitChar (number / 10), Nat.digitChar (number % 10)]

/-- A whole unit of January 1970. -/
def januarySymbols (unit index : Nat) : List Char :=
  ['1', '9', '7', '0', '-', '0', '1', '-'] ++
    if unit = hourMs then
      twoDigits (index / 24 + 1) ++ ['T'] ++ twoDigits (index % 24) ++ [':', '0', '0', 'Z']
    else twoDigits (index + 1)

def januaryText (unit index : Nat) : String := String.ofList (januarySymbols unit index)

/-- A calendar of three days. -/
def january : Chrono where
  isValid time := 0 ≤ time && time < 3 * dayMs
  format pattern time :=
    if pattern = "%Y-%m-%d" then januaryText dayMs (time.toNat / dayMs)
    else januaryText hourMs (time.toNat / hourMs)

/-- Texts that ascend step by step ascend. -/
theorem lt_of_steps {text : Nat → String} {bound : Nat}
    (h : ∀ index < bound, text index < text (index + 1)) {left right : Nat} (hlt : left < right)
    (hright : right ≤ bound) : text left < text right := by
  induction right with
  | zero => exact absurd hlt (Nat.not_lt_zero _)
  | succ right ih =>
      have hstep := h right hright
      cases Nat.lt_succ_iff_lt_or_eq.mp hlt with
      | inl hlt => exact (ih hlt (Nat.le_of_succ_le hright)).trans hstep
      | inr hsame => rwa [hsame]

theorem january_format {unit : Nat} (hunit : unit ∈ [hourMs, dayMs]) (index : Nat) :
    january.format (pattern unit) (index * unit : Nat) = januaryText unit index := by
  have hday : hourMs < dayMs := by decide
  cases hunit with
  | head =>
      have hindex : index * hourMs / hourMs = index := Nat.mul_div_cancel _ (by decide)
      rw [pattern, if_pos hday, january]
      dsimp only
      rw [if_neg (by decide), Int.toNat_natCast, hindex]
  | tail _ hunit =>
      rw [List.mem_singleton.mp hunit]
      have hindex : index * dayMs / dayMs = index := Nat.mul_div_cancel _ (by decide)
      rw [pattern, if_neg (Nat.lt_irrefl _), january]
      dsimp only
      rw [if_pos rfl, Int.toNat_natCast, hindex]

theorem januarySymbols_lt : ∀ unit ∈ [hourMs, dayMs], ∀ index < 3 * dayMs / unit,
    januarySymbols unit index < januarySymbols unit (index + 1) := by
  have hhours : ∀ index < 72, januarySymbols hourMs index < januarySymbols hourMs (index + 1) := by
    decide +kernel
  have hdays : ∀ index < 3, januarySymbols dayMs index < januarySymbols dayMs (index + 1) := by
    decide +kernel
  have hcount : 3 * dayMs / hourMs = 72 ∧ 3 * dayMs / dayMs = 3 := by decide +kernel
  intro unit hunit
  cases hunit with
  | head =>
      rw [hcount.1]
      exact hhours
  | tail _ hunit =>
      rw [List.mem_singleton.mp hunit, hcount.2]
      exact hdays

theorem januaryText_lt {unit : Nat} (hunit : unit ∈ [hourMs, dayMs]) {left right : Nat}
    (hlt : left < right) (hright : right * unit < 3 * dayMs) :
    januaryText unit left < januaryText unit right := by
  have hpos : 0 < unit := by
    cases hunit with
    | head => decide
    | tail _ hunit =>
        rw [List.mem_singleton.mp hunit]
        decide
  have hbound : right ≤ 3 * dayMs / unit := (Nat.le_div_iff_mul_le hpos).mpr hright.le
  apply lt_of_steps _ hlt hbound
  intro index hindex
  rw [String.lt_iff_toList_lt, januaryText, januaryText, String.toList_ofList,
    String.toList_ofList]
  exact januarySymbols_lt unit hunit index hindex

theorem january_documented : january.Documented where
  valid_of_le left right hle hright := by
    simp only [january, Bool.and_eq_true, decide_eq_true_eq] at hright ⊢
    omega
  format_injective unit hunit left right hleft hright hsame := by
    simp only [january, Bool.and_eq_true, decide_eq_true_eq] at hleft hright
    rw [january_format hunit, january_format hunit] at hsame
    by_contra hne
    cases lt_or_gt_of_ne hne with
    | inl hlt => exact (januaryText_lt hunit hlt (by omega)).ne hsame
    | inr hgt => exact (januaryText_lt hunit hgt (by omega)).ne hsame.symm
  format_lt unit hunit left right hlt hright _ := by
    simp only [january, Bool.and_eq_true, decide_eq_true_eq] at hright
    rw [january_format hunit, january_format hunit]
    exact januaryText_lt hunit hlt (by omega)

/-- A machine that was used twice on the second of January. -/
def laptop : Machine where
  id := "laptop"
  events := [⟨dayMs + 5, "codex", ⟨3, by decide⟩⟩, ⟨dayMs + hourMs, "codex", ⟨4, by decide⟩⟩]
  tokenUsageEnabled := true
  isPartial := false
  warnings := []

/-- A request for all time. -/
def allTime : ActivityRequest := ⟨.tokens, 30, some .all⟩

/-- The machine's activity on its own. -/
def laptopActivity : RawActivityPayload :=
  rawActivityPayload january (bucketMs allTime) laptop

/-- The chart of all time, and the columns of the clients. -/
theorem activity_chart_direct_january :
    (∃ raw payload,
      mergeActivityResults [("laptop", .ok laptopActivity)] allTime.metric = .ok raw ∧
      finishActivityPayload january raw allTime (2 * dayMs) = some payload ∧
      payload.bucketKeys.Pairwise (· < ·)) ∧
    (Macos.merge (fun _ time => toString time) [laptopActivity] ⟨"tokens", .all, 30 * dayMs⟩
      false).bucketKeys =
      (Qt.mergeActivity .all (30 * dayMs) laptopActivity.points).map
        fun bin => toString bin.timestamp.toNat := by
  obtain ⟨hserver, hclients⟩ := activity_chart_direct january_documented [laptop]
  constructor
  · have hvalid : january.isValid (2 * dayMs : Nat) = true := by decide +kernel
    have hlt : 2 * dayMs < 2 ^ 63 := by decide +kernel
    have hyear : 2 * dayMs < fiveDigitYearMs := by decide +kernel
    obtain ⟨raw, payload, hmerged, hfinish, -, -, -, -, -, hsorted⟩ :=
      hserver allTime (2 * dayMs) [laptop] (List.cons_ne_nil _ _) (List.Perm.refl _) hvalid hlt
    exact ⟨raw, payload, hmerged, hfinish, hsorted hyear⟩
  · have hlt : 30 * dayMs < 2 ^ 63 := by decide +kernel
    have hpoints : laptopActivity.points.Perm ([laptopActivity].flatMap (·.points)) := by
      rw [List.flatMap_singleton]
    exact (hclients ⟨"tokens", .all, 30 * dayMs⟩ [laptopActivity] laptopActivity.points
      (fun _ time => toString time) false (Nat.le_refl _) hlt (List.Perm.refl _) hpoints).1

/-! ## The year 10000 -/

/-- The dates around the end of the year 9999. -/
def newYear : Chrono where
  isValid _ := true
  format _ time :=
    ([(2932893, "9999-12-28"), (2932894, "9999-12-29"), (2932895, "9999-12-30"),
      (2932896, "9999-12-31"), (2932897, "+10000-01-01"), (2932898, "+10000-01-02"),
      (2932899, "+10000-01-03"), (2932900, "+10000-01-04")].lookup (time.toNat / dayMs)).getD ""

/-- The years with five digits begin with a sign, which is less than a digit. -/
theorem keys_descend_in_new_year :
    ∃ raw payload,
      mergeActivityResults [("laptop", .ok (rawActivityPayload newYear dayMs laptop))] .tokens =
        .ok raw ∧
      finishActivityPayload newYear raw ⟨.tokens, 30, some .week⟩ (2932900 * dayMs) =
        some payload ∧
      ¬ payload.bucketKeys.Pairwise (· < ·) := by
  have hkeys : ((mergeActivityResults
      [("laptop", .ok (rawActivityPayload newYear dayMs laptop))] .tokens).toOption.bind fun raw =>
        (finishActivityPayload newYear raw ⟨.tokens, 30, some .week⟩ (2932900 * dayMs)).map
          (·.bucketKeys)) = some ["9999-12-28", "9999-12-29", "9999-12-30", "9999-12-31",
            "+10000-01-01", "+10000-01-02", "+10000-01-03", "+10000-01-04"] := by
    decide +kernel
  cases hmerged : mergeActivityResults
      [("laptop", .ok (rawActivityPayload newYear dayMs laptop))] .tokens with
  | error message =>
      rw [hmerged] at hkeys
      cases hkeys
  | ok raw =>
      rw [hmerged] at hkeys
      obtain ⟨payload, hfinish, hpayload⟩ := Option.map_eq_some_iff.mp hkeys
      refine ⟨raw, payload, rfl, hfinish, ?_⟩
      rw [hpayload]
      decide +kernel

end Memex.Web.Activity
