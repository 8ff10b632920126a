import Mathlib.Data.Prod.Lex
import Mathlib.Data.String.Basic
import Memex.Lib.Totals
import Memex.Usage.Events

/-! # Activity charts

`web.rs`: every machine adds up its activity by hours or days, and the chart has at most sixty
columns over all machines. -/

namespace Memex.Web.Activity

/-- A 64-bit count; adding saturates. -/
structure Count where
  value : Nat
  le : value ≤ 2 ^ 64 - 1
  deriving DecidableEq

namespace Count

@[ext] theorem ext {left right : Count} (h : left.value = right.value) : left = right := by
  cases left
  cases right
  congr

instance : Zero Count := ⟨⟨0, Nat.zero_le _⟩⟩

instance : Add Count :=
  ⟨fun left right => ⟨Usage.saturatingAdd left.value right.value, Nat.min_le_right _ _⟩⟩

theorem value_add (left right : Count) :
    (left + right).value = min (left.value + right.value) (2 ^ 64 - 1) := rfl

theorem value_zero : (0 : Count).value = 0 := rfl

instance : AddCommMonoid Count where
  add_assoc a b c := by
    ext
    simp only [value_add]
    omega
  zero_add a := by
    ext
    simp only [value_add, value_zero, Nat.zero_add]
    exact Nat.min_eq_left a.le
  add_zero a := by
    ext
    simp only [value_add, value_zero, Nat.add_zero]
    exact Nat.min_eq_left a.le
  add_comm a b := by
    ext
    simp only [value_add, Nat.add_comm]
  nsmul := nsmulRec

/-- A sum is the exact one, or the largest count there is. -/
theorem value_sum (counts : List Count) :
    counts.sum.value = min (counts.map Count.value).sum (2 ^ 64 - 1) := by
  induction counts with
  | nil => rfl
  | cons first rest ih =>
      rw [List.sum_cons, value_add, ih, List.map_cons, List.sum_cons]
      omega

end Count

/-- What is used of a calendar: which milliseconds are dates, and their texts. -/
structure Chrono where
  isValid : Int → Bool
  format : String → Int → String

inductive TimeRange where
  | day | week | month | all
  deriving DecidableEq, Repr

def hourMs : Nat := 3600000

def dayMs : Nat := 86400000

/-- The label of a range in requests. -/
def TimeRange.label : TimeRange → String
  | day => "24h"
  | week => "7d"
  | month => "30d"
  | all => "all"

/-- The days of a range. -/
def TimeRange.days? : TimeRange → Option Nat
  | day => some 1
  | week => some 7
  | month => some 30
  | all => none

def TimeRange.sinceMs (range : TimeRange) (now : Nat) : Option Nat :=
  range.days?.map fun days => now - days * dayMs

inductive ActivityMetric where
  | sessions | tokens
  deriving DecidableEq, Repr

/-- The part of a request the chart depends on. -/
structure ActivityRequest where
  metric : ActivityMetric
  days : Int
  range : Option TimeRange

structure RawActivityPoint where
  timestampMs : Nat
  source : String
  value : Count
  deriving DecidableEq

structure RawActivityPayload where
  points : List RawActivityPoint
  tokenUsageEnabled : Bool
  isPartial : Bool
  warnings : List String

structure ActivityPoint where
  date : String
  source : String
  value : Count
  deriving DecidableEq

structure ActivityPayload where
  metric : String
  days : Int
  range : Option String
  bucketKeys : List String
  tokenUsageEnabled : Bool
  isPartial : Bool
  points : List ActivityPoint
  warnings : List String

/-- Buckets by their time and their source, in this order. -/
abbrev Buckets := List ((Nat ×ₗ String) × Count)

/-- A cast to 64 signed bits. -/
def asI64 (value : Nat) : Int :=
  if value < 2 ^ 63 then value else value - 2 ^ 64

def bucketMs (request : ActivityRequest) : Nat :=
  if request.range = some .day then hourMs else dayMs

/-- Activity of a source at a time. -/
structure Event where
  timestampMs : Nat
  source : String
  value : Count

/-- Whether the time of an event is a date; zero says that it is not known. -/
def Event.isDated (chrono : Chrono) (event : Event) : Bool :=
  event.timestampMs ≠ 0 && event.timestampMs ≤ 2 ^ 63 - 1 && chrono.isValid event.timestampMs

def addActivityValue (chrono : Chrono) (bucketMs : Nat) (buckets : Buckets) (event : Event) :
    Buckets :=
  if event.isDated chrono then
    Totals.add (toLex (event.timestampMs / bucketMs * bucketMs, event.source)) event.value buckets
  else buckets

/-- A machine, its activity and what else it reports. -/
structure Machine where
  id : String
  events : List Event
  tokenUsageEnabled : Bool
  isPartial : Bool
  warnings : List String

def rawPoints (chrono : Chrono) (bucketMs : Nat) (events : List Event) : List RawActivityPoint :=
  (events.foldl (addActivityValue chrono bucketMs) []).map fun bucket =>
    ⟨(ofLex bucket.1).1, (ofLex bucket.1).2, bucket.2⟩

def rawActivityPayload (chrono : Chrono) (bucketMs : Nat) (machine : Machine) :
    RawActivityPayload where
  points := rawPoints chrono bucketMs machine.events
  tokenUsageEnabled := machine.tokenUsageEnabled
  isPartial := machine.isPartial
  warnings := machine.warnings

/-- The loop over the results of the machines. -/
structure Merge where
  merged : RawActivityPayload := ⟨[], false, false, []⟩
  successes : Nat := 0
  errors : List String := []

def Merge.offer (metric : ActivityMetric) (merge : Merge)
    (entry : String × Except String RawActivityPayload) : Merge :=
  match entry.2 with
  | .ok raw =>
      { merge with
        successes := merge.successes + 1
        merged :=
          { points := merge.merged.points ++ raw.points
            tokenUsageEnabled := merge.merged.tokenUsageEnabled || raw.tokenUsageEnabled
            isPartial := merge.merged.isPartial || raw.isPartial ||
              (metric = .tokens && !raw.tokenUsageEnabled)
            warnings := merge.merged.warnings ++
              raw.warnings.map fun warning => s!"{entry.1}: {warning}" } }
  | .error message => { merge with errors := merge.errors ++ [s!"{entry.1}: {message}"] }

def mergeActivityResults (results : List (String × Except String RawActivityPayload))
    (metric : ActivityMetric) : Except String RawActivityPayload :=
  let merge := results.foldl (Merge.offer metric) {}
  if merge.successes = 0 then
    .error ("Activity unavailable: " ++ String.intercalate "; " merge.errors)
  else
    .ok { merge.merged with isPartial := merge.merged.isPartial || merge.errors ≠ [] }

/-- `div_ceil` -/
def divCeil (count size : Nat) : Nat := (count + size - 1) / size

/-- The pattern of the labels. -/
def pattern (unit : Nat) : String :=
  if unit < dayMs then "%Y-%m-%dT%H:00Z" else "%Y-%m-%d"

/-- The label of a time; none if there is no such date. -/
def label (chrono : Chrono) (unit timestamp : Nat) : Option String :=
  if chrono.isValid (asI64 timestamp) then
    some (chrono.format (pattern unit) (asI64 timestamp))
  else none

/-- Columns of one length, from a start to an end. -/
structure Grid where
  start : Nat
  stop : Nat
  step : Nat

/-- The first of the last units since a time, or of those with activity. -/
def gridOf (unit now : Nat) (since first : Option Nat) : Grid :=
  let stop := now / unit * unit
  let start := min (((since.map (· / unit * unit)).or first).getD stop) stop
  let units := (stop - start) / unit + 1
  ⟨start, stop, divCeil units 60 * unit⟩

/-- Where the column of a time begins. -/
def Grid.column (grid : Grid) (timestamp : Nat) : Nat :=
  grid.start + (timestamp - grid.start) / grid.step * grid.step

/-- The time of the first bucket. -/
def firstTimestamp (buckets : Buckets) : Option Nat :=
  buckets.head?.map fun bucket => (ofLex bucket.1).1

abbrev Groups := List ((String ×ₗ String) × Count)

/-- A bucket of the grid goes to its column. -/
def regroup (chrono : Chrono) (unit : Nat) (grid : Grid) (grouped : Groups)
    (bucket : (Nat ×ₗ String) × Count) : Option Groups :=
  let (timestamp, source) := ofLex bucket.1
  if timestamp < grid.start || grid.stop < timestamp then some grouped
  else
    (label chrono unit (grid.column timestamp)).map fun date =>
      Totals.add (toLex (date, source)) bucket.2 grouped

/-- The labels of the columns, the points and the number of days; nothing if a time to label is
no date. -/
def activityBuckets (chrono : Chrono) (buckets : Buckets) (since : Option Nat) (now unit : Nat) :
    Option (List String × List ActivityPoint × Int) :=
  let grid := gridOf unit now since (firstTimestamp buckets)
  let units := (grid.stop - grid.start) / unit + 1
  ((List.range (divCeil units (grid.step / unit))).mapM fun index =>
    label chrono unit (grid.start + index * grid.step)).bind fun bucketKeys =>
  (buckets.foldlM (regroup chrono unit grid) []).map fun grouped =>
  (bucketKeys, grouped.map fun group => ⟨(ofLex group.1).1, (ofLex group.1).2, group.2⟩,
    ((grid.stop - grid.start) / dayMs + 1 : Nat))

/-- The time the chart begins at; the days of a request are cast and multiplied on 64 bits. -/
def sinceOf (request : ActivityRequest) (now : Nat) : Option Nat :=
  match request.range with
  | some range => range.sinceMs now
  | none => some (now - (request.days % 2 ^ 64).toNat * dayMs % 2 ^ 64)

/-- The chart; nothing if a time to label is no date. -/
def finishActivityPayload (chrono : Chrono) (raw : RawActivityPayload)
    (request : ActivityRequest) (now : Nat) : Option ActivityPayload :=
  let buckets := raw.points.foldl (fun (buckets : Buckets) point =>
    Totals.add (toLex (point.timestampMs, point.source)) point.value buckets) []
  (activityBuckets chrono buckets (sinceOf request now) now (bucketMs request)).map
    fun (bucketKeys, points, days) =>
      { metric := match request.metric with
          | .sessions => "sessions"
          | .tokens => "tokens"
        days := match request.range with
          | some .day => 1
          | some .week => 7
          | some .month => 30
          | some .all => days
          | none => request.days
        range := request.range.map TimeRange.label
        bucketKeys
        tokenUsageEnabled := raw.tokenUsageEnabled
        isPartial := raw.isPartial
        points
        warnings := raw.warnings }

end Memex.Web.Activity
