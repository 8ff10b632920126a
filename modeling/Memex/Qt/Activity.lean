import Memex.Web.Activity

/-! # Activity of the Qt client

`merge_activity` of `apps/qt/src/store.rs`: the client merges the raw points of the machines into
bins. Its values are taken as exact numbers. -/

namespace Memex.Qt

open Web.Activity

/-- A column of the chart, with its total and the totals of its sources. -/
structure Bin where
  timestamp : Int
  value : Nat
  sources : List (String × Nat)
  deriving DecidableEq

/-- `as_i64` of a number of a payload. -/
def asI64? (value : Nat) : Option Int :=
  if value < 2 ^ 63 then some value else none

/-- `days`, none for all time. -/
def daysOf (timeframe : TimeRange) : Int :=
  match timeframe with
  | .day => 1
  | .week => 7
  | .month => 30
  | .all => 0

def unitOf (timeframe : TimeRange) : Int :=
  if timeframe = .day then hourMs else dayMs

/-- `start`, `end` and `step` on 64 signed bits. -/
def activityGrid (timeframe : TimeRange) (activityNow : Nat) (points : List RawActivityPoint) :
    Int × Int × Int :=
  let unit := unitOf timeframe
  let now := (asI64? activityNow).getD 0
  let stop := now.tdiv unit * unit
  let days := daysOf timeframe
  let start :=
    if 0 < days then (now - days * dayMs).tdiv unit * unit
    else
      (min ((points.filterMap fun point => asI64? point.timestampMs).min?.getD stop) stop).tdiv
        unit * unit
  (start, stop, max (((stop - start).tdiv unit + 1 + 59).tdiv 60) 1 * unit)

def Bin.offer (source : String) (value : Nat) (bin : Bin) : Bin :=
  { bin with value := bin.value + value, sources := Totals.add source value bin.sources }

/-- A point goes to its bin. -/
def offerPoint (start stop step : Int) (bins : List Bin) (point : RawActivityPoint) : List Bin :=
  let timestamp := (asI64? point.timestampMs).getD 0
  if timestamp < start || stop < timestamp then bins
  else
    bins.modify ((timestamp - start).tdiv step).toNat (Bin.offer point.source point.value.value)

def mergeActivity (timeframe : TimeRange) (activityNow : Nat) (points : List RawActivityPoint) :
    List Bin :=
  let (start, stop, step) := activityGrid timeframe activityNow points
  let bins := (List.range ((stop - start).tdiv step + 1).toNat).map fun index =>
    { timestamp := start + index * step, value := 0, sources := [] }
  points.foldl (offerPoint start stop step) bins

end Memex.Qt
