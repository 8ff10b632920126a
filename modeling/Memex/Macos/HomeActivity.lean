import Memex.Web.Activity

/-! # Activity of the macOS client

`HomeActivity.swift`: the client merges the raw points of the machines itself. Its values are taken
as exact numbers, and its sources as the plain labels they are. -/

namespace Memex.Macos

open Web.Activity

structure HomeActivityPoint where
  date : String
  source : String
  value : Nat
  deriving DecidableEq

structure HomeActivitySelection where
  metric : String
  timeframe : TimeRange
  nowMs : Nat

structure HomeActivityPayload where
  metric : String
  bucketKeys : List String
  tokenUsageEnabled : Bool
  isPartial : Bool
  points : List HomeActivityPoint
  warnings : List String

/-- Totals by column and source. -/
abbrev HomeTotals := List ((Nat ×ₗ String) × Nat)

def unitOf (timeframe : TimeRange) : Nat :=
  if timeframe = .day then hourMs else dayMs

/-- `dateFormat` -/
def dateFormat (unit : Nat) : String :=
  if unit < dayMs then "yyyy-MM-dd'T'HH:mm'Z'" else "yyyy-MM-dd"

/-- The columns: `start`, `end` and `step`. -/
def homeGrid (selection : HomeActivitySelection) (raw : List RawActivityPoint) : Grid :=
  let unit := unitOf selection.timeframe
  let stop := selection.nowMs / unit * unit
  let since := selection.timeframe.days?.map fun days =>
    if days * dayMs < selection.nowMs then selection.nowMs - days * dayMs else 0
  let start := min stop
    (((since.map (· / unit * unit)).or (raw.map (·.timestampMs)).min?).getD stop)
  let units := (stop - start) / unit + 1
  ⟨start, stop, (units + 59) / 60 * unit⟩

/-- The buckets of the grid. -/
def homeTotals (grid : Grid) (raw : List RawActivityPoint) : HomeTotals :=
  (raw.filter fun point =>
    grid.start ≤ point.timestampMs && point.timestampMs ≤ grid.stop).foldl
    (fun totals point =>
      Totals.add (toLex (grid.column point.timestampMs, point.source)) point.value.value totals) []

/-- `HomeActivityPayload.merge`; the formatter is given its pattern. -/
def merge (formatter : String → Nat → String) (batches : List RawActivityPayload)
    (selection : HomeActivitySelection) (failed : Bool) : HomeActivityPayload :=
  let raw := batches.flatMap (·.points)
  let grid := homeGrid selection raw
  let label := formatter (dateFormat (unitOf selection.timeframe))
  { metric := selection.metric
    bucketKeys := (List.range ((grid.stop - grid.start) / grid.step + 1)).map fun index =>
      label (grid.start + index * grid.step)
    tokenUsageEnabled := batches.any (·.tokenUsageEnabled)
    isPartial := failed || batches.any fun batch =>
      batch.isPartial || (selection.metric = "tokens" && !batch.tokenUsageEnabled)
    points := (homeTotals grid raw).map fun total =>
      ⟨label (ofLex total.1).1, (ofLex total.1).2, total.2⟩
    warnings := batches.flatMap (·.warnings) }

end Memex.Macos
