import Memex.Analytics.Counts
import Memex.Ingest.OpencodeRefresh
import Memex.Ingest.SessionScopes
import Memex.Ingest.DocIdReuse

/-! # The session catalogue beside a refresh

`execute_refresh` commits the session catalogue before the index it describes. A refresh that
cannot trust the stored catalogue marks it incomplete first and fills it from the published
index at the end. -/

namespace Memex.Ingest

open Overlay State
open Analytics (Catalogue SessionLookups CatalogueAgrees Counts sessionKey)

/-- `AnalyticsStore`: the table of sessions, and whether it was completed since it was last
given up. -/
structure AnalyticsStore where
  sessions : Catalogue := ∅
  complete : Bool := false

namespace AnalyticsStore

variable (store : AnalyticsStore)

/-- There are rows. -/
def isReady : Bool := store.sessions ≠ ∅

def isComplete : Bool := store.complete

def markComplete : AnalyticsStore := { store with complete := true }

def markIncomplete : AnalyticsStore := { store with complete := false }

def clear : AnalyticsStore := { store.markIncomplete with sessions := ∅ }

end AnalyticsStore

/-- What outlives a refresh, with the catalogue. -/
structure Installation where
  durable : Durable := {}
  analytics : AnalyticsStore := {}

/-- The durable step before which a refresh stops. -/
inductive Boundary where
  | markIncomplete
  | intent
  | analytics
  | lexical
  | publish
  | vectors
  | clear
  | fill
  | markComplete
  | final
  deriving DecidableEq, Repr

namespace Boundary

/-- The place of a step in its refresh. -/
def position : Boundary → Nat
  | .markIncomplete => 0
  | .intent => 1
  | .analytics => 2
  | .lexical => 3
  | .publish => 4
  | .vectors => 5
  | .clear => 6
  | .fill => 7
  | .markComplete => 8
  | .final => 9

/-- What the stop is for the checkpoint and the index. The lexical commit of a generation that
is not published is not seen by the next refresh. -/
def stop : Boundary → StopPoint
  | .markIncomplete | .intent => .intent
  | .analytics | .lexical | .publish => .lexical
  | .vectors => .vectors
  | .clear | .fill | .markComplete | .final => .final

/-- A refresh with this stop gets past a step. -/
def executes (stop : Option Boundary) (step : Boundary) : Bool :=
  stop.all fun boundary => step.position < boundary.position

theorem executes_of_le {stop : Option Boundary} {step later : Boundary}
    (hle : step.position ≤ later.position) (h : executes stop later = true) :
    executes stop step = true := by
  cases stop with
  | none => rfl
  | some boundary =>
      have hlater : later.position < boundary.position := of_decide_eq_true h
      exact decide_eq_true (by omega)

end Boundary

/-- The order in which `for_each_record` walks an index. -/
structure IndexWalk where
  order : Multiset Record → List Record
  walks : ∀ records, (order records : Multiset Record) = records

/-- What the catalogue depends on outside of the refresh. -/
structure AnalyticsInputs where
  lookups : SessionLookups
  walk : IndexWalk

section Analytics

variable (prepared : PreparedRefresh) (options : IngestOptions) (inputs : ExecutionInputs)
  (analytics : AnalyticsInputs) (durable : Durable) (stop : Option Boundary)

/-- The catalogue may lack or repeat records of the index. -/
def AnalyticsStore.outdated (store : AnalyticsStore) (durable : Durable) : Bool :=
  if durable.lexical = 0 then store.isReady else !store.isComplete

def analyticsNeedsBackfill (store : AnalyticsStore) : Bool :=
  prepared.emptyIndexRebuild || prepared.recoveringPendingIngest || store.outdated durable

/-- The catalogue once a refresh that will fill it has said so. -/
def begunAnalytics (store : AnalyticsStore) : AnalyticsStore :=
  if analyticsNeedsBackfill prepared durable store && Boundary.executes stop .markIncomplete then
    store.markIncomplete
  else store

/-- `PreparedAnalytics::commit` of the writer. -/
def writtenAnalytics (store : AnalyticsStore) : AnalyticsStore :=
  if skipsPublication prepared options inputs durable then store
  else
    { store with
      sessions :=
        (Analytics.prepare analytics.lookups
          ((addedRecords prepared inputs).foldl Analytics.Sessions.record ∅)).foldl
            Catalogue.upsert (store.sessions.delete
              (fun path => path ∈ prepared.deletePaths)
              fun path session => ⟨path, session⟩ ∈ prepared.opencodeScopeTargets) }

/-- `backfill_from_index_with_repositories` on the published index. -/
def backfilledAnalytics (lexical : Multiset Record) (store : AnalyticsStore) : AnalyticsStore :=
  let filled : AnalyticsStore :=
    { sessions := Analytics.backfillFromIndex analytics.lookups (analytics.walk.order lexical)
      complete := false }
  if !Boundary.executes stop .clear then store
  else if !Boundary.executes stop .fill then store.clear
  else if !Boundary.executes stop .markComplete then filled
  else filled.markComplete

/-- The catalogue of a refresh that publishes. A failed parser cancels the writer. -/
def publishedAnalytics (store : AnalyticsStore) : AnalyticsStore :=
  let begun := begunAnalytics prepared durable stop store
  if !parserSucceeded prepared inputs || !Boundary.executes stop .analytics then begun
  else
    let written := writtenAnalytics prepared options inputs analytics durable begun
    if analyticsNeedsBackfill prepared durable store then
      backfilledAnalytics analytics stop (publishedLexical prepared options inputs durable) written
    else if Boundary.executes stop .markComplete then written.markComplete
    else written

/-- The catalogue of a refresh with nothing to publish. -/
def checkpointAnalytics (store : AnalyticsStore) : AnalyticsStore :=
  let begun := begunAnalytics prepared durable stop store
  if analyticsNeedsBackfill prepared durable store then
    backfilledAnalytics analytics stop durable.lexical begun
  else begun

/-- The catalogue after `execute_refresh` up to the given stop. -/
def executedAnalytics (store : AnalyticsStore) : AnalyticsStore :=
  if refreshDecision prepared options inputs durable = .publish then
    publishedAnalytics prepared options inputs analytics durable stop store
  else checkpointAnalytics prepared analytics durable stop store

end Analytics

/-- Everything outside the installation that one refresh depends on. -/
structure CatalogueRefresh where
  inv : Inventory
  options : IngestOptions
  narrowing : Narrowing
  execution : ExecutionInputs
  analytics : AnalyticsInputs
  stop : Option Boundary

def CatalogueRefresh.inputs (refresh : CatalogueRefresh) : RefreshInputs where
  inv := refresh.inv
  options := refresh.options
  narrowing := refresh.narrowing
  execution := refresh.execution
  stop := refresh.stop.map Boundary.stop

/-- One refresh: what it does to the checkpoint and the index, and to the catalogue. -/
def CatalogueRefresh.run (refresh : CatalogueRefresh) (installation : Installation) :
    Installation :=
  let recovery := recoverCheckpoint installation.durable
  { durable := (ingestSelected refresh.inputs installation.durable).durable
    analytics :=
      match prepareRefresh refresh.inv refresh.options recovery.1 recovery.2
          refresh.narrowing with
      | none => installation.analytics
      | some prepared =>
          executedAnalytics prepared refresh.options refresh.execution refresh.analytics
            recovery.1 refresh.stop installation.analytics }

def CatalogueRefresh.ok (refresh : CatalogueRefresh) (installation : Installation) : Bool :=
  (ingestSelected refresh.inputs installation.durable).ok

/-- What happens to an installation. -/
inductive InstallationEvent where
  | refreshed (refresh : CatalogueRefresh)
  | indexLost

def InstallationEvent.apply (installation : Installation) : InstallationEvent → Installation
  | .refreshed refresh => refresh.run installation
  | .indexLost => { installation with durable := { installation.durable with lexical := 0 } }

/-- An installation after some events. -/
def runInstallation (events : List InstallationEvent) : Installation :=
  events.foldl InstallationEvent.apply {}

end Memex.Ingest
