import Memex.Analytics.Catalogue
import Memex.Retrieval.CanonicalId
import Memex.Sources.ClaudeUsage
import Mathlib.Data.Finmap

/-! # Usage by the origin of sessions

`machine.rs` and `usage/filter.rs`: a report of one origin counts the events whose session the
catalogue has under that origin. -/

namespace Memex

/-- `label`. -/
def SourceKind.label (kind : SourceKind) : String :=
  kind.storageLabel

namespace Usage

open Analytics

inductive SessionKindFilter where
  | primary
  | subagent
  | regular
  | all
  deriving DecidableEq, Repr

/-- The clause of `query_sessions_filtered` on the conversation kind. -/
def SessionKindFilter.matchesKind (filter : SessionKindFilter) (kind : Option String) : Bool :=
  match filter with
  | primary => kind.isNone || kind = some "main"
  | subagent => kind.isSome && kind ≠ some "main" && kind ≠ some "guardian_review"
  | regular => kind.isNone || kind ≠ some "guardian_review"
  | all => true

/-- The keys of usage events; a set in no order. -/
abbrev SessionKeys := Finset (String × String)

/-- The part of `UsageSpec` that selects events. -/
structure UsageSpec where
  project : Option String := none
  sessionKeys : Option SessionKeys := none
  kind : Option SessionKindFilter := none
  sinceMs : Option Nat := none
  untilMs : Option Nat := none

/-- The part of `UsageQuery` that selects events. -/
structure UsageQuery where
  project : Option String
  sessionKeys : Option SessionKeys
  sinceMs : Option Nat
  untilMs : Option Nat
  includeReviews : Bool

/-- The sessions of the catalogue that are of a kind. -/
def querySessionsFiltered (catalogue : Catalogue) (kind : SessionKindFilter) :
    Finset SessionKey :=
  catalogue.keys.filter fun key =>
    (catalogue.lookup key).any fun row => kind.matchesKind row.conversationKind

/-- `usage_session_keys_for_kind`. -/
def usageSessionKeysForKind (catalogue : Catalogue) (kind : SessionKindFilter) : SessionKeys :=
  (querySessionsFiltered catalogue kind).image fun key => (key.source.label, key.sessionId)

/-- `apply_kind_to_session_keys`. -/
def applyKindToSessionKeys (sessionKeys : Option SessionKeys) (kind : Option SessionKindFilter)
    (allowed : Option SessionKeys) : Option SessionKeys :=
  let kind := kind.getD .regular
  if kind = .all ∨ kind = .regular then sessionKeys
  else
    match allowed with
    | none => none
    | some allowed =>
        some (match sessionKeys with
          | some keys => keys ∩ allowed
          | none => allowed)

def usageQuery (catalogue : Catalogue) (spec : UsageSpec) : UsageQuery :=
  let kind := spec.kind.getD .regular
  let allowed :=
    if kind = .all ∨ kind = .regular then none
    else some (usageSessionKeysForKind catalogue kind)
  { project := spec.project
    sessionKeys := applyKindToSessionKeys spec.sessionKeys spec.kind allowed
    sinceMs := spec.sinceMs
    untilMs := spec.untilMs
    includeReviews := spec.kind = some .all }

/-- `FilterPlan::matches`; how the project of an event is compared is a parameter. -/
def matchesPlan (projectMatches : String → String → Bool) (query : UsageQuery)
    (event : UsageEvent) : Bool :=
  (query.includeReviews || !event.permissionReview) &&
    query.project.all (fun project => event.project.any (projectMatches project)) &&
    query.sessionKeys.all fun keys =>
      event.sessionId.any fun sessionId => (event.source, sessionId) ∈ keys

/-- The order of the assembled events. -/
def eventBefore (left right : UsageEvent) : Ordering :=
  (compare left.timestampMs right.timestampMs).then
    ((compare left.sourcePath right.sourcePath).then
      (compare left.sourceOrder right.sourceOrder))

/-- `sort_usage_events`. -/
def sortUsageEvents (events : List UsageEvent) : List UsageEvent :=
  LatestByKey.sorted eventBefore events

/-- `filtered_events`; the bounds are found by bisection in the sorted events. -/
def filteredEvents (projectMatches : String → String → Bool) (assembled : List UsageEvent)
    (query : UsageQuery) : List UsageEvent :=
  let start := query.sinceMs.elim 0 fun since =>
    assembled.countP fun event => event.timestampMs < since
  let stop := query.untilMs.elim assembled.length fun until_ =>
    assembled.countP fun event => event.timestampMs < until_
  ((assembled.take stop).drop start).filter (matchesPlan projectMatches query)

structure UsageReport where
  events : Nat
  totalTokens : Nat
  details : List UsageEvent
  deriving DecidableEq, Repr

/-- `scan_single`, without the prices. -/
def scanSingle (projectMatches : String → String → Bool) (assembled : List UsageEvent)
    (query : UsageQuery) : UsageReport :=
  let events := filteredEvents projectMatches assembled query
  { events := events.length
    totalTokens := events.foldl (fun total event =>
      saturatingAdd total event.tokens.additiveTotal) 0
    details := events }

/-- `usage_local`, over the reconciled events of the logs. -/
def usageLocal (projectMatches : String → String → Bool) (catalogue : Catalogue)
    (events : List UsageEvent) (spec : UsageSpec) : UsageReport :=
  scanSingle projectMatches (sortUsageEvents events) (usageQuery catalogue spec)

end Usage

end Memex
