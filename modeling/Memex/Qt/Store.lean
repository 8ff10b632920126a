import Mathlib.Data.List.AList
import Memex.Qt.Values

/-! # The store of the Qt app

`store.rs`: the state of the browser and the reader, the requests it makes of its workers and
what it does with their replies. A reply comes at any later time; the epochs that a request
carries tell whether it is still wanted. The clock is an argument of the steps that read it. -/

namespace Memex.Qt

open Sources

/-- How the records of a page go into the window. -/
inductive PageMode where
  | initial
  | before
  | after
  | replace
deriving DecidableEq

/-- `Kind`; the field `at` is `start` here. -/
inductive Kind where
  | restore
  | machines
  | sessions (machine : String)
  | count (machine : String)
  | projects (machine : String)
  | activity (machine : String)
  | metadata
  | openingTitle
  | page (start : Nat) (mode : PageMode) (target : String) (occurrence : Nat)
  | locate (start : Nat) (target : String)
  | find (start : Nat)
deriving DecidableEq

structure Epochs where
  generation : Nat := 0
  reader : Nat := 0
  find : Nat := 0
  activity : Nat := 0
  page : Nat := 0
deriving DecidableEq

/-- A request carries the epochs of the moment it was made. -/
structure Request extends Epochs where
  kind : Kind
deriving DecidableEq

structure Filters where
  project : Option String
  source : Option String
  /-- Seconds; sent as a date. -/
  since : Option Int
  origin : String
  limit : Nat

/-- The messages to the command line, by their `op`. -/
inductive Payload where
  | restore
  | machines
  | sessions (machine : String) (filters : Filters)
  | search (machine query : String) (filters : Filters)
  | count (machine : String) (query : Option String) (filters : Filters)
  | projects (machine : String)
  | activity (machine metric range : String) (now : Int) (query project source : Option String)
      (origin : String)
  | details (machine : String) (source sessionId sourcePath : Option String)
  | sessionPage (session : PageKey) (offset limit : Nat)

/-- `criteria_key`, before it is turned into a text. -/
structure Criteria where
  ids : List String
  query : String
  project : String
  provider : String
  timeframe : String
  origin : String
deriving DecidableEq

/-- `activity_key`: the criteria and the metric. -/
abbrev ActivityKey := Criteria × String

/-- A request on its way. The criteria and the metric of the moment it was made stand here for
the properties; no step reads them. -/
structure Issued where
  request : Request
  payload : Payload
  criteria : Criteria
  metric : String

/-- The keys of `errors`; `sessions:ID` is `sessions ID`. -/
inductive ErrorKey where
  | machines
  | sessions (machine : String)
  | projects (machine : String)
  | activity (machine : String)
deriving DecidableEq

structure ProjectRow where
  project : String
  sessionCount : Nat
  lastAt : String

/-- The state of the browser. -/
structure Lists where
  /-- The texts `query`, `project`, `machine`, `provider`, `timeframe`, `origin`, `projectSort`
  and `metric`. -/
  settings : String → String
  /-- The ids of `machines`. -/
  machines : List String := ["local"]
  sessions : List Row := []
  errors : ErrorKey → Option String := fun _ => none
  /-- The total, where it is known. -/
  total : Option Nat := none
  pending : Nat := 0
  limit : Nat := 200
  canLoadMore : Bool := false
  batches : String → Option (List Row) := fun _ => none
  projects : String → Option (List Json) := fun _ => none
  projectRows : List ProjectRow := []
  counts : String → Option Nat := fun _ => none
  catalog : String → Option Row := fun _ => none
  configured : Bool := false
  sessionCriteria : Option Criteria := none

/-- The epoch of the requests that filled it stands here for the properties; no step reads it. -/
structure ActivityCache where
  charts : AList fun _ : String => Json
  failures : AList fun _ : String => String
  updatedAt : Int
  revision : Nat
  complete : Bool
  epoch : Nat

/-- A bin of the chart: the points whose values are summed in it. -/
structure ActivityBin where
  timestamp : Int
  points : List Json

/-- What `activity_status` shows of the charts. -/
structure ActivityStatus where
  activityPending : Nat := 0
  activityPendingMachines : List String := []
  activityBusy : Bool := false
  activityComplete : Bool := false
  tokenUsageEnabled : Bool := true
  activityPartial : Bool := false
  activityFailures : AList (fun _ : String => String) := ∅

/-- The state of the chart. -/
structure Charts where
  charts : AList (fun _ : String => Json) := ∅
  activityNow : Int := 0
  activityRevision : Nat := 0
  activityPending : List String := []
  activityFailures : AList (fun _ : String => String) := ∅
  /-- The caches in the order of `activity_cache_keys`. -/
  activityCaches : List (ActivityKey × ActivityCache) := []
  status : ActivityStatus := {}
  activity : List ActivityBin := []

/-- A match of a find; `position` counts bytes of the text in lower case. -/
structure Match where
  id : String
  offset : Nat
  position : Nat
  occurrence : Nat
deriving DecidableEq

inductive NavigationKind where
  | record
  | restore
deriving DecidableEq

/-- The state of the reader; `foundMatches` is the field `matches`. -/
structure View where
  selected : Option Row := none
  records : List Row := []
  offset : Nat := 0
  recordTotal : Nat := 0
  readerBusy : Bool := false
  readerError : String := ""
  metadataBusy : Bool := false
  metadataError : String := ""
  findText : String := ""
  foundMatches : List Match := []
  matchIndex : Int := -1
  finding : Bool := false
  findError : String := ""
  scannedRecords : Nat := 0
  navigationSerial : Nat := 0
  readerOpenedSerial : Nat := 0
  targetRecord : String := ""
  targetOccurrence : Nat := 0
  navigationKind : NavigationKind := .record
  anchor : Json := .string ""
  anchorOffset : Json := .int 0
  expansion : Json := .object []

/-- A window that is kept of a conversation. -/
structure CachedReader where
  records : List Row
  offset : Nat
  total : Nat
  anchor : Json
  anchorOffset : Json
  expansion : Json

structure Store where
  epochs : Epochs := {}
  lists : Lists
  charts : Charts := {}
  view : View := {}
  /-- The cached windows in the order of `cache_keys`. -/
  cache : List (String × CachedReader) := []
  workers : List Request := []
  requests : List Issued := []
  shuttingDown : Bool := false

/-- `initial_state`, as far as texts go. -/
def initialSettings (key : String) : String :=
  match key with
  | "machine" => "all"
  | "timeframe" => "all"
  | "origin" => "interactive"
  | "projectSort" => "activity"
  | "metric" => "sessions"
  | _ => ""

namespace Lists

def ids (lists : Lists) : List String :=
  if lists.settings "machine" = "all" then lists.machines else [lists.settings "machine"]

/-- The days of the timeframe; 0 is all time. -/
def days (lists : Lists) : Nat :=
  match lists.settings "timeframe" with
  | "day" => 1
  | "week" => 7
  | "month" => 30
  | _ => 0

def filters (lists : Lists) (now : Int) : Filters where
  project := nonempty (lists.settings "project")
  source := nonempty (lists.settings "provider")
  since := if lists.days = 0 then none else some (now.tdiv 1000 - lists.days * 86400)
  origin := lists.settings "origin"
  limit := lists.limit

def criteriaKey (lists : Lists) : Criteria where
  ids := lists.ids
  query := lists.settings "query"
  project := lists.settings "project"
  provider := lists.settings "provider"
  timeframe := lists.settings "timeframe"
  origin := lists.settings "origin"

def activityKey (lists : Lists) : ActivityKey := (lists.criteriaKey, lists.settings "metric")

end Lists

/-- The test of `cancel_stale`, which `accept` makes as well: the request was overtaken. -/
def Epochs.stale (epochs : Epochs) (request : Request) : Bool :=
  match request.kind with
  | .machines | .restore => false
  | .metadata | .openingTitle => request.reader != epochs.reader
  | .find _ => request.reader != epochs.reader || request.find != epochs.find
  | .page .. | .locate .. => request.reader != epochs.reader || request.page != epochs.page
  | .activity _ =>
    request.generation != epochs.generation || request.activity != epochs.activity
  | .sessions _ | .count _ | .projects _ => request.generation != epochs.generation

namespace Store

section Requests

/-- `request`: the test build keeps the requests in a list instead of starting workers. -/
def request (store : Store) (kind : Kind) (payload : Payload) : Store :=
  if store.shuttingDown then store
  else
    let request : Request := { store.epochs with kind }
    { store with
      workers := store.workers ++ [request]
      requests := store.requests ++
        [{ request, payload
           criteria := store.lists.criteriaKey, metric := store.lists.settings "metric" }] }

def cancelStale (store : Store) : Store :=
  { store with workers := store.workers.filter fun request => !store.epochs.stale request }

/-- `shutdown`, without joining the workers. -/
def shutdown (store : Store) : Store :=
  { store with shuttingDown := true, workers := [] }

/-- `pending`: the counter moves and stays at 0 at least. -/
def pending (store : Store) (delta : Int) : Store :=
  { store with lists := { store.lists with pending := (store.lists.pending + delta).toNat } }

def error (store : Store) (key : ErrorKey) (text : String) : Store :=
  { store with
    lists := { store.lists with errors := Function.update store.lists.errors key (some text) } }

end Requests

section Lists

/-- The order of the list: the latest first, then by identity. -/
def sessionBefore (left right : Row) : Bool :=
  decide (string right "last_at" < string left "last_at") ||
    string left "last_at" == string right "last_at" && !decide (identity right < identity left)

def mergeSessions (store : Store) : Store :=
  let ids := store.lists.ids
  let rows := ids.flatMap fun id => (store.lists.batches id).getD []
  { store with
    lists := { store.lists with
      sessions := rows.insertionSort fun left right => sessionBefore left right
      canLoadMore := ids.any fun id =>
        (store.lists.batches id).any fun rows => store.lists.limit ≤ rows.length } }

/-- A project of one machine is added to those of the same name. -/
def addProject (merged : List ProjectRow) (row : Row) : List ProjectRow :=
  let name := string row "project"
  let item := (merged.find? fun item => item.project == name).getD
    { project := name, sessionCount := 0, lastAt := "" }
  { project := name
    sessionCount := item.sessionCount + number row "session_count"
    lastAt := if item.lastAt < string row "last_at" then string row "last_at" else item.lastAt } ::
    merged.filter fun item => item.project != name

/-- The order of the projects that `projectSort` asks for. -/
def projectBefore (sort : String) (left right : ProjectRow) : Bool :=
  let tie := !decide (right.project < left.project)
  match sort with
  | "count" => decide (right.sessionCount < left.sessionCount) ||
      left.sessionCount == right.sessionCount && tie
  | "name" => tie
  | _ => decide (right.lastAt < left.lastAt) || left.lastAt == right.lastAt && tie

def mergeProjects (store : Store) : Store :=
  let rows := store.lists.ids.flatMap fun id =>
    ((store.lists.projects id).getD []).map members
  { store with
    lists := { store.lists with
      projectRows := (rows.foldl addProject []).insertionSort fun left right =>
        projectBefore (store.lists.settings "projectSort") left right } }

/-- The rows and the number of the sessions of a machine are asked for. -/
def loadMachine (store : Store) (now : Int) (id : String) : Store :=
  let filters := store.lists.filters now
  let query := trim (store.lists.settings "query")
  let payload := if query = "" then .sessions id filters else .search id query filters
  let count := .count id (if query = "" then none else some query) filters
  ((store.pending 1).request (.sessions id) payload).request (.count id) count

end Lists

section Activity

/-- The errors of the charts are those of `activity_failures`. -/
def activityErrors (lists : Lists) (failures : AList fun _ : String => String) :
    ErrorKey → Option String
  | .activity machine => failures.lookup machine
  | key => lists.errors key

/-- A member that is the boolean `value`. -/
def isBool (chart : Json) (key : String) (value : Bool) : Bool :=
  (members chart key).asBool == some value

def activityStatus (store : Store) : Store :=
  let charts := store.charts
  let values := charts.charts.entries.map Sigma.snd
  { store with
    lists := { store.lists with errors := activityErrors store.lists charts.activityFailures }
    charts := { charts with
      status := {
        activityPending := charts.activityPending.length
        activityPendingMachines := charts.activityPending
        activityBusy := charts.activityPending ≠ []
        activityComplete := charts.activityPending = []
        tokenUsageEnabled := values.any fun chart => !isBool chart "token_usage_enabled" false
        activityPartial := charts.activityPending ≠ [] || charts.activityFailures.entries ≠ [] ||
          values.any fun chart => isBool chart "partial" true ||
            store.lists.settings "metric" == "tokens" && isBool chart "token_usage_enabled" false
        activityFailures := charts.activityFailures } } }

def cacheActivity (store : Store) (now : Int) : Store :=
  let charts := store.charts
  let key := store.lists.activityKey
  let cache : ActivityCache :=
    { charts := charts.charts, failures := charts.activityFailures, updatedAt := now
      revision := charts.activityRevision, complete := charts.activityPending = []
      epoch := store.epochs.activity }
  let caches := (charts.activityCaches.filter fun entry => entry.1 != key) ++ [(key, cache)]
  { store with charts := { charts with activityCaches := caches.drop (caches.length - 8) } }

/-- The time of a point. -/
def timestampOf (point : Json) : Int := (members point "timestamp_ms").asI64.getD 0

/-- `merge_activity`: the points of all machines in bins. -/
def mergeActivity (store : Store) : Store :=
  let unit : Int := if store.lists.settings "timeframe" = "day" then 3600000 else 86400000
  let now := store.charts.activityNow
  let last := now.tdiv unit * unit
  let points := store.charts.charts.entries.flatMap fun entry =>
    array (members entry.snd "points")
  let start :=
    if 0 < store.lists.days then (now - store.lists.days * 86400000).tdiv unit * unit
    else
      let stamps := points.filterMap fun point => (members point "timestamp_ms").asI64
      let first := stamps.foldl (fun least stamp => if stamp < least then stamp else least) last
      first.tdiv unit * unit
  let step := max ((((last - start).tdiv unit + 1 + 59)).tdiv 60) 1 * unit
  let bin (index : Nat) : ActivityBin :=
    { timestamp := start + index * step
      points := points.filter fun point =>
        start ≤ timestampOf point && timestampOf point ≤ last &&
          (timestampOf point - start).tdiv step == index }
  { store with
    charts := { store.charts with
      activity := (List.range ((last - start).tdiv step + 1).toNat).map bin } }

/-- A request for the chart of a machine. -/
def requestActivity (now : Int) (store : Store) (id : String) : Store :=
  let range := match store.lists.settings "timeframe" with
    | "day" => "24h"
    | "week" => "7d"
    | "month" => "30d"
    | _ => "all"
  store.request (.activity id)
    (.activity id (store.lists.settings "metric") range now
      (nonempty (store.lists.settings "query")) (nonempty (store.lists.settings "project"))
      (nonempty (store.lists.settings "provider")) (store.lists.settings "origin"))

/-- A kept chart is shown without asking again. -/
def fresh (store : Store) (now : Int) (cache : ActivityCache) : Bool :=
  cache.complete && cache.revision == store.charts.activityRevision &&
    now - cache.updatedAt < 60000

/-- The chart is emptied, or filled from the cache, and asked for again. -/
def askActivity (store : Store) (now : Int) : Store :=
  let ids := store.lists.ids
  let store := { store with charts := { store.charts with activityPending := ids } }
  ids.foldl (requestActivity now) store.activityStatus.mergeActivity

def refreshActivity (store : Store) (now : Int) : Store :=
  let store :=
    { store with epochs := { store.epochs with activity := store.epochs.activity + 1 } }.cancelStale
  let store :=
    { store with charts := { store.charts with
        charts := ∅, activityFailures := ∅, activityPending := [], activityNow := now } }
  match store.charts.activityCaches.lookup store.lists.activityKey with
  | none => store.askActivity now
  | some cache =>
    let store := { store with charts := { store.charts with charts := cache.charts } }
    if store.fresh now cache then
      { store with charts := { store.charts with
          activityFailures := cache.failures } }.activityStatus.mergeActivity
    else store.askActivity now

end Activity

section Refresh

/-- The batches of other criteria are dropped. -/
def keepBatches (store : Store) : Store :=
  let criteria := store.lists.criteriaKey
  let batches := if store.lists.sessionCriteria = some criteria then store.lists.batches
    else fun _ => none
  { store with lists := { store.lists with
      batches, sessionCriteria := some criteria, counts := fun _ => none, pending := 0
      limit := 200 } }

/-- The requests of a machine in `refresh`. -/
def refreshMachine (now : Int) (store : Store) (id : String) : Store :=
  ((store.loadMachine now id).pending 1).request (.projects id) (.projects id)

def refresh (store : Store) (now : Int) : Store :=
  let epochs := { store.epochs with generation := store.epochs.generation + 1 }
  let store := { store with epochs }.cancelStale.keepBatches.mergeSessions
  let store := { store with lists := { store.lists with
      total := none, canLoadMore := false, errors := fun _ => none } }
  let store := store.lists.ids.foldl (refreshMachine now) store
  store.mergeProjects.refreshActivity now

end Refresh

section Reader

/-- `selected`, a missing one without members. -/
def selection (store : Store) : Row := store.view.selected.getD fun _ => .null

def pagePayload (store : Store) (start limit : Nat) : Payload :=
  .sessionPage (pageKey store.selection) start limit

/-- The cache with the window of a reader, for at most 20 conversations. -/
def keepReader (view : View) (cache : List (String × CachedReader)) :
    List (String × CachedReader) :=
  match view.selected with
  | none => cache
  | some selected =>
    if view.records = [] then cache
    else
      let cached : CachedReader :=
        { records := view.records, offset := view.offset, total := view.recordTotal
          anchor := view.anchor, anchorOffset := view.anchorOffset, expansion := view.expansion }
      let cache := (cache.filter fun entry => entry.1 != identity selected) ++
        [(identity selected, cached)]
      cache.drop (cache.length - 20)

def saveReader (store : Store) : Store :=
  { store with cache := keepReader store.view store.cache }

def navigate (store : Store) (id : String) (occurrence : Nat) : Store :=
  { store with view := { store.view with
      navigationKind := .record, navigationSerial := store.view.navigationSerial + 1
      targetRecord := id, targetOccurrence := occurrence } }

/-- The next page epoch begins. -/
def nextPage (store : Store) : Store :=
  { store with epochs := { store.epochs with page := store.epochs.page + 1 } }.cancelStale

/-- How many records a page is asked for. -/
def pageLimit (view : View) (start : Nat) (mode : PageMode) : Nat :=
  if mode = .before then min (view.offset - start) 60 else 60

def loadPage (store : Store) (start : Nat) (mode : PageMode) (target : String)
    (occurrence : Nat) : Store :=
  if store.view.selected.isNone then store
  else
    let store := store.nextPage
    let store := { store with view := { store.view with readerBusy := true, readerError := "" } }
    store.request (.page start mode target occurrence)
      (store.pagePayload start (pageLimit store.view start mode))

def locatePage (store : Store) (start : Nat) (target : String) : Store :=
  let store := { store with view := { store.view with readerBusy := true } }
  store.request (.locate start target) (store.pagePayload start 500)

def findPage (store : Store) (start : Nat) : Store :=
  store.request (.find start) (store.pagePayload start 200)

/-- The last record of a page, by its id. -/
def lastId (rows : List Row) : String := (rows.getLast?.map (string · "record_id")).getD ""

def navigateFind (store : Store) (direction : Int) : Store :=
  let found := store.view.foundMatches
  if found = [] then store
  else
    let prior := store.view.matchIndex
    let start := if prior < 0 ∧ direction < 0 then 0 else prior
    let index := ((start + direction) % found.length).toNat
    match found[index]? with
    | none => store
    | some target =>
      let store := { store with view := { store.view with matchIndex := index } }
      if store.view.records.any fun row => string row "record_id" == target.id then
        let store := store.nextPage
        let store := { store with view := { store.view with readerBusy := false } }
        store.navigate target.id target.occurrence
      else store.loadPage (target.offset - 30) .replace target.id target.occurrence

/-- A page that a navigation is waiting for is among the active requests. -/
def isNavigation (request : Request) : Bool :=
  match request.kind with
  | .page _ _ target _ => target != ""
  | _ => false

/-- The next find begins; a page that an older one waits for is overtaken. -/
def nextFind (store : Store) : Store :=
  let epochs := { store.epochs with find := store.epochs.find + 1 }
  if store.workers.any isNavigation then
    { store with
      epochs := { epochs with page := epochs.page + 1 }
      view := { store.view with readerBusy := false } }.cancelStale
  else { store with epochs }.cancelStale

def startFind (store : Store) (text : String) : Store :=
  let store := store.nextFind
  let active := text != "" && store.view.selected.isSome
  let store := { store with view := { store.view with
      findText := text, foundMatches := [], matchIndex := -1, findError := ""
      scannedRecords := 0, finding := active } }
  if active then store.findPage 0 else store

def loadMetadata (store : Store) : Store :=
  let selected := store.selection
  if !isBlankText (string selected "label") && !isBlankText (string selected "cwd") then store
  else
    let store := { store with view := { store.view with metadataBusy := true } }
    store.request .metadata
      (.details (machineOf selected) (selected "source").asStr (selected "session_id").asStr
        (selected "source_path").asStr)

/-- A member of the details that `apply_metadata` takes over. -/
def applies (metadata : Row) (field : String) : Bool :=
  !isNull (metadata field) &&
    !(field == "label" && isBlankText (string metadata "label")) &&
    !(["snippet", "search_record_id", "record_id", "machine"].contains field)

def applyMetadata (store : Store) (metadata : Row) : Store :=
  let key := identity store.selection
  let selected : Row := fun field =>
    if applies metadata field then metadata field else store.selection field
  let replace (row : Row) : Row := if identity row = key then selected else row
  { store with
    lists := { store.lists with
      catalog := Function.update store.lists.catalog key (some selected)
      batches := fun id => (store.lists.batches id).map (List.map replace)
      sessions := store.lists.sessions.map replace }
    view := { store.view with selected := some selected } }

/-- The reader is emptied for another conversation. -/
def emptyView (view : View) (session : Row) : View :=
  { view with
    selected := some session, readerBusy := false, readerError := "", metadataError := ""
    metadataBusy := false, records := [], offset := 0, recordTotal := 0, findText := ""
    foundMatches := [], matchIndex := -1, finding := false, anchor := .string ""
    anchorOffset := .int 0, expansion := .object []
    readerOpenedSerial := view.readerOpenedSerial + 1 }

/-- A kept window is shown again. -/
def restoreReader (store : Store) (cached : CachedReader) : Store :=
  let store := { store with view := { store.view with
      records := cached.records, offset := cached.offset, recordTotal := cached.total
      anchor := cached.anchor, anchorOffset := cached.anchorOffset
      expansion := cached.expansion } }
  let anchor := cached.anchor.asStr.getD ""
  let store := store.navigate (if anchor = "" then lastId cached.records else anchor) 0
  { store with view := { store.view with navigationKind := .restore } }

/-- The next reader begins, with a find and a page of its own. -/
def nextReader (store : Store) : Store :=
  let epochs := store.epochs
  { store with epochs := { epochs with
      reader := epochs.reader + 1, find := epochs.find + 1, page := epochs.page + 1 } }.cancelStale

/-- `open`. -/
def openSession (store : Store) (session : Row) : Store :=
  let store := store.saveReader.nextReader
  let store := { store with view := emptyView store.view session }
  let target := string session "search_record_id"
  if target = "" then
    match store.cache.lookup (identity session) with
    | some cached => (store.restoreReader cached).loadMetadata
    | none => (store.loadPage (number session "message_count" - 60) .initial "" 0).loadMetadata
  else (store.locatePage 0 target).loadMetadata

end Reader

end Store

end Memex.Qt
