import Memex.Lib.Occurrences
import Memex.Qt.Store

/-! # Actions on the Qt store and replies to it

`action` and `accept` of `store.rs`: what the user does, and what a reply changes that no later
request has overtaken. -/

namespace Memex.Qt

open Sources

/-- The actions of the app, by their `op`; `initialise` is `initialize`. -/
inductive Action where
  | initialise
  | shutdown
  | refresh
  | configure (changes : Row)
  | resetFilters
  | moreSessions
  | refreshActivity
  | openSession (session : Row)
  | earlier
  | later
  | find (text : String)
  | navigateFind (direction : Int)
  | saveAnchor (id offset expansion : Json)

/-- What comes back from a worker. -/
abbrev Reply := Except String Json

namespace Store

section Accept

/-- The matches in a text of a find, in lower case: where each begins, in bytes. -/
def matchPositions (needle body : List Char) : List Nat :=
  (Occurrences.starts needle body).map fun index => Text.byteLength (body.take index)

/-- The matches in one record. -/
def matchesIn (texts : Texts) (findText : String) (offset : Nat) (row : Row) : List Match :=
  let positions := matchPositions (texts.lowercase findText).toList
    (texts.lowercase (findBody row)).toList
  positions.zipIdx.map fun entry =>
    { id := string row "record_id", offset, position := entry.1, occurrence := entry.2 }

/-- The details row of the selected conversation. -/
def isDetail (selected row : Row) : Bool :=
  (["source", "session_id", "source_path"].all fun key => sameText row selected key) &&
    (row "machine").asStr.getD (machineOf selected) == machineOf selected

/-- The selected conversation has no label. -/
def unlabeled (store : Store) : Bool := isBlankText (string store.selection "label")

def acceptMetadata (store : Store) (result : Reply) : Store :=
  let store := { store with view := { store.view with metadataBusy := false } }
  match result with
  | .error error => { store with view := { store.view with metadataError := error } }
  | .ok rows =>
    match ((array rows).map members).find? (isDetail store.selection) with
    | none => { store with view := { store.view with
        metadataError := "Session details did not match the selected conversation" } }
    | some detail =>
      let store := store.applyMetadata detail
      if store.unlabeled then
        let store := { store with view := { store.view with metadataBusy := true } }
        store.request .openingTitle (store.pagePayload 0 16)
      else store

/-- The details that consist of a label. -/
def labelRow (title : String) : Row := fun key => if key = "label" then .string title else .null

def acceptOpeningTitle (texts : Texts) (store : Store) (result : Reply) : Store :=
  let store := { store with view := { store.view with metadataBusy := false } }
  match result with
  | .error error => { store with view := { store.view with metadataError := error } }
  | .ok page =>
    if store.unlabeled then
      match texts.openingTitle (decodePage page).1 with
      | some title => store.applyMetadata (labelRow title)
      | none => store
    else store

/-- The settings that were saved, unless the user has set any. -/
def restoreSettings (lists : Lists) (saved : Row) : String → String := fun key =>
  if ["machine", "provider", "timeframe", "origin", "projectSort"].contains key then
    (saved key).asStr.getD (lists.settings key)
  else lists.settings key

/-- The saved projects of the machines; all are arrays or none is taken. -/
def savedProjects : Json → String → Option (List Json)
  | .object entries, machine =>
    if entries.all fun entry => entry.2.asArray.isSome then
      (entries.lookup machine).bind Json.asArray
    else none
  | _, _ => none

/-- The projects that were saved are taken for machines whose own are not known. -/
def restoreProjects (lists : Lists) (saved : Row) : String → Option (List Json) := fun machine =>
  (lists.projects machine).or (savedProjects (saved "projects") machine)

/-- Saved settings and projects. -/
def takeSaved (store : Store) (saved : Row) : Store :=
  { store with lists := { store.lists with
      settings := if store.lists.configured then store.lists.settings
        else restoreSettings store.lists saved
      projects := restoreProjects store.lists saved } }.mergeProjects

def acceptRestore (store : Store) (now : Int) (result : Reply) : Store :=
  match result with
  | .error _ => store
  | .ok value =>
    let store := store.takeSaved (members value)
    if !store.lists.configured && 0 < store.epochs.generation then store.refresh now else store

/-- The ids of the machines that are listed. -/
def machineIds (value : Json) : List String :=
  (array value).map fun machine => string (members machine) "id"

/-- The machines, or this computer where no id is left. -/
def setMachines (store : Store) (value : Json) : Store :=
  let listed := { store with lists := { store.lists with machines := machineIds value } }
  if listed.lists.ids = [] then
    { store with lists := { store.lists with machines := ["local"] } }
  else listed

def acceptMachines (store : Store) (now : Int) (result : Reply) : Store :=
  match result with
  | .ok value => (store.setMachines value).refresh now
  | .error error => ((store.error .machines error).refresh now).error .machines error

/-- A row of a reply, of the machine that was asked. -/
def ofMachine (id : String) (value : Json) : Row :=
  Function.update (members value) "machine" (.string id)

/-- The members of a row over those that are known of the conversation. -/
def overRow (known row : Row) : Row := fun key =>
  if isNull (row key) then known key else row key

/-- The record of a search hit. -/
def hitRecord (row : Row) : Json :=
  if (row "record_id").asStr.isSome then row "record_id" else .null

/-- A row of the list: what is known of the conversation with what the reply says. -/
def mergeRow (known row : Row) : Row :=
  let merged := Function.update (overRow known row) "search_record_id" (hitRecord row)
  if isNull (merged "last_at") then Function.update merged "last_at" (row "ts") else merged

/-- The body of the loop over the rows of a reply. -/
def takeRow (id : String) (state : (String → Option Row) × List Row) (value : Json) :
    (String → Option Row) × List Row :=
  let row := ofMachine id value
  let key := identity row
  let merged := mergeRow ((state.1 key).getD fun _ => .null) row
  (Function.update state.1 key (some merged), state.2 ++ [merged])

def acceptSessions (store : Store) (id : String) (result : Reply) : Store :=
  let store := store.pending (-1)
  match result with
  | .error error => store.error (.sessions id) error
  | .ok value =>
    let taken := (array value).foldl (takeRow id) (store.lists.catalog, [])
    { store with lists := { store.lists with
        catalog := taken.1
        batches := Function.update store.lists.batches id (some taken.2) } }.mergeSessions

def acceptCount (store : Store) (id : String) (result : Reply) : Store :=
  let count := match result with
    | .ok value => (members value "total").asU64
    | .error _ => none
  let counts := Function.update store.lists.counts id count
  { store with lists := { store.lists with
      counts, total := (store.lists.ids.mapM counts).map List.sum } }

def acceptProjects (store : Store) (id : String) (result : Reply) : Store :=
  let store := store.pending (-1)
  match result with
  | .error error => store.error (.projects id) error
  | .ok value =>
    { store with lists := { store.lists with
        projects := Function.update store.lists.projects id (some (array value)) } }.mergeProjects

/-- The reply of a machine goes into its chart or its failure. -/
def takeChart (charts : Charts) (id : String) (result : Reply) : Charts :=
  let charts := { charts with
    activityPending := charts.activityPending.filter fun machine => machine != id }
  match result with
  | .ok value => { charts with
      activityFailures := charts.activityFailures.erase id,
      charts := charts.charts.insert id value }
  | .error error => { charts with activityFailures := charts.activityFailures.insert id error }

def acceptActivity (store : Store) (now : Int) (id : String) (result : Reply) : Store :=
  let store := { store with charts := takeChart store.charts id result }
  let store := match result with
    | .ok _ => store
    | .error error => store.error (.activity id) error
  store.activityStatus.mergeActivity.cacheActivity now

/-- `combined.retain`: of the records of one id the first. -/
def retainFirst : List String → List Row → List Row
  | _, [] => []
  | seen, row :: rest =>
    let id := string row "record_id"
    if seen.contains id then retainFirst seen rest else row :: retainFirst (id :: seen) rest

/-- The window after a page of records. -/
def combineRows (view : View) (start : Nat) (mode : PageMode) (rows : List Row) : View :=
  match mode with
  | .before => { view with records := retainFirst [] (rows ++ view.records), offset := start }
  | .after => { view with records := retainFirst [] (view.records ++ rows) }
  | _ => { view with records := retainFirst [] rows, offset := start }

/-- Where the reader goes after a page of records. -/
def navigatePage (store : Store) (mode : PageMode) (target : String) (occurrence : Nat)
    (rows : List Row) : Store :=
  if target ≠ "" then store.navigate target occurrence
  else
    match mode with
    | .before | .after =>
      let anchor := store.view.anchor.asStr.getD ""
      if anchor = "" then store
      else
        let store := store.navigate anchor 0
        { store with view := { store.view with navigationKind := .restore } }
    | .initial => if rows = [] then store else store.navigate (lastId rows) 0
    | .replace => store

def acceptPage (store : Store) (start : Nat) (mode : PageMode) (target : String)
    (occurrence : Nat) (result : Reply) : Store :=
  let store := { store with view := { store.view with readerBusy := false } }
  match result with
  | .error error => { store with view := { store.view with readerError := error } }
  | .ok value =>
    let rows := (decodePage value).1
    let total := (decodePage value).2
    let store := { store with view := { store.view with recordTotal := total } }
    if mode = .initial ∧ start ≠ total - 60 then store.loadPage (total - 60) .initial "" 0
    else
      let store := { store with view := combineRows store.view start mode rows }
      (store.navigatePage mode target occurrence rows).saveReader

def acceptLocate (store : Store) (start : Nat) (target : String) (result : Reply) : Store :=
  match result with
  | .error error =>
    { store with view := { store.view with readerBusy := false, readerError := error } }
  | .ok value =>
    let rows := (decodePage value).1
    let total := (decodePage value).2
    match rows.findIdx? fun row => string row "record_id" == target with
    | some index => store.loadPage (start + index - 30) .replace target 0
    | none =>
      if rows ≠ [] ∧ start + rows.length < total then
        store.locatePage (start + rows.length) target
      else store.loadPage (total - 60) .initial "" 0

/-- The matches in records that follow each other from an offset on. -/
def matchesFrom (texts : Texts) (findText : String) (start : Nat) (rows : List Row) :
    List Match :=
  (rows.zipIdx start).flatMap fun entry => matchesIn texts findText entry.2 entry.1

/-- The matches of a page of records are added. -/
def collectMatches (texts : Texts) (view : View) (start : Nat) (rows : List Row) : View :=
  { view with
    foundMatches := view.foundMatches ++ matchesFrom texts view.findText start rows
    scannedRecords := start + rows.length }

/-- The matches are added and the first of all is gone to. -/
def takeMatches (texts : Texts) (store : Store) (start : Nat) (rows : List Row) : Store :=
  let store := { store with view := collectMatches texts store.view start rows }
  if store.view.matchIndex = -1 ∧ store.view.foundMatches ≠ [] then store.navigateFind 1 else store

def acceptFind (texts : Texts) (store : Store) (start : Nat) (result : Reply) : Store :=
  match result with
  | .error error =>
    { store with view := { store.view with finding := false, findError := error } }
  | .ok value =>
    let rows := (decodePage value).1
    let total := (decodePage value).2
    let store := store.takeMatches texts start rows
    if rows ≠ [] ∧ start + rows.length < total then store.findPage (start + rows.length)
    else { store with view := { store.view with finding := false } }

/-- What a reply changes that was not overtaken. -/
def apply (texts : Texts) (now : Int) (store : Store) (kind : Kind) (result : Reply) : Store :=
  match kind with
  | .metadata => store.acceptMetadata result
  | .openingTitle => store.acceptOpeningTitle texts result
  | .restore => store.acceptRestore now result
  | .machines => store.acceptMachines now result
  | .sessions id => store.acceptSessions id result
  | .count id => store.acceptCount id result
  | .projects id => store.acceptProjects id result
  | .activity id => store.acceptActivity now id result
  | .page start mode target occurrence => store.acceptPage start mode target occurrence result
  | .locate start target => store.acceptLocate start target result
  | .find start => store.acceptFind texts start result

/-- `workers.retain`: the worker of a request has finished. -/
def retire (store : Store) (request : Request) : Store :=
  { store with workers := store.workers.filter fun active => active != request }

def accept (texts : Texts) (now : Int) (store : Store) (request : Request) (result : Reply) :
    Store :=
  let store := store.retire request
  if store.epochs.stale request then store else store.apply texts now request.kind result

end Accept

section Action

/-- A setting that was changed; the flags ask for a refresh of the lists and of the chart. -/
def configureKey (changes : Row) (state : Lists × Bool × Bool) (key : String) :
    Lists × Bool × Bool :=
  let (lists, refresh, activity) := state
  match (changes key).asStr with
  | none => state
  | some value =>
    if value = lists.settings key then state
    else
      ({ lists with settings := Function.update lists.settings key value },
        refresh || key != "metric" && key != "projectSort", activity || key == "metric")

def configure (store : Store) (now : Int) (changes : Row) : Store :=
  let (lists, refresh, activity) :=
    ["query", "project", "machine", "provider", "timeframe", "origin", "projectSort",
      "metric"].foldl (configureKey changes) ({ store.lists with configured := true }, false, false)
  let store := { store with lists }.mergeProjects
  if refresh then store.refresh now else if activity then store.refreshActivity now else store

def resetFilters (store : Store) (now : Int) : Store :=
  let settings := Function.update (Function.update (Function.update store.lists.settings
    "provider" "") "timeframe" "all") "origin" "interactive"
  { store with lists := { store.lists with settings, configured := true } }.refresh now

/-- More rows are asked for. -/
def raiseLimit (store : Store) : Store :=
  { store with lists := { store.lists with limit := store.lists.limit + 200 } }

def moreSessions (store : Store) (now : Int) : Store :=
  if store.lists.pending = 0 ∧ store.lists.canLoadMore = true then
    let store := store.raiseLimit
    store.lists.ids.foldl (fun store id => store.loadMachine now id) store
  else store

/-- The user asks for the charts again. -/
def nextRevision (store : Store) : Store :=
  { store with charts := { store.charts with
      activityRevision := store.charts.activityRevision + 1 } }

def earlier (store : Store) : Store :=
  if store.view.readerBusy = false ∧ 0 < store.view.offset then
    store.loadPage (store.view.offset - 60) .before "" 0
  else store

def later (store : Store) : Store :=
  let next := store.view.offset + store.view.records.length
  if store.view.readerBusy = false ∧ next < store.view.recordTotal then
    store.loadPage next .after "" 0
  else store

def saveAnchor (store : Store) (id offset expansion : Json) : Store :=
  { store with view := { store.view with
      anchor := id, anchorOffset := offset
      expansion := if expansion.isObject then expansion else store.view.expansion } }

/-- `action`; the actions between are ignored once the store is shut down. -/
def action (now : Int) (store : Store) (action : Action) : Store :=
  if store.shuttingDown then store
  else
    match action with
    | .initialise => store.request .machines .machines
    | .shutdown => store.shutdown
    | .refresh => store.nextRevision.refresh now
    | .configure changes => store.configure now changes
    | .resetFilters => store.resetFilters now
    | .moreSessions => store.moreSessions now
    | .refreshActivity => store.nextRevision.refreshActivity now
    | .openSession session => store.openSession session
    | .earlier => store.earlier
    | .later => store.later
    | .find text => store.startFind text
    | .navigateFind direction => store.navigateFind direction
    | .saveAnchor id offset expansion => store.saveAnchor id offset expansion

end Action

/-- `new`, with a file of saved settings or without. -/
def new (persistence : Bool) : Store :=
  let store : Store := { lists := { settings := initialSettings } }
  (if persistence then store.request .restore .restore else store).mergeProjects

end Store

end Memex.Qt
