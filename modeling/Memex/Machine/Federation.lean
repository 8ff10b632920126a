import Memex.Lib.StableOrder
import Memex.Sources.Json
import Mathlib.Order.Compare

/-! # Answers of several machines

`machine.rs`: a search or a usage report asks every selected machine in a thread of its own
and merges the answers in the order in which they arrive. -/

namespace Memex.Machine

open Sources

def localMachineId : String := "local"

structure ControlConfig where
  kind : String
  host : String
  deriving DecidableEq, Repr

structure MachineConfig where
  id : String
  ssh : Option String := none
  command : Option String := none
  enabled : Option Bool := none
  control : Option ControlConfig := none
  deriving DecidableEq, Repr

/-- The part of `UserConfig` that selects machines. -/
structure UserConfig where
  default : List String := []
  machines : List MachineConfig := []
  deriving DecidableEq, Repr

namespace MachineConfig

def isEnabled (machine : MachineConfig) : Bool :=
  machine.enabled.getD true

def sshTarget (machine : MachineConfig) : Option String :=
  ((machine.control.filter fun control => control.kind = "ssh").map ControlConfig.host).or
    machine.ssh

def commandName (machine : MachineConfig) : String :=
  machine.command.getD "memex"

end MachineConfig

/-- A byte of a machine id. -/
def isIdChar (c : Char) : Bool :=
  c.isAlphanum || c = '-' || c = '_'

/-- A byte of a command. -/
def isCommandChar (c : Char) : Bool :=
  c.isAlphanum || c = '/' || c = '.' || c = '_' || c = '-' || c = '~'

def validateMachine (machine : MachineConfig) : Except String Unit :=
  if machine.id = "" ∨ machine.id = localMachineId ∨ machine.id.toList.all isIdChar = false then
    .error s!"invalid machine id '{machine.id}'"
  else
    match machine.sshTarget with
    | none => .error s!"machine '{machine.id}' has no SSH control transport"
    | some target =>
        if target.toList.head? = some '-' ∨ target = "" ∨ target.toList.any isWhitespace then
          .error s!"machine '{machine.id}' has an unsafe SSH target"
        else if machine.commandName.toList.head? = some '-' ∨ machine.commandName = "" ∨
            machine.commandName.toList.all isCommandChar = false then
          .error s!"machine '{machine.id}' has an unsafe command"
        else .ok ()

/-- Keep the first of equal ids. -/
def retainFirst (ids : List String) : List String :=
  ids.foldl (fun kept id => if id ∈ kept then kept else kept ++ [id]) []

/-- The machines a request asks for, before they are checked. -/
def requestedIds (config : UserConfig) (requested : List String) : List String :=
  let ids :=
    if requested ≠ [] then requested
    else if config.default ≠ [] then config.default
    else localMachineId :: ((config.machines.filter MachineConfig.isEnabled).map MachineConfig.id)
  let kept := retainFirst ids
  if kept = [] then [localMachineId] else kept

/-- A selected machine has to be the local one or a valid one of the configuration. -/
def checkSelected (config : UserConfig) (id : String) : Except String Unit :=
  if id = localMachineId then .ok ()
  else
    match config.machines.find? fun machine => machine.id = id with
    | none => .error s!"unknown machine '{id}'"
    | some machine => validateMachine machine

def selectedMachineIds (config : UserConfig) (requested : List String) :
    Except String (List String) :=
  let ids := requestedIds config requested
  (ids.forM (checkSelected config)).map fun _ => ids

/-- `Federated`. -/
structure Federated (α : Type) where
  items : List α
  failures : List (String × String)
  candidateCount : Nat
  deriving DecidableEq, Repr

/-- What the machines answered, in the order of arrival, when one at least succeeded. -/
def receive {α : Type} (what : String) (arrived : List (String × Except String α)) :
    Except String (List (String × α) × List (String × String)) :=
  let successes := arrived.filterMap fun (machine, result) =>
    result.toOption.map fun answer => (machine, answer)
  let failures := arrived.filterMap fun (machine, result) =>
    match result with
    | .ok _ => none
    | .error message => some (machine, message)
  if successes = [] then
    .error (what ++ "; ".intercalate (failures.map fun (machine, error) => s!"{machine}: {error}"))
  else .ok (successes, failures)

/-! ## Search -/

/-- What a search computes with scores, in the arithmetic of their type. -/
structure ScoreOps (Score : Type) where
  zero : Score
  add : Score → Score → Score
  reciprocalRank : Nat → Score
  applyRecency : Score → Nat → Score

/-- Better scores first, then newer entries. -/
def byScore {Score : Type} [LinearOrder Score] (left right : Score × Nat) : Prop :=
  ((compare right.1 left.1).then (compare right.2 left.2)).isLE = true

instance {Score : Type} [LinearOrder Score] (left right : Score × Nat) :
    Decidable (byScore left right) :=
  inferInstanceAs (Decidable (_ = true))

structure LocatedRecord (Score : Type) where
  machine : String
  score : Score
  record : Record
  deriving DecidableEq, Repr

/-- What the merged list is sorted by. -/
def LocatedRecord.key {Score : Type} (item : LocatedRecord Score) : Score × Nat :=
  (item.score, item.record.ts)

section Search

variable {Score : Type} [LinearOrder Score]

/-- The answer of one machine by its scores; with several machines the ranks are scored. -/
def locate (ops : ScoreOps Score) (useRrf : Bool) (machine : String)
    (records : List (Score × Record)) : List (LocatedRecord Score) :=
  (records.insertionSort fun left right => right.1 ≤ left.1).zipIdx.map
    fun ((score, record), rank) =>
      { machine, score := if useRrf then ops.reciprocalRank rank else score, record }

/-- The entries of the answers, before they are sorted. -/
def locatedRecords (ops : ScoreOps Score)
    (successes : List (String × List (Score × Record))) : List (LocatedRecord Score) :=
  successes.flatMap fun (machine, records) =>
    locate ops (1 < successes.length) machine records

/-- `federated_search` from the arrival of the answers on. -/
def mergeSearches (ops : ScoreOps Score) (limit : Nat)
    (arrived : List (String × Except String (List (Score × Record)))) :
    Except String (Federated (LocatedRecord Score)) :=
  (receive "all machine searches failed: " arrived).map fun (successes, failures) =>
    let items := (locatedRecords ops successes).insertionSort fun left right =>
      byScore left.key right.key
    { items := items.take limit, failures, candidateCount := items.length }

/-- `federated_search`: the machines that were selected answer in some order. -/
def federatedSearch (ops : ScoreOps Score) (config : UserConfig) (requested : List String)
    (limit : Nat) (answer : String → Except String (List (Score × Record)))
    (arrival : List String) : Except String (Federated (LocatedRecord Score)) :=
  (selectedMachineIds config requested).bind fun _ =>
    mergeSearches ops limit (arrival.map fun id => (id, answer id))

end Search

/-! ## Usage -/

/-- `CacheWaste`; `Cost` is the type of amounts of money. -/
structure CacheWaste (Cost : Type) where
  missedTokens : Nat
  missedCostUsd : Cost
  missCount : Nat
  idleMisses : Nat
  modelSwitchMisses : Nat
  deriving DecidableEq, Repr

structure UsageSummary (Cost : Type) where
  source : String
  events : Nat
  uncachedInput : Nat
  cacheRead : Nat
  cacheWrite : Nat
  output : Nat
  reasoning : Nat
  totalTokens : Nat
  knownCostUsd : Cost
  pricedEvents : Nat
  unpricedEvents : Nat
  cacheWaste : CacheWaste Cost
  deriving DecidableEq, Repr

inductive CostMode where
  | source
  | auto
  | reprice
  deriving DecidableEq, Repr

structure UsageReportWire (Cost : Type) where
  authority : String
  events : Nat
  totalTokens : Nat
  unknownModelEvents : Nat
  conservativeEvents : Nat
  costMode : CostMode
  priceCatalog : String
  knownCostUsd : Cost
  pricedEvents : Nat
  unpricedEvents : Nat
  cacheWaste : CacheWaste Cost
  bySource : List (UsageSummary Cost)
  details : List Json
  warnings : List String
  failures : List (String × String)

/-- `serde_json::Map::insert`; the members stand in the order of their names. -/
def insertMember (members : List (String × Json)) (key : String) (value : Json) :
    List (String × Json) :=
  (members.filter fun member => member.1 < key) ++ (key, value) ::
    members.filter fun member => key < member.1

/-- The machine that a detail comes from is noted in it, if it is an object. -/
def noteMachine (machine : String) : Json → Json
  | .object members => .object (insertMember members "machine" (.string machine))
  | value => value

/-- `u64::saturating_add`. -/
def addU64 (left right : Nat) : Nat :=
  if left + right < 2 ^ 64 then left + right else 2 ^ 64 - 1

section Usage

variable {Cost : Type}

/-- `absorb_cache_waste`; `add` adds amounts of money. -/
def absorbCacheWaste (add : Cost → Cost → Cost) (total row : CacheWaste Cost) :
    CacheWaste Cost where
  missedTokens := addU64 total.missedTokens row.missedTokens
  missedCostUsd := add total.missedCostUsd row.missedCostUsd
  missCount := addU64 total.missCount row.missCount
  idleMisses := addU64 total.idleMisses row.idleMisses
  modelSwitchMisses := addU64 total.modelSwitchMisses row.modelSwitchMisses

/-- With several machines a row names its machine. -/
def qualifyRow (multi : Bool) (machine : String) (row : UsageSummary Cost) : UsageSummary Cost :=
  if multi || machine ≠ localMachineId then { row with source := machine ++ "/" ++ row.source }
  else row

/-- One more report is added to those merged so far. -/
def absorbReport (add : Cost → Cost → Cost) (multi : Bool) (merged : UsageReportWire Cost)
    (machine : String) (report : UsageReportWire Cost) : UsageReportWire Cost :=
  { merged with
    events := addU64 merged.events report.events
    totalTokens := addU64 merged.totalTokens report.totalTokens
    unknownModelEvents := addU64 merged.unknownModelEvents report.unknownModelEvents
    conservativeEvents := addU64 merged.conservativeEvents report.conservativeEvents
    knownCostUsd := add merged.knownCostUsd report.knownCostUsd
    pricedEvents := addU64 merged.pricedEvents report.pricedEvents
    unpricedEvents := addU64 merged.unpricedEvents report.unpricedEvents
    cacheWaste := absorbCacheWaste add merged.cacheWaste report.cacheWaste
    bySource := merged.bySource ++ report.bySource.map (qualifyRow multi machine)
    details := merged.details ++ report.details.map (noteMachine machine)
    warnings := merged.warnings ++ report.warnings.map fun warning => s!"{machine}: {warning}" }

/-- The report that has absorbed none. -/
def emptyReport (zero : Cost) (costMode : CostMode) (priceCatalog : String)
    (failures : List (String × String)) : UsageReportWire Cost where
  authority := "multi-machine reconstructed usage (not subscription quota)"
  events := 0
  totalTokens := 0
  unknownModelEvents := 0
  conservativeEvents := 0
  costMode
  priceCatalog
  knownCostUsd := zero
  pricedEvents := 0
  unpricedEvents := 0
  cacheWaste := ⟨0, zero, 0, 0, 0⟩
  bySource := []
  details := []
  warnings := []
  failures

def mergeUsageReports (zero : Cost) (add : Cost → Cost → Cost)
    (reports : List (String × UsageReportWire Cost)) (failures : List (String × String))
    (costMode : CostMode) : UsageReportWire Cost :=
  let multi := 1 < reports.length + failures.length
  let catalog := (reports.head?.map fun report => report.2.priceCatalog).getD ""
  let merged := reports.foldl
    (fun merged (machine, report) => absorbReport add multi merged machine report)
    (emptyReport zero costMode catalog failures)
  { merged with
    warnings := merged.warnings ++ failures.map fun (machine, error) =>
      s!"{machine}: usage unavailable: {error}" }

/-- `federated_usage`: the machines that were selected answer in some order. -/
def federatedUsage (zero : Cost) (add : Cost → Cost → Cost) (config : UserConfig)
    (requested : List String) (costMode : CostMode)
    (answer : String → Except String (UsageReportWire Cost)) (arrival : List String) :
    Except String (UsageReportWire Cost) :=
  (selectedMachineIds config requested).bind fun _ =>
    (receive "all machine usage scans failed: " (arrival.map fun id => (id, answer id))).map
      fun (reports, failures) => mergeUsageReports zero add reports failures costMode

end Usage

end Memex.Machine
