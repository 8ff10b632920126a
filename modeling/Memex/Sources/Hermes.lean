import Mathlib.Algebra.BigOperators.Group.List.Basic
import Mathlib.Data.Int.Log
import Mathlib.Data.Rat.Floor
import Memex.Sources.Json
import Memex.Usage.Events

/-! # Usage of Hermes databases

`sources/hermes.rs`: a session row has totals, and the rows of a second table say which model they
were spent on. Amounts of money are added exactly. -/

namespace Memex.Sources.Hermes

open Usage

/-- A double: a number, or one of the values that are not finite. -/
inductive F64 where
  | finite (value : ℚ)
  | infinite (negative : Bool)
  | nan
  deriving DecidableEq, Repr

/-- A value of a column, `rusqlite::types::Value`. -/
inductive Value where
  | null
  | integer (value : Int64)
  | real (value : F64)
  | text (value : String)
  | blob (bytes : List UInt8)
  deriving DecidableEq, Repr

abbrev Row := String → Option Value

/-- A table, its rows in the order the query returns them. -/
structure Table where
  columns : List String
  rows : List Row

structure Database where
  sessions : Option Table
  sessionModelUsage : Option Table

def sessionColumns : List String :=
  ["id", "model", "started_at", "ended_at", "input_tokens", "output_tokens", "cache_read_tokens",
    "cache_write_tokens", "reasoning_tokens", "billing_provider", "billing_mode",
    "estimated_cost_usd", "actual_cost_usd", "cost_status", "cost_source", "cwd",
    "git_repo_root", "profile_name"]

def modelColumns : List String :=
  ["session_id", "model", "billing_provider", "billing_base_url", "billing_mode", "task",
    "api_call_count", "input_tokens", "output_tokens", "cache_read_tokens",
    "cache_write_tokens", "reasoning_tokens", "estimated_cost_usd", "actual_cost_usd",
    "cost_status", "cost_source", "first_seen", "last_seen"]

/-- `rows`: the wanted columns the table has. -/
def Table.select (table : Table) (wanted : List String) : List Row :=
  let selected := wanted.filter (· ∈ table.columns)
  if selected = [] then []
  else table.rows.map fun row key => if key ∈ selected then row key else none

/-! ## Values of a row -/

/-- Rounding to an integer, half to even. -/
def roundHalfEven (value : ℚ) : ℤ :=
  if value - ⌊value⌋ < 1 / 2 then ⌊value⌋
  else if 1 / 2 < value - ⌊value⌋ then ⌊value⌋ + 1
  else if ⌊value⌋ % 2 = 0 then ⌊value⌋ else ⌊value⌋ + 1

/-- The double nearest to a number that is not negative; none here is too large. -/
def nearestF64 (value : ℚ) : ℚ :=
  let unit : ℚ := 2 ^ max (Int.log 2 value - 52) (-1074)
  roundHalfEven (value / unit) * unit

def u64Max : Nat := 2 ^ 64 - 1

/-- `as u64` of a double that is not negative. -/
def F64.toU64 : F64 → Nat
  | finite value => min ⌊value⌋.toNat u64Max
  | infinite negative => if negative then 0 else u64Max
  | nan => 0

def number (row : Row) (key : String) : Nat :=
  match row key with
  | some (.integer value) => value.toInt.toNat
  | some (.real value) => value.toU64
  | _ => 0

def text (row : Row) (key : String) : Option String :=
  match row key with
  | some (.text value) => some value
  | some (.integer value) => some (toString value.toInt)
  | _ => none

/-- An amount of money. -/
def valid : Option Value → Option ℚ
  | some (.real (.finite value)) => if 0 ≤ value then some value else none
  | some (.integer value) =>
      if 0 ≤ value.toInt then some (nearestF64 value.toInt) else none
  | _ => none

def cost (row : Row) : Option ℚ :=
  (valid (row "actual_cost_usd")).or (valid (row "estimated_cost_usd"))

def timestampNumber : F64 → Nat
  | .finite value =>
      if value < 0 then 0
      else
        let millis := if value < 10000000000 then nearestF64 (value * 1000) else value
        min (round millis).toNat u64Max
  | _ => 0

def numericTimestamp (row : Row) (key : String) : Nat :=
  match row key with
  | some (.integer value) => timestampNumber (.finite (nearestF64 value.toInt))
  | some (.real value) => timestampNumber value
  | _ => 0

def textTimestamp (crates : Crates) (row : Row) (key : String) : Nat :=
  (((text row key).bind crates.rfc3339Millis).map Int.toNat).getD 0

def timestamp (crates : Crates) (row : Row) : Nat :=
  let keys := ["last_seen", "first_seen", "ended_at", "started_at"]
  (keys.map (numericTimestamp row) ++ keys.map (textTimestamp crates row)).foldl max 0

/-! ## Buckets -/

def buckets (row : Row) : TokenBuckets :=
  let output := number row "output_tokens"
  { TokenBuckets.disjoint (number row "input_tokens") (number row "cache_read_tokens")
      (number row "cache_write_tokens") output with
    reasoning := min (number row "reasoning_tokens") output }

def add (a b : TokenBuckets) : TokenBuckets where
  rawInput := saturatingAdd a.rawInput b.rawInput
  uncachedInput := saturatingAdd a.uncachedInput b.uncachedInput
  cacheRead := saturatingAdd a.cacheRead b.cacheRead
  cacheWrite := saturatingAdd a.cacheWrite b.cacheWrite
  cacheWrite1h := 0
  output := saturatingAdd a.output b.output
  reasoning := saturatingAdd a.reasoning b.reasoning

def isZero (value : TokenBuckets) : Bool :=
  value.rawInput = 0 && value.uncachedInput = 0 && value.output = 0 && value.cacheWrite = 0 &&
    value.cacheRead = 0 && value.reasoning = 0

def subtract (a b : TokenBuckets) : TokenBuckets where
  rawInput := a.rawInput - b.rawInput
  uncachedInput := a.uncachedInput - b.uncachedInput
  cacheRead := a.cacheRead - b.cacheRead
  cacheWrite := a.cacheWrite - b.cacheWrite
  cacheWrite1h := 0
  output := a.output - b.output
  reasoning := a.reasoning - b.reasoning

/-- No bucket takes more than the total leaves. -/
def capToRemaining (value aggregate used : TokenBuckets) : TokenBuckets where
  rawInput := min value.rawInput (aggregate.rawInput - used.rawInput)
  uncachedInput := min value.uncachedInput (aggregate.uncachedInput - used.uncachedInput)
  cacheRead := min value.cacheRead (aggregate.cacheRead - used.cacheRead)
  cacheWrite := min value.cacheWrite (aggregate.cacheWrite - used.cacheWrite)
  cacheWrite1h := 0
  output := min value.output (aggregate.output - used.output)
  reasoning := min value.reasoning (aggregate.reasoning - used.reasoning)

/-! ## Events -/

/-- A usage event with its cost as an exact number. -/
abbrev HermesEvent := UsageEventData String String ℚ

def event (path record sessionId : String) (row : Row) (tokens : TokenBuckets)
    (sourceCostUsd : Option ℚ) (costAuthoritative conservative : Bool)
    (timestampMs order : Nat) : HermesEvent where
  source := "hermes"
  sourcePath := path
  sourceRecordId := some record
  sessionId := some sessionId
  requestId := none
  messageId := none
  timestampMs
  project := (text row "cwd").or (text row "git_repo_root")
  provider := text row "billing_provider"
  model := text row "model"
  tokens
  dedupeConfidence := "strong"
  sidechain := false
  permissionReview := false
  sourceOrder := order
  sourceCostUsd
  costAuthoritative
  conservativeUndercount := conservative
  cacheChainExcluded := true

/-- An event of a row of the second table; the row is one of the session's. -/
def modelEvent (path record sessionId : String) (row session : Row) (model : Option String)
    (tokens : TokenBuckets) (sourceCostUsd : Option ℚ) (costAuthoritative conservative : Bool)
    (timestampMs order : Nat) : HermesEvent :=
  { event path record sessionId row tokens sourceCostUsd costAuthoritative conservative
      timestampMs order with
    model
    provider := (text row "billing_provider").or (text session "billing_provider")
    project := (text session "cwd").or (text session "git_repo_root") }

/-- The loop over the rows of one session. -/
structure ModelPass where
  summed : TokenBuckets := ⟨0, 0, 0, 0, 0, 0, 0⟩
  invalidModel : Bool := false
  attributedModelCost : ℚ := 0
  events : List HermesEvent := []

/-- The name of the event of a row. -/
def modelRecordId (crates : Crates) (id : String) (session row : Row) : String :=
  let model := (text row "model").or (text session "model")
  "model:" ++ crates.render (.array [.string id, .string (model.getD "unknown"),
    .string ((text row "task").getD "default"),
    .string ((text session "profile_name").getD "")])

def ModelPass.offer (crates : Crates) (path id : String) (session : Row) (pass : ModelPass)
    (row : Row) : ModelPass :=
  let rawCurrent := buckets row
  let current := capToRemaining rawCurrent (buckets session) pass.summed
  let inconsistent := current ≠ rawCurrent
  let invalidModel := pass.invalidModel || inconsistent
  let summed := add pass.summed current
  if isZero current then { pass with summed, invalidModel }
  else
    let model := (text row "model").or (text session "model")
    let sourceCost := if inconsistent then none else cost row
    let time := max (timestamp crates row) (timestamp crates session)
    { summed, invalidModel
      attributedModelCost := pass.attributedModelCost + sourceCost.getD 0
      events := pass.events ++
        [modelEvent path (modelRecordId crates id session row) id row session model current
          sourceCost ((cost session).isSome && sourceCost.isNone) inconsistent time time] }

/-- A session without rows of its own in the second table. -/
def aggregateEvents (crates : Crates) (path id : String) (session : Row) : List HermesEvent :=
  if !isZero (buckets session) || (cost session).isSome then
    [event path id id session (buckets session) (cost session) (cost session).isSome true
      (timestamp crates session) 0]
  else []

/-- The cost of a row is withdrawn, the session has one. -/
def withdrawCost (event : HermesEvent) : HermesEvent :=
  { event with sourceCostUsd := none, costAuthoritative := true }

/-- The events of a session with rows, after the loop: the last one takes what is left. -/
def residualEvents (crates : Crates) (path id : String) (session : Row) (pass : ModelPass) :
    List HermesEvent :=
  let residual := subtract (buckets session) pass.summed
  let exceeds := (cost session).any (· < pass.attributedModelCost)
  let reconcile := (cost session).isSome && (pass.invalidModel || exceeds)
  let events := if reconcile then pass.events.map withdrawCost else pass.events
  let sourceCost :=
    if reconcile then cost session
    else (cost session).bind fun authoritative =>
      if pass.attributedModelCost < authoritative then
        some (authoritative - pass.attributedModelCost)
      else none
  if !isZero residual || sourceCost.isSome then
    events ++ [event path s!"session:{id}:residual" id session residual sourceCost
      (cost session).isSome true (timestamp crates session) (timestamp crates session)]
  else events

def sessionEvents (crates : Crates) (path : String) (modelRows : List Row) (session : Row) :
    List HermesEvent :=
  match text session "id" with
  | none => []
  | some id =>
      match modelRows.filter fun row => text row "session_id" = some id with
      | [] => aggregateEvents crates path id session
      | own => residualEvents crates path id session
          (own.foldl (ModelPass.offer crates path id session) {})

/-- The rows of the two tables; without the second one there are none. -/
def Database.modelRows (database : Database) : List Row :=
  (database.sessionModelUsage.map (·.select modelColumns)).getD []

def parseUsageFile (crates : Crates) (path : String) (database : Database) :
    Except String (List HermesEvent) :=
  match database.sessions with
  | none => .error "Hermes database has no sessions table"
  | some sessions =>
      .ok ((sessions.select sessionColumns).flatMap
        (sessionEvents crates path database.modelRows))

end Memex.Sources.Hermes
