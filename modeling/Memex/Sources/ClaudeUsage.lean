import Memex.Sources.Claude
import Memex.Usage.Events

/-! # Usage of Claude transcripts

`sources/claude.rs`: an assistant line with token counts is a usage event. A response that was
logged several times counts once. -/

namespace Memex.Sources.Claude

open LineStream Usage

/-- The first of the names that is a number. -/
def usageNumber (value : Json) (names : List String) : Nat :=
  (names.findSome? fun name => (value.get name).bind Json.asU64).getD 0

/-- The first of the names that is a text, if it is not empty. -/
def usageString (value : Json) (names : List String) : Option String :=
  (names.findSome? value.getStr).filter (· ≠ "")

def usageTimestampMillis (crates : Crates) (timestamp : Json) : Nat :=
  let seconds := timestamp.asU64.map fun value =>
    if value < 10000000000 then saturatingMul value 1000 else value
  let number := seconds.or ((timestamp.asI64.filter (0 ≤ ·)).map Int.toNat)
  (number.or (timestamp.asStr.bind (parseIsoMillis crates))).getD 0

/-- The bytes a line is searched for before it is read. -/
def usageNeedle : Bytes :=
  asciiBytes "\"usage\""

def usageTokens (usage : Json) : TokenBuckets :=
  let cacheWrite := usageNumber usage ["cache_creation_input_tokens", "cacheCreationInputTokens"]
  let tokens := TokenBuckets.disjoint (usageNumber usage ["input_tokens", "inputTokens"])
    (usageNumber usage ["cache_read_input_tokens", "cacheReadInputTokens"]) cacheWrite
    (usageNumber usage ["output_tokens", "outputTokens"])
  let oneHour := ((usage.get "cache_creation").bind fun cache =>
    (cache.get "ephemeral_1h_input_tokens").bind Json.asU64).getD 0
  { tokens with cacheWrite1h := min oneHour tokens.cacheWrite }

/-- The event of one line, with its index among all lines. -/
def usageLine (crates : Crates) (reader : LineReader Json) (path : String)
    (line : Bytes × Nat) : Option UsageEvent :=
  if line.1.tails.any usageNeedle.isPrefixOf then
    (reader.read line.1).bind fun value =>
      if value.getStr "type" = some "assistant" then
        (value.get "message").bind fun message =>
          (message.get "usage").bind fun usage =>
            let tokens := usageTokens usage
            if 0 < tokens.additiveTotal then
              let requestId := usageString value ["requestId", "request_id"]
              let messageId := (message.getStr "id").filter (· ≠ "")
              some
                { source := "claude"
                  sourcePath := path
                  sourceRecordId := some s!"line:{line.2}"
                  sessionId := (usageString value ["sessionId", "session_id"]).or
                    (some (sessionIdFromPath path))
                  requestId, messageId
                  timestampMs := ((value.get "timestamp").map (usageTimestampMillis crates)).getD 0
                  project := value.getStr "cwd"
                  provider := some "anthropic"
                  model := (message.getStr "model").filter (· ≠ "")
                  tokens
                  sourceCostUsd := (value.get "costUSD").bind Json.asNumber
                  costAuthoritative := false
                  dedupeConfidence :=
                    if messageId.isSome && requestId.isSome then "exact" else "heuristic"
                  conservativeUndercount := false
                  cacheChainExcluded := false
                  sidechain := ((value.get "isSidechain").bind Json.asBool).getD false
                  permissionReview := false
                  sourceOrder := line.2 }
            else none
      else none
  else none

def parseUsageFile (crates : Crates) (reader : LineReader Json) (path : String) (bytes : Bytes) :
    List UsageEvent :=
  (bytes.splitOn newline).zipIdx.filterMap (usageLine crates reader path)

/-! ## Events that were logged twice -/

/-- Whether a text holds another one. -/
def containsText (text part : String) : Bool :=
  text.toList.tails.any part.toList.isPrefixOf

/-- Whether the left of two events of one response is the one to keep. -/
def chooseUsage (left right : UsageEvent) : Bool :=
  let leftParent := !containsText left.sourcePath "/subagents/"
  let rightParent := !containsText right.sourcePath "/subagents/"
  if left.sidechain ≠ right.sidechain then !left.sidechain
  else if leftParent ≠ rightParent then leftParent
  else if left.tokens.additiveTotal ≠ right.tokens.additiveTotal then
    right.tokens.additiveTotal < left.tokens.additiveTotal
  else right.sourceOrder ≤ left.sourceOrder

/-- The responses seen so far with the place of the event that is kept, and the places of those
that are not. -/
structure ExactPass where
  best : List ((String × String) × Nat × UsageEvent) := []
  dropped : List Nat := []

/-- One event of the first loop. -/
def ExactPass.offer (pass : ExactPass) (entry : UsageEvent × Nat) : ExactPass :=
  let (event, index) := entry
  if event.source ≠ "claude" then pass
  else
    match event.messageId, event.requestId with
    | some message, some request =>
        match pass.best.lookup (message, request) with
        | some (previous, kept) =>
            if chooseUsage kept event then { pass with dropped := index :: pass.dropped }
            else
              { best := ((message, request), index, event) :: pass.best
                dropped := previous :: pass.dropped }
        | none => { pass with best := ((message, request), index, event) :: pass.best }
    | _, _ => pass

/-- The kept events of one message. -/
def messageGroup (kept : List (UsageEvent × Nat)) (message : String) : List UsageEvent :=
  (kept.filter fun entry =>
    entry.1.source = "claude" && entry.1.messageId = some message).map Prod.fst

/-- Of a message of the main conversation the sidechain copies go. -/
def isSidechainCopy (kept : List (UsageEvent × Nat)) (event : UsageEvent) : Bool :=
  event.source = "claude" && event.messageId.any fun message =>
    let group := messageGroup kept message
    2 ≤ group.length && group.any (fun other => !other.sidechain) && event.sidechain

def reconcileUsage (events : List UsageEvent) : List UsageEvent :=
  let pass := events.zipIdx.foldl ExactPass.offer {}
  let kept := events.zipIdx.filter fun entry => entry.2 ∉ pass.dropped
  (kept.filter fun entry => !isSidechainCopy kept entry.1).map Prod.fst

/-- Reconciling leaves some of the events, in their order. -/
theorem reconcileUsage_sublist (events : List UsageEvent) :
    (reconcileUsage events).Sublist events := by
  have hfirst : (events.zipIdx.map Prod.fst) = events := List.zipIdx_map_fst 0 events
  calc (reconcileUsage events).Sublist (events.zipIdx.map Prod.fst) :=
        (List.filter_sublist.trans List.filter_sublist).map Prod.fst
    _ = events := hfirst

/-- An event of a transcript names it, and a session at all. -/
theorem mem_parseUsageFile {crates : Crates} {reader : LineReader Json} {path : String}
    {bytes : Bytes} {event : UsageEvent} (h : event ∈ parseUsageFile crates reader path bytes) :
    event.source = "claude" ∧ event.sourcePath = path ∧ event.permissionReview = false ∧
      event.sessionId.isSome = true := by
  obtain ⟨line, -, hline⟩ := List.mem_filterMap.mp h
  simp only [usageLine] at hline
  split at hline
  · obtain ⟨value, -, hvalue⟩ := Option.bind_eq_some_iff.mp hline
    split at hvalue
    · obtain ⟨message, -, hmessage⟩ := Option.bind_eq_some_iff.mp hvalue
      obtain ⟨usage, -, husage⟩ := Option.bind_eq_some_iff.mp hmessage
      split at husage
      · obtain rfl := Option.some.inj husage
        refine ⟨rfl, rfl, rfl, ?_⟩
        rw [Option.isSome_or, Option.isSome_some, Bool.or_true]
      · cases husage
    · cases hvalue
  · cases hline

end Memex.Sources.Claude
