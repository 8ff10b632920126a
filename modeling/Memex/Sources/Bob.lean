import Mathlib.Data.List.Sort
import Memex.Lib.HeaderMachine
import Memex.Lib.Text
import Memex.Sources.Emission
import Memex.Usage.Events

/-! # Bob tasks

`sources/bob.rs`: the tasks of one database and their messages. A task is replayed as a whole; the
result of a call that spawned an agent has the agent's whole transcript in it. -/

namespace Memex.Sources.Bob

open Overlay State Usage LineStream

structure BobTask where
  id : String
  parentId : Option String
  taskType : Option String
  projectId : Option String
  deriving DecidableEq, Repr

/-- What a row of `messages` keeps when Bob writes it anew. -/
structure Stored where
  id : String
  taskId : String
  role : String
  data : String
  deriving DecidableEq, Repr

structure MessageRow extends Stored where
  rowid : Int
  createdAt : Int
  deriving DecidableEq, Repr

/-- The database, its rows in the order of their row ids. -/
structure Database where
  tasks : List BobTask
  messages : List MessageRow
  taskIds : (tasks.map BobTask.id).Nodup
  ordered : messages.Pairwise fun row later => row.rowid < later.rowid

def Database.lookupTask (database : Database) (taskId : String) : Option BobTask :=
  database.tasks.find? fun task => task.id = taskId

def Database.rowsOf (database : Database) (taskId : String) : List MessageRow :=
  database.messages.filter fun row => row.taskId = taskId

/-! ## Tasks -/

def BobTask.conversationKind (task : BobTask) : String :=
  match task.parentId with
  | some _ => if task.taskType = some "subagent" then "subagent" else "fork"
  | none => "main"

def hexDigit (byte : UInt8) : Option UInt8 :=
  if 48 ≤ byte && byte ≤ 57 then some (byte - 48)
  else if 65 ≤ byte && byte ≤ 70 then some (byte - 55)
  else if 97 ≤ byte && byte ≤ 102 then some (byte - 87)
  else none

/-- `u8::from_str_radix` of two characters, which takes a sign for the first one. -/
def hexByte (high low : UInt8) : Option UInt8 :=
  if high = 43 then hexDigit low
  else (hexDigit high).bind fun upper => (hexDigit low).map fun lower => upper * 16 + lower

def percentDecode : Bytes → Bytes
  | 37 :: high :: low :: rest =>
      match hexByte high low with
      | some byte => byte :: percentDecode rest
      | none => 37 :: percentDecode (high :: low :: rest)
  | byte :: rest => byte :: percentDecode rest
  | [] => []

/-- A text behind a beginning. -/
def stripStart (start text : String) : Option String :=
  if start.toList.isPrefixOf text.toList then
    some (String.ofList (text.toList.drop start.toList.length))
  else none

section Parser

/-! The reader of JSON, the writer of it and `String::from_utf8_lossy` are parameters. -/

variable (read : String → Option Json) (crates : Crates) (lossy : Bytes → String)

def workspaceFromProjectId (projectId : String) : Option String :=
  (stripStart "file:" projectId).bind fun rest =>
    let path := (stripStart "//" rest).getD rest
    let path := (stripStart "localhost" path).getD path
    let decoded := lossy (percentDecode path.toUTF8.toList)
    if decoded.toList.head? = some '/' then some decoded else none

def BobTask.workspace (task : BobTask) : Option String :=
  task.projectId.bind (workspaceFromProjectId lossy)

/-! ## Messages -/

/-- The time a message carries itself. -/
def ownTimestamp (data : Json) : Option Nat :=
  ((data.pointer ["_meta", "timestamp"]).bind Json.asU64).filter fun value => 0 < value

def messageTimestamp (data : Json) (createdAt : Int) : Nat :=
  (ownTimestamp data).getD createdAt.toNat

def contentBlock : Json → Option String
  | .string text => some text
  | .object members => (Json.object members).getStr "text"
  | _ => none

def contentText (data : Json) : String :=
  match data.get "content" with
  | some (.string text) => text
  | some (.array blocks) => "\n".intercalate (blocks.filterMap contentBlock)
  | _ => ""

def jsonText : Json → String
  | .string text => text
  | .null => ""
  | other => crates.render other

/-- `MAX_SUBAGENT_DEPTH` -/
def maxSubagentDepth : Nat := 4

structure SessionScope where
  sessionId : String
  links : RecordLinks

/-- What a parser of one task knows of it. -/
structure TaskParser where
  project : String
  sourcePath : String

/-- A message at the time it is ordered by. -/
structure Message where
  ts : Nat
  id : String
  role : String
  data : Json

/-- A message and the place that decides between equal times. -/
structure PlacedMessage extends Message where
  place : Int

def PlacedMessage.Before (message other : PlacedMessage) : Prop :=
  message.ts < other.ts ∨ message.ts = other.ts ∧ message.place ≤ other.place

instance : DecidableRel PlacedMessage.Before :=
  fun message other => inferInstanceAs <| Decidable <|
    message.ts < other.ts ∨ message.ts = other.ts ∧ message.place ≤ other.place

/-- `sort_by_key` by time and place. -/
def inOrder (messages : List PlacedMessage) : List Message :=
  (messages.insertionSort PlacedMessage.Before).map PlacedMessage.toMessage

/-- The child and its messages in the result of a call that spawned an agent. -/
def transcript (data : Json) : Option (String × List Json) :=
  ((data.get "messages").bind Json.asArray).bind fun messages =>
    (((data.pointer ["_meta", "subagentId"]).bind Json.asStr).filter (· ≠ "")).map fun childId =>
      (childId, messages)

/-- The messages of an embedded transcript. -/
def transcriptMessages (sessionId : String) (messages : List Json) (fallbackTs : Nat) :
    List PlacedMessage :=
  messages.zipIdx.filterMap fun (message, index) =>
    if message.isObject then
      some {
        ts := (ownTimestamp message).getD fallbackTs
        id := (message.getNonEmpty "id").getD (sessionId ++ ":" ++ toString index)
        role := (message.getStr "role").getD ""
        data := message
        place := index }
    else none

namespace TaskParser

variable (parser : TaskParser) (scope : SessionScope) (message : Message)

/-- A record under the next turn id, which stays at the last one. -/
def record (carried : Carried) (draft : Record) : Drafted :=
  ({ carried with turnId := min (carried.turnId + 1) (2 ^ 32 - 1) },
    [{ draft with turnId := carried.turnId }])

def draft (role text : String) (links : RecordLinks) : Record where
  source := .bob
  ts := message.ts
  project := parser.project
  sessionId := scope.sessionId
  role := role
  text := text
  links := links
  sourcePath := parser.sourcePath

def userText (data : Json) : String :=
  (((data.pointer ["_meta", "mask"]).bind Json.asStr).filter fun mask =>
    !isBlankText mask).getD (contentText data)

def emitUser (carried : Carried) : Drafted :=
  let text := userText message.data
  if isBlankText text then carried.silent
  else record carried
    (parser.draft scope message "user" text { scope.links with eventId := some message.id })

def isHidden (data : Json) : Bool :=
  ((data.pointer ["_meta", "hide"]).bind Json.asBool).getD false

def toolCalls (data : Json) : List Json :=
  ((data.get "toolCalls").bind Json.asArray).getD []

/-- One call of an assistant's message. -/
def emitCall (carried : Carried) (entry : Json × Nat) : Drafted :=
  let (call, index) := entry
  let callId := (call.getNonEmpty "id").getD (message.id ++ ":" ++ toString index)
  let toolName := call.getNonEmpty "name"
  let toolInput := ((call.get "arguments").map (jsonText crates)).filter (· ≠ "")
  let links := { scope.links with eventId := some callId, parentEventId := some message.id }
  let emitted := record carried
    { parser.draft scope message "tool_use" (toolInput.getD "") links with toolName, toolInput }
  let pending := pendingToolCall crates toolName (some callId) message.ts toolInput links
    scope.sessionId
  (emitted.1.insertCall callId pending, emitted.2)

def emitAssistant (carried : Carried) : Drafted :=
  let text := contentText message.data
  let links := { scope.links with eventId := some message.id }
  let links :=
    if (message.data.pointer ["_meta", "compactedAt"]).isSome then
      { links with threadSource := some "compaction" }
    else links
  let said :=
    if isHidden message.data || isBlankText text then carried.silent
    else record carried (parser.draft scope message "assistant" text links)
  let called := HeaderMachine.run (parser.emitCall crates scope message) said.1
    (toolCalls message.data).zipIdx
  (called.1, said.2 ++ called.2)

def signature (data : Json) : Option Json :=
  data.pointer ["toolUsage", "signature"]

def answeredCall (data : Json) : Option String :=
  (signature data).bind fun signature => signature.getNonEmpty "id"

def isError (data : Json) : Option Bool :=
  ((signature data).bind fun signature => signature.get "isError").bind Json.asBool

def resultText (data : Json) : String :=
  let text := contentText data
  if isBlankText text && isError data = some true then "[tool error]" else text

/-- The outstanding calls without the one that is answered. -/
def answer (carried : Carried) (callId : Option String) : Carried :=
  match callId with
  | some callId => carried.removeCall callId
  | none => carried

def emitTool (carried : Carried) : Drafted :=
  let callId := answeredCall message.data
  let toolName := ((signature message.data).bind fun signature =>
    signature.getNonEmpty "name").or (callId.bind carried.pendingToolName)
  let text := resultText message.data
  let links := { scope.links with
    eventId := some message.id
    parentEventId := callId
    parentToolUseId := callId
    toolResultIsError := isError message.data }
  if isBlankText text then (answer carried callId).silent
  else record (answer carried callId)
    { parser.draft scope message "tool_result" text links with toolName, toolOutput := some text }

def childScope (childId : String) (callId : Option String) : SessionScope where
  sessionId := childId
  links :=
    { parentSessionId := some scope.sessionId
      threadSource := some "subagent"
      conversationKind := some "subagent"
      parentToolUseId := callId }

/-- A message and the transcripts in it, at most so many deep. -/
def emitMessage : Nat → SessionScope → Carried → Message → Drafted
  | remaining, scope, carried, message =>
    match message.role with
    | "user" => parser.emitUser scope message carried
    | "assistant" => parser.emitAssistant crates scope message carried
    | "tool" =>
        let answered := parser.emitTool scope message carried
        match remaining, transcript message.data with
        | remaining + 1, some (childId, messages) =>
            let child := childScope scope childId (answeredCall message.data)
            let later := HeaderMachine.run (emitMessage remaining child) answered.1
              (inOrder (transcriptMessages childId messages message.ts))
            (later.1, answered.2 ++ later.2)
        | _, _ => answered
    | _ => carried.silent

end TaskParser

/-! ## Records of a task -/

/-- What a parser hands on. Messages that are no objects are counted too. -/
structure IndexParseOutput where
  records : List Record
  offset : Nat
  turnId : Nat
  pendingToolCalls : Table String PendingToolCall
  sessionId : String
  sessionCwd : Option String

/-- A row as it is ordered and emitted, if it has an object. -/
def placedMessage (row : MessageRow) : Option PlacedMessage :=
  (read row.data).bind fun data =>
    if data.isObject then
      some {
        ts := messageTimestamp data row.createdAt
        id := row.id
        role := row.role
        data := data
        place := row.rowid }
    else none

def taskScope (task : BobTask) : SessionScope where
  sessionId := task.id
  links :=
    { parentSessionId := task.parentId
      threadSource := task.parentId.map fun _ => task.conversationKind
      conversationKind := some task.conversationKind }

/-- The records of the task behind a virtual path, from the state of an earlier run. -/
def parseIndexRecords (database : Database) (sourcePath taskId : String) (state : Carried) :
    IndexParseOutput :=
  match database.lookupTask taskId with
  | none =>
      { records := []
        offset := 0
        turnId := state.turnId
        pendingToolCalls := state.pendingToolCalls
        sessionId := taskId
        sessionCwd := none }
  | some task =>
      let workspace := task.workspace lossy
      let parser : TaskParser :=
        { project := (workspace.map projectFromPath).getD "bob"
          sourcePath := sourcePath }
      let rows := database.rowsOf taskId
      let emitted := HeaderMachine.run
        (parser.emitMessage crates maxSubagentDepth (taskScope task)) state
        (inOrder (rows.filterMap (placedMessage read)))
      { records := emitted.2
        offset := rows.length
        turnId := emitted.1.turnId
        pendingToolCalls := ∅
        sessionId := task.id
        sessionCwd := workspace }

/-! ## Usage -/

/-- A message with `_meta.spend`, and its event unless it spent nothing. -/
structure Spend where
  messageId : String
  event : Option UsageEvent

/-- What all events of a row share. -/
structure UsageCollector where
  sourcePath : String
  project : Option String

def spendTokens (spend : Json) : TokenBuckets :=
  let usage (key : String) := ((spend.get key).bind Json.asU64).getD 0
  let input := usage "input"
  let cacheRead := min (usage "cacheRead") input
  let cacheWrite := min (usage "cacheWrite") (input - cacheRead)
  let output := usage "output"
  { rawInput := input
    uncachedInput := input - cacheRead - cacheWrite
    cacheRead := cacheRead
    cacheWrite := cacheWrite
    output := output
    reasoning := min (usage "reasoningTokens") output }

namespace UsageCollector

variable (collector : UsageCollector)

def spendEvent (messageId sessionId : String) (data : Json) (ts : Nat) (sidechain : Bool) :
    Option Spend :=
  ((data.pointer ["_meta", "spend"]).filter Json.isObject).map fun spend =>
    let tokens := spendTokens spend
    let cost := (spend.get "cost").bind Json.asNumber
    let event : UsageEvent :=
      { source := "bob"
        sourcePath := collector.sourcePath
        sourceRecordId := some messageId
        sessionId := some sessionId
        requestId := some messageId
        messageId := some messageId
        timestampMs := ts
        project := collector.project
        provider := some "ibm"
        model := none
        tokens := tokens
        dedupeConfidence := "exact"
        sidechain := sidechain
        permissionReview := false
        sourceOrder := 0
        sourceCostUsd := cost
        costAuthoritative := cost.isSome
        conservativeUndercount := false
        cacheChainExcluded := true }
    { messageId, event := if tokens.rawInput = 0 ∧ tokens.output = 0 then none else some event }

/-- An embedded transcript and those in it. -/
def embedded : Nat → Json → Nat → List Spend
  | 0, _, _ => []
  | remaining + 1, data, fallbackTs =>
    match transcript data with
    | none => []
    | some (childId, messages) =>
        messages.zipIdx.flatMap fun (message, index) =>
          let ts := (ownTimestamp message).getD fallbackTs
          match message.getStr "role" with
          | some "assistant" =>
              let messageId := (message.getNonEmpty "id").getD (childId ++ ":" ++ toString index)
              (collector.spendEvent messageId childId message ts true).toList
          | some "tool" => embedded remaining message ts
          | _ => []

end UsageCollector

/-- `LIKE` with a wildcard on both sides. -/
def like (text part : String) : Bool :=
  (Text.findIgnoreCase text.toList part).isSome

/-- The rows the query of usage selects. -/
def isSelected (row : Stored) : Bool :=
  (row.role = "assistant" && like row.data "\"spend\"") ||
    (row.role = "tool" && like row.data "\"subagentId\"")

/-- What a row adds to the usage, before what was seen is left out. -/
def rowSpends (database : Database) (sourcePath : String) (row : MessageRow) : List Spend :=
  match database.lookupTask row.taskId, read row.data with
  | some task, some data =>
      let collector : UsageCollector :=
        { sourcePath := sourcePath
          project := (task.workspace lossy).map projectFromPath }
      let ts := messageTimestamp data row.createdAt
      if isSelected row.toStored then
        if row.role = "assistant" then
          (collector.spendEvent row.id row.taskId data ts
            (task.taskType = some "subagent")).toList
        else collector.embedded maxSubagentDepth data ts
      else []
  | _, _ => []

/-- The ids seen and the events collected. -/
structure Collected where
  seen : List String := []
  events : List UsageEvent := []

def Collected.offer (collected : Collected) (spend : Spend) : Collected :=
  if spend.messageId ∈ collected.seen then collected
  else
    { seen := spend.messageId :: collected.seen
      events := collected.events ++ (spend.event.map fun event =>
        { event with sourceOrder := collected.events.length }).toList }

def parseUsageFile (database : Database) (sourcePath : String) : List UsageEvent :=
  ((database.messages.flatMap (rowSpends read lossy database sourcePath)).foldl Collected.offer
    {}).events

end Parser

end Memex.Sources.Bob
