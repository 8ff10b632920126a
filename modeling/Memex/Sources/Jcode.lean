import Memex.Analytics.Labels
import Memex.Sources.Emission

/-! # Jcode sessions

`sources/jcode.rs`: a session is one JSON document that is rewritten in place, so a parse always
reads the whole file. User messages answer tool calls, assistant messages make them. -/

namespace Memex.Sources.Jcode

open Overlay State LineStream Analytics

structure TranscriptFile where
  path : String
  includeReasoning : Bool
  deriving DecidableEq, Repr

def sessionIdFromPath (path : String) : String :=
  ((fileName (pathComponents path)).map fileStem).getD "unknown"

/-- The text of one item of a content array. -/
def contentPart : Json → Option String
  | .string text => some text
  | .object members =>
      (Json.object members).getStr "text" <|> (Json.object members).getStr "content"
  | _ => none

def contentText (content : Option Json) : String :=
  match content with
  | some (.string text) => text
  | some (.array items) => "\n".intercalate (items.filterMap contentPart)
  | _ => ""

def timestampMillis (crates : Crates) (value : Json) : Nat :=
  let number := value.asU64.map fun number =>
    if number < 10000000000 then saturatingMul number 1000 else number
  let signed := (value.asI64.filter (0 ≤ ·)).map Int.toNat
  ((number <|> signed) <|> value.asStr.bind (parseIsoMillis crates)).getD 0

def messages (value : Json) : List Json :=
  ((value.get "messages").bind Json.asArray).getD []

def workingDir (value : Json) : String :=
  (value.getStr "working_dir").getD ""

/-- The text of a user message that is searched for directives. -/
def directiveText (message : Json) : Option String :=
  if message.isObject && message.getStr "role" = some "user" then
    some (match message.get "content" with
      | some (.string text) => text
      | some (.array blocks) => String.join (blocks.filterMap fun block =>
          (block.getStr "text").map (· ++ "\n"))
      | _ => "")
  else none

/-- A session with a parent, in a sandbox or under a directive is one of a subagent. -/
def conversationKind (lookups : SessionLookups) (value : Json) : String :=
  if (value.getNonEmpty "parent_id").isSome ||
      jcodeTmpCwdIsWorkerSandbox lookups (workingDir value) then "subagent"
  else
    match ((messages value).filterMap directiveText).find? fun text => sanitizeLabel text ≠ "" with
    | some text =>
        if jcodeTextIsSubagentDirective (lookups.lowercase text) then "subagent" else "main"
    | none => "main"

def baseLinks (lookups : SessionLookups) (value : Json) : RecordLinks where
  parentSessionId := value.getNonEmpty "parent_id"
  conversationKind := some (conversationKind lookups value)
  threadSource :=
    if conversationKind lookups value ≠ "main" then some (conversationKind lookups value)
    else none

/-- The links of a message: those of the session and its own id. -/
def messageLinks (lookups : SessionLookups) (value message : Json) : RecordLinks :=
  { baseLinks lookups value with eventId := message.getStr "id" }

def messageStamp (crates : Crates) (file : TranscriptFile) (value message : Json) : Stamp where
  source := .jcode
  ts := (((message.get "timestamp").map (timestampMillis crates)).filter (0 < ·)).getD
    (((value.get "created_at").map (timestampMillis crates)).getD 0)
  project := if workingDir value ≠ "" then projectFromPath (workingDir value) else "jcode"
  sessionId := (value.getStr "id").getD (sessionIdFromPath file.path)
  sourcePath := file.path

def blockType (block : Json) : String :=
  (block.getStr "type").getD ""

def isToolResult (block : Json) : Bool :=
  block.isObject && blockType block = "tool_result"

/-- The output of a tool result, marked when it is an error. -/
def toolResultText (block : Json) : String :=
  let content := contentText (block.get "content")
  let output := if content = "" then (block.getStr "text").getD content else content
  let marked := "error".toList.isPrefixOf (output.toList.map Char.toLower)
  if ((block.get "is_error").bind Json.asBool).getD false && !marked then "Error: " ++ output
  else output

def toolCallId (block : Json) : String :=
  (block.getStr "tool_use_id").getD ""

/-- The tool that a result answers, if its call is outstanding. -/
def answeredTool (carried : Carried) (block : Json) : Option String :=
  if toolCallId block ≠ "" then carried.pendingToolName (toolCallId block) else none

/-- One block of a user message. -/
def draftUserBlock (links : RecordLinks) (carried : Carried) (block : Json) : Drafted :=
  if isToolResult block then
    let answered :=
      if toolCallId block ≠ "" then carried.removeCall (toolCallId block) else carried
    let text := toolResultText block
    answered.emitText text
      { role := "tool_result", text, toolName := answeredTool carried block
        toolOutput := some text
        links := if toolCallId block ≠ "" then
            { links with parentToolUseId := some (toolCallId block) }
          else links }
  else carried.silent

/-- What a block of a user message adds to its text. -/
def userPart : Json → Option String
  | .string text => some text
  | block => if block.isObject && !isToolResult block then block.getStr "text" else none

/-- The text of a message whose blocks add the given parts. -/
def messageText (part : Json → Option String) (content : Option Json) : String :=
  trim (match content with
    | some (.string text) => text
    | some (.array blocks) => "\n".intercalate (blocks.filterMap part)
    | _ => "")

/-- The tool results of a user message, then its text, unless nothing but preamble is left. -/
def draftUser (links : RecordLinks) (carried : Carried) (content : Option Json) : Drafted :=
  let drafted := HeaderMachine.run (draftUserBlock links) carried
    ((content.bind Json.asArray).getD [])
  let text := messageText userPart content
  let last := if sanitizeLabel text = "" then drafted.1.silent
    else drafted.1.emit { role := "user", text, links }
  (last.1, drafted.2 ++ last.2)

/-- The thinking of a block that is not blank. -/
def thinkingText (block : Json) : Option String :=
  (block.getStr "thinking").filter fun text => !isBlankText text

/-- One block of an assistant message. -/
def draftAssistantBlock (crates : Crates) (file : TranscriptFile) (stamp : Stamp)
    (links : RecordLinks) (carried : Carried) (block : Json) : Drafted :=
  if !block.isObject then carried.silent
  else match blockType block with
    | "tool_use" =>
        let toolName := block.getStr "name"
        let toolInput := (block.get "input").map crates.render
        let callId := block.getStr "id"
        let callLinks := match callId with
          | some id => { links with eventId := some id, parentEventId := links.eventId }
          | none => links
        let called := match callId with
          | some id => carried.insertCall id
              (pendingToolCall crates toolName (some id) stamp.ts toolInput callLinks
                stamp.sessionId)
          | none => carried
        called.emit
          { role := "tool_use", text := toolInput.getD "", toolName, toolInput
            links := callLinks }
    | "thinking" =>
        match thinkingText block with
        | some thinking =>
            if file.includeReasoning then
              carried.emit
                { role := "reasoning", text := thinking
                  links := { links with eventId := links.eventId.map (· ++ ":reasoning") } }
            else carried.silent
        | none => carried.silent
    | _ => carried.silent

/-- What a block of an assistant message adds to its text. -/
def assistantPart : Json → Option String
  | .string text => some text
  | block => if block.isObject && blockType block = "text" then block.getStr "text" else none

/-- The blocks of an assistant message, then its text. -/
def draftAssistant (crates : Crates) (file : TranscriptFile) (stamp : Stamp)
    (links : RecordLinks) (carried : Carried) (content : Option Json) : Drafted :=
  let drafted := HeaderMachine.run (draftAssistantBlock crates file stamp links) carried
    ((content.bind Json.asArray).getD [])
  let text := messageText assistantPart content
  let last := if text = "" then drafted.1.silent
    else drafted.1.emit { role := "assistant", text, links }
  (last.1, drafted.2 ++ last.2)

def draftMessage (crates : Crates) (lookups : SessionLookups) (file : TranscriptFile)
    (value : Json) (carried : Carried) (message : Json) : Drafted :=
  if !message.isObject then carried.silent
  else
    let links := messageLinks lookups value message
    match (message.getStr "role").getD "" with
    | "user" => draftUser links carried (message.get "content")
    | "assistant" =>
        draftAssistant crates file (messageStamp crates file value message) links carried
          (message.get "content")
    | _ => carried.silent

/-- The records of one message. -/
def messageRecords (crates : Crates) (lookups : SessionLookups) (file : TranscriptFile)
    (value : Json) (carried : Carried) (message : Json) : Carried × List Record :=
  let drafted := draftMessage crates lookups file value carried message
  (drafted.1, drafted.2.map (messageStamp crates file value message).apply)

/-- `parse_index_records`: the whole document from its start. The offset is the length of the
file; a document that is no JSON is left for the next run. -/
def parseIndexRecords (crates : Crates) (lookups : SessionLookups) (read : Bytes → Option Json)
    (file : TranscriptFile) (bytes : Bytes) (carried : Carried) : IndexParseOutput Carried :=
  match read bytes with
  | none =>
      { carried, offset := 0, sessionId := some (sessionIdFromPath file.path), records := [] }
  | some value =>
      let run := HeaderMachine.run (messageRecords crates lookups file value) carried
        (messages value)
      { carried := run.1
        offset := bytes.length
        sessionId := some ((value.getStr "id").getD (sessionIdFromPath file.path))
        records := run.2 }

end Memex.Sources.Jcode
