import Memex.Sources.Emission

/-! # Copilot transcripts

`sources/copilot.rs`: an `events.jsonl` beside a `workspace.yaml`. Session events
set the session and merge into the workspace wherever they stand; a resumed run
starts from the sidecar and the path again. -/

namespace Memex.Sources.Copilot

open Overlay State LineStream

/-- The transcript, and the text of its sidecar when that could be read. -/
structure TranscriptFile where
  path : String
  workspaceYaml : Option String
  deriving DecidableEq, Repr

structure CopilotWorkspace where
  cwd : Option String := none
  gitRoot : Option String := none
  repository : Option String := none
  branch : Option String := none
  deriving DecidableEq, Repr

def sessionIdFromPath (path : String) : String :=
  (fileName (pathComponents path).dropLast).getD "unknown"

/-- `trim_matches` with one character. -/
def trimMatches (c : Char) (text : String) : String :=
  String.ofList ((text.toList.dropWhile (· = c)).rdropWhile (· = c))

/-- One line of the sidecar: a key at the left margin, a colon and a value. -/
def parseYamlLine (workspace : CopilotWorkspace) (line : String) : CopilotWorkspace :=
  let trimmed := trim line
  if trimmed = "" || trimmed.toList.head? = some '#' ||
      line.toList.head?.any isWhitespace then workspace
  else if ':' ∉ trimmed.toList then workspace
  else
    let key := trim (String.ofList (trimmed.toList.takeWhile (· ≠ ':')))
    let rest := String.ofList ((trimmed.toList.dropWhile (· ≠ ':')).drop 1)
    let value := trimMatches '\'' (trimMatches '"' (trim rest))
    if value = "" then workspace
    else match key with
      | "cwd" => { workspace with cwd := some value }
      | "gitRoot" => { workspace with gitRoot := some value }
      | "git_root" => { workspace with gitRoot := some value }
      | "repository" => { workspace with repository := some value }
      | "branch" => { workspace with branch := some value }
      | _ => workspace

def parseWorkspaceYaml (contents : String) : CopilotWorkspace :=
  ((contents.toList.splitOn '\n').map String.ofList).foldl parseYamlLine {}

def readCopilotWorkspace (file : TranscriptFile) : CopilotWorkspace :=
  (file.workspaceYaml.map parseWorkspaceYaml).getD {}

def mergeCopilotWorkspace (workspace : CopilotWorkspace) (value : Json) : CopilotWorkspace where
  cwd := value.getStr "cwd" <|> workspace.cwd
  gitRoot := (value.get "gitRoot" <|> value.get "git_root").bind Json.asStr <|> workspace.gitRoot
  repository := value.getStr "repository" <|> workspace.repository
  branch := value.getStr "branch" <|> workspace.branch

/-- The name of a repository: behind its last slash, or all of it. -/
def repositoryName (repository : String) : Option String :=
  let name := String.ofList (repository.toList.rtakeWhile (· ≠ '/'))
  if '/' ∈ repository.toList && name ≠ "" then some name
  else if repository ≠ "" then some repository
  else none

def copilotProject (workspace : CopilotWorkspace) : String :=
  ((workspace.repository.bind repositoryName <|>
      workspace.gitRoot.map projectFromPath) <|>
    workspace.cwd.map projectFromPath).getD "copilot"

/-- The session and workspace in force. -/
structure Header where
  sessionId : String
  workspace : CopilotWorkspace
  deriving DecidableEq, Repr

def Header.ofFile (file : TranscriptFile) : Header where
  sessionId := sessionIdFromPath file.path
  workspace := readCopilotWorkspace file

def entryType (value : Json) : String :=
  (value.getStr "type").getD ""

/-- The payload of an event. -/
def eventData (value : Json) : Json :=
  (value.get "data" <|> value.get "payload").getD .null

def isSessionStart (value : Json) : Bool :=
  value.isObject && (entryType value = "session.start" || entryType value = "session.resume")

/-- The session id an event sets. -/
def namedSession (value : Json) : Option String :=
  if isSessionStart value then
    let data := eventData value
    (data.get "sessionId" <|> data.get "session_id").bind Json.asStr
  else none

/-- What an event does to the workspace. -/
def advanceWorkspace (workspace : CopilotWorkspace) (value : Json) : CopilotWorkspace :=
  let data := eventData value
  if isSessionStart value then
    mergeCopilotWorkspace workspace ((data.get "context").getD data)
  else if value.isObject && entryType value = "session.context_changed" then
    mergeCopilotWorkspace workspace data
  else workspace

def advanceHeader (header : Header) (value : Json) : Header where
  sessionId := (namedSession value).getD header.sessionId
  workspace := advanceWorkspace header.workspace value

/-- `str::parse::<u64>`. -/
def parseU64 (text : String) : Option Nat :=
  let digits := match text.toList with
    | '+' :: rest => rest
    | chars => chars
  if digits ≠ [] && digits.all Char.isDigit then
    let number := digits.foldl (fun number c => number * 10 + (c.toNat - 48)) 0
    if number < 2 ^ 64 then some number else none
  else none

def jsonTimestampMillis (crates : Crates) (value : Json) : Option Nat :=
  match value.asStr with
  | some text => parseIsoMillis crates text <|> parseU64 text
  | none => value.asU64.map fun number => if number < 10000000000 then number * 1000 else number

def timestamp (crates : Crates) (value : Json) : Nat :=
  ((value.get "timestamp").bind (jsonTimestampMillis crates) <|>
    ((eventData value).get "timestamp").bind (jsonTimestampMillis crates)).getD 0

/-- The text of one item of a content array. -/
def contentPart (item : Json) : Option String :=
  match item with
  | .string text => some text
  | _ => (item.get "text" <|> item.get "content").bind Json.asStr

def textFromJson (value : Json) : Option String :=
  match value with
  | .string text => some (trim text)
  | .array items =>
      let parts := items.filterMap contentPart
      if parts = [] then none else some (trim ("\n".intercalate parts))
  | _ => none

def jsonToText (crates : Crates) (value : Json) : String :=
  (textFromJson value).getD (crates.render value)

/-- The content of a tool result. -/
def resultText (result : Json) : Option String :=
  let direct := ["detailedContent", "content"].findSome? fun key =>
    ((result.get key).bind textFromJson).filter fun text => !isBlankText text
  let parts := (((result.get "contents").bind Json.asArray).getD []).filterMap textFromJson
  direct <|> (if parts = [] then none else some ("\n".intercalate parts))

def copilotToolOutput (crates : Crates) (data : Json) : Option String :=
  (data.get "result").bind resultText <|>
    (data.get "error").map fun error => (error.getStr "message").getD (jsonToText crates error)

def eventKeys : List String :=
  ["id", "eventId", "event_id", "messageId", "message_id", "requestId", "request_id",
    "responseId", "response_id"]

def parentEventKeys : List String :=
  ["parentId", "parent_id", "parentMessageId", "parent_message_id", "parentEventId",
    "parent_event_id"]

def logicalParentKeys : List String :=
  ["fromId", "from_id", "rootId", "root_id"]

def parentSessionKeys : List String :=
  ["parentSessionId", "parent_session_id", "forkedFromSessionId", "forked_from_session_id"]

def threadSourceKeys : List String :=
  ["threadSource", "thread_source", "source"]

/-- The first key under which the payload, or else the event, has a text. -/
def copilotStringField (value : Json) (keys : List String) : Option String :=
  keys.findSome? fun key =>
    (((eventData value).get key <|> value.get key).bind Json.asStr).filter (· ≠ "")

def conversationKind (threadSource : Option String) : String :=
  match threadSource with
  | some "subagent" => "subagent"
  | some "sidechain" => "sidechain"
  | some "branch" => "branch"
  | some "fork" => "fork"
  | _ => "main"

/-- The links of a record. An event without an id is named by session and turn; a
parent session other than this one makes it a fork. -/
def copilotRecordLinks (stamp : Stamp) (carried : Carried) (value : Json) : RecordLinks :=
  let parentSessionId := copilotStringField value parentSessionKeys
  let threadSource := copilotStringField value threadSourceKeys <|>
    (parentSessionId.filter (· ≠ stamp.sessionId)).map fun _ => "fork"
  { eventId := copilotStringField value eventKeys <|>
      some (stamp.sessionId ++ ":" ++ toString carried.turnId)
    parentEventId := copilotStringField value parentEventKeys
    logicalParentEventId := copilotStringField value logicalParentKeys
    parentSessionId
    threadSource
    conversationKind := some (conversationKind threadSource) }

def toolName (data : Json) : Option String :=
  (data.get "toolName" <|> data.get "name").bind Json.asStr

def draftToolCall (crates : Crates) (stamp : Stamp) (carried : Carried) (value : Json) :
    Drafted :=
  let data := eventData value
  let toolInput := ((data.get "arguments").map (jsonToText crates)).filter (· ≠ "")
  let callId := data.getStr "toolCallId"
  let links := match callId with
    | some id => { copilotRecordLinks stamp carried value with eventId := some id }
    | none => copilotRecordLinks stamp carried value
  let called := match callId with
    | some id => carried.insertCall id
        (pendingToolCall crates (toolName data) (some id) stamp.ts toolInput links
          stamp.sessionId)
    | none => carried
  called.emit
    { role := "tool_use", text := toolInput.getD "", toolName := toolName data, toolInput, links }

def draftToolResult (crates : Crates) (stamp : Stamp) (carried : Carried) (value : Json) :
    Drafted :=
  let data := eventData value
  let callId := (data.getStr "toolCallId").getD ""
  let pendingName := if callId ≠ "" then carried.pendingToolName callId else none
  let answered := if callId ≠ "" then carried.removeCall callId else carried
  let output := copilotToolOutput crates data
  let text := output.getD ""
  let links := if callId ≠ "" then
      { copilotRecordLinks stamp carried value with
        parentEventId := some callId, parentToolUseId := some callId }
    else copilotRecordLinks stamp carried value
  answered.emitText text
    { role := "tool_result", text, toolName := toolName data <|> pendingName
      toolOutput := output, links }

def userText (data : Json) : String :=
  (((data.get "content" <|> data.get "message") <|> data.get "prompt").bind textFromJson).getD ""

def assistantText (data : Json) : String :=
  ((data.get "content").bind textFromJson).getD ""

def completionText (data : Json) : String :=
  ((data.get "summary").bind textFromJson).getD ""

def draftRow (crates : Crates) (stamp : Stamp) (carried : Carried) (value : Json) : Drafted :=
  let data := eventData value
  let links := copilotRecordLinks stamp carried value
  if !value.isObject then carried.silent
  else match entryType value with
    | "user.message" =>
        carried.emitText (userText data) { role := "user", text := userText data, links }
    | "assistant.message" =>
        carried.emitText (assistantText data)
          { role := "assistant", text := assistantText data, links }
    | "tool.execution_start" => draftToolCall crates stamp carried value
    | "tool.user_requested" => draftToolCall crates stamp carried value
    | "tool.execution_complete" => draftToolResult crates stamp carried value
    | "session.task_complete" =>
        carried.emitText (completionText data)
          { role := "assistant", text := completionText data, links }
    | _ => carried.silent

def rowStamp (crates : Crates) (file : TranscriptFile) (header : Header) (value : Json) :
    Stamp where
  source := .copilot
  ts := timestamp crates value
  project := copilotProject header.workspace
  sessionId := header.sessionId
  sourcePath := file.path

/-- Whether an event has a record. -/
def rowEmits (crates : Crates) (value : Json) : Bool :=
  let data := eventData value
  value.isObject && match entryType value with
    | "user.message" => !isBlankText (userText data)
    | "assistant.message" => !isBlankText (assistantText data)
    | "tool.execution_start" => true
    | "tool.user_requested" => true
    | "tool.execution_complete" => !isBlankText ((copilotToolOutput crates data).getD "")
    | "session.task_complete" => !isBlankText (completionText data)
    | _ => false

variable {crates : Crates} {file : TranscriptFile} {stamp stamp' : Stamp}
  {carried carried' : Carried}

/-- Under one stamp the links of a row depend on the turn only. -/
theorem copilotRecordLinks_eq (h : Carried.Same carried carried') (value : Json)
    (hstamp : stamp = stamp') :
    copilotRecordLinks stamp carried value = copilotRecordLinks stamp' carried' value := by
  subst hstamp
  simp [copilotRecordLinks, h.1]

theorem draftToolCall_same (h : Carried.Same carried carried') (value : Json) :
    SameDrafts (stamp = stamp') (draftToolCall crates stamp carried value)
      (draftToolCall crates stamp' carried' value) := by
  simp only [draftToolCall]
  split
  · refine Carried.Same.emit (h.insertCall _ ?_) ?_
    · rfl
    · intro hstamp
      rw [copilotRecordLinks_eq h value hstamp]
  · refine h.emit ?_
    intro hstamp
    rw [copilotRecordLinks_eq h value hstamp]

theorem draftToolResult_same (h : Carried.Same carried carried') (value : Json) :
    SameDrafts (stamp = stamp') (draftToolResult crates stamp carried value)
      (draftToolResult crates stamp' carried' value) := by
  simp only [draftToolResult, h.pendingToolName_eq]
  split
  · refine Carried.Same.emitText (h.removeCall _) _ ?_
    intro hstamp
    rw [copilotRecordLinks_eq h value hstamp]
  · refine Carried.Same.emitText h _ ?_
    intro hstamp
    rw [copilotRecordLinks_eq h value hstamp]

theorem draftRow_same (h : Carried.Same carried carried') (value : Json) :
    SameDrafts (stamp = stamp') (draftRow crates stamp carried value)
      (draftRow crates stamp' carried' value) := by
  have hlinks := fun hstamp : stamp = stamp' => copilotRecordLinks_eq h value hstamp
  simp only [draftRow]
  split
  · exact h.silent
  · split
    · exact Carried.Same.emitText h _ fun hstamp => by rw [hlinks hstamp]
    · exact Carried.Same.emitText h _ fun hstamp => by rw [hlinks hstamp]
    · exact draftToolCall_same h value
    · exact draftToolCall_same h value
    · exact draftToolResult_same h value
    · exact Carried.Same.emitText h _ fun hstamp => by rw [hlinks hstamp]
    · exact h.silent

theorem draftRow_eq_nil (carried : Carried) (value : Json) :
    (draftRow crates stamp carried value).2 = [] ↔ rowEmits crates value = false := by
  simp only [draftRow, rowEmits]
  cases value.isObject with
  | false => simp [Carried.silent]
  | true =>
      simp only [Bool.not_true, Bool.false_eq_true, if_false, Bool.true_and]
      split
      · exact Carried.emitText_eq_nil _ _ _
      · exact Carried.emitText_eq_nil _ _ _
      · simp [draftToolCall, Carried.emit]
      · simp [draftToolCall, Carried.emit]
      · exact Carried.emitText_eq_nil _ _ _
      · exact Carried.emitText_eq_nil _ _ _
      · simp [Carried.silent]

/-- The rows of a Copilot transcript. -/
def rowDrafts (crates : Crates) (file : TranscriptFile) : RowDrafts Json Header where
  advance := advanceHeader
  stamp := rowStamp crates file
  drafts := draftRow crates
  emits := rowEmits crates
  drafts_same _ _ _ _ value h := draftRow_same h value
  drafts_eq_nil _ carried value := draftRow_eq_nil carried value

/-- The parser of `events.jsonl`. A resumed run reads nothing of the skipped events. -/
def parser (crates : Crates) (reader : LineReader Json) (file : TranscriptFile) :
    ResumedParser Json Header Carried where
  reader := reader
  machine := (rowDrafts crates file).machine
  sessionId := Header.sessionId
  recover _ _ := Header.ofFile file
  resume _ := Header.ofFile file
  recover_eq _ _ _ _ := rfl

/-- `parse_index_records`. -/
def parseIndexRecords (crates : Crates) (reader : LineReader Json) (file : TranscriptFile) :
    Bytes → IndexParseState Carried → IndexParseOutput Carried :=
  (parser crates reader file).parse

/-! ## Parsing append by append -/

/-- The workspace behind events, from the one of the sidecar. -/
def workspaceAfter (file : TranscriptFile) (rows : List (Nat × Json)) : CopilotWorkspace :=
  rows.foldl (fun workspace row => advanceWorkspace workspace row.2) (readCopilotWorkspace file)

/-- Whenever an event of an append has a record: an earlier event of the append names
the session, or the one in force before the append is the one of the path; and the
sidecar with the events of the append gives the project that all events give. -/
def SessionRebuilt (crates : Crates) (reader : LineReader Json) (file : TranscriptFile)
    (chunks : List Bytes) : Prop :=
  ∀ (before : List Bytes) chunk after, chunks = before ++ chunk :: after →
    ∀ since row rest, reader.freshRows before.flatten chunk = since ++ row :: rest →
      rowEmits crates row.2 = true →
        ((∀ named ∈ since, namedSession named.2 = none) →
          sessionIdFromPath file.path =
            inForce namedSession (sessionIdFromPath file.path) (reader.rows before.flatten)) ∧
        copilotProject (workspaceAfter file since) =
          copilotProject (workspaceAfter file (reader.rows before.flatten ++ since))

/-- An event with a record leaves session and workspace alone. -/
theorem advanceHeader_of_emits {value : Json} (h : rowEmits crates value = true) :
    namedSession value = none ∧ ∀ workspace, advanceWorkspace workspace value = workspace := by
  simp only [rowEmits, Bool.and_eq_true] at h
  have htype : entryType value ≠ "session.start" ∧ entryType value ≠ "session.resume" ∧
      entryType value ≠ "session.context_changed" := by
    refine ⟨?_, ?_, ?_⟩
    · intro heq
      simp [heq] at h
    · intro heq
      simp [heq] at h
    · intro heq
      simp [heq] at h
  have hstart : isSessionStart value = false := by
    simp [isSessionStart, htype.1, htype.2.1]
  constructor
  · simp [namedSession, hstart]
  · intro workspace
    simp [advanceWorkspace, hstart, htype.2.2]

theorem advanceAll_workspace (header : Header) (rows : List (Nat × Json)) :
    ((rowDrafts crates file).machine.advanceAll header rows).workspace =
      rows.foldl (fun workspace row => advanceWorkspace workspace row.2) header.workspace := by
  induction rows generalizing header with
  | nil => rfl
  | cons row rest ih => exact ih _

theorem headerHolds_iff (crates : Crates) (reader : LineReader Json) (file : TranscriptFile)
    (chunks : List Bytes) :
    (parser crates reader file).HeaderHolds chunks ↔ SessionRebuilt crates reader file chunks := by
  have hsession : ∀ header rows,
      ((rowDrafts crates file).machine.advanceAll header rows).sessionId =
        inForce namedSession header.sessionId rows :=
    HeaderMachine.foldl_field Header.sessionId _ fun _ _ => rfl
  refine forall_congr' fun before => forall_congr' fun chunk => forall_congr' fun after =>
    imp_congr_right fun _ => forall_congr' fun since => forall_congr' fun row =>
      forall_congr' fun rest => imp_congr_right fun _ => imp_congr_right fun hemits => ?_
  obtain ⟨hnamed, hworkspace⟩ := advanceHeader_of_emits hemits
  have hstamp : ∀ left right : Header,
      rowStamp crates file left row.2 = rowStamp crates file right row.2 ↔
        left.sessionId = right.sessionId ∧
          copilotProject left.workspace = copilotProject right.workspace := by
    intro left right
    simp only [rowStamp, Stamp.mk.injEq, true_and, and_true]
    exact and_comm
  have hnone : (∀ named ∈ since, namedSession named.2 = none) ↔
      HeaderMachine.lastSet (fun row : Nat × Json => namedSession row.2) since = none := by
    simp only [HeaderMachine.lastSet, List.getLast?_eq_none_iff, List.filterMap_eq_nil_iff]
  refine (hstamp _ _).trans (and_congr ?_ ?_)
  · rw [hnone]
    refine Iff.trans (Eq.congr (hsession _ _) (hsession _ _)) ?_
    refine (lastSet_getD_eq_iff (fun row : Nat × Json => namedSession row.2) since hnamed _ _).trans
      (imp_congr_right fun _ => ?_)
    exact Eq.congr rfl (hsession _ _)
  · have hresumed : ((rowDrafts crates file).machine.advanceAll
        ((parser crates reader file).resume (reader.rows before.flatten))
          (since ++ [row])).workspace = workspaceAfter file since := by
      rw [advanceAll_workspace, List.foldl_append, List.foldl_cons, List.foldl_nil, hworkspace]
      rfl
    have htrue : ((rowDrafts crates file).machine.advanceAll
        ((rowDrafts crates file).machine.advanceAll ((parser crates reader file).resume [])
          (reader.rows before.flatten)) (since ++ [row])).workspace =
        workspaceAfter file (reader.rows before.flatten ++ since) := by
      rw [advanceAll_workspace, advanceAll_workspace, List.foldl_append, List.foldl_cons,
        List.foldl_nil, hworkspace, workspaceAfter, List.foldl_append]
      rfl
    exact Eq.congr (congrArg copilotProject hresumed) (congrArg copilotProject htrue)

/-- A session event and a message. -/
def startedSessionValues : List Json :=
  [.object [("type", .string "session.start"), ("data", .object [("sessionId", .string "s2")])],
   .object [("type", .string "user.message"), ("data", .object [("content", .string "hi")])]]

theorem startedSession_clean :
    (listedReader startedSessionValues).Clean (valueLines startedSessionValues).flatten := by
  apply clean_valueLines
  · simp only [asciiBytes, toList_compact]
    decide +kernel
  · simp only [asciiBytes, toList_compact]
    decide +kernel

/-- Parsing a Copilot transcript append by append emits what one parse emits exactly when
the path and the sidecar give every append the session and project in force. -/
theorem copilot_append_records_iff (crates : Crates) (reader : LineReader Json)
    (file : TranscriptFile) (chunks : List Bytes) (hclean : reader.Clean chunks.flatten) :
    appendRecords (parseIndexRecords crates reader file) [] { carried := {} } chunks =
        (parseIndexRecords crates reader file chunks.flatten { carried := {} }).records ↔
      SessionRebuilt crates reader file chunks :=
  ((parser crates reader file).appendRecords_eq_parse_iff {} hclean).trans
    (headerHolds_iff crates reader file chunks)

theorem copilot_append_records_iff_started_session :
    appendRecords (parseIndexRecords plainCrates (listedReader startedSessionValues)
        ⟨"/s/a/events.jsonl", none⟩) [] { carried := {} } (valueLines startedSessionValues) =
        (parseIndexRecords plainCrates (listedReader startedSessionValues)
          ⟨"/s/a/events.jsonl", none⟩ (valueLines startedSessionValues).flatten
          { carried := {} }).records ↔
      SessionRebuilt plainCrates (listedReader startedSessionValues) ⟨"/s/a/events.jsonl", none⟩
        (valueLines startedSessionValues) :=
  copilot_append_records_iff _ _ _ _ startedSession_clean

/-- Appended line by line the message belongs to the session of the path; one parse gives
it to the started session. -/
theorem copilot_started_session_diverges :
    (listedReader startedSessionValues).Clean (valueLines startedSessionValues).flatten ∧
      appendRecords (parseIndexRecords plainCrates (listedReader startedSessionValues)
          ⟨"/s/a/events.jsonl", none⟩) [] { carried := {} } (valueLines startedSessionValues) ≠
        (parseIndexRecords plainCrates (listedReader startedSessionValues)
          ⟨"/s/a/events.jsonl", none⟩ (valueLines startedSessionValues).flatten
          { carried := {} }).records := by
  apply And.intro startedSession_clean
  simp only [listedReader, valueLines, asciiBytes, toList_compact]
  decide +kernel

end Memex.Sources.Copilot
