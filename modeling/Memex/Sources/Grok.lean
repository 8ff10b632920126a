import Memex.Sources.Emission

/-! # Grok transcripts

`sources/grok.rs`: an `updates.jsonl` beside a `summary.json`. Any line may name
the session; a resumed run starts from the sidecar or the path again. -/

namespace Memex.Sources.Grok

open Overlay State LineStream

/-- The transcript, and its sidecar when that could be read. -/
structure TranscriptFile where
  path : String
  summary : Option Json
  includeReasoning : Bool

def sessionIdFromPath (path : String) : Option String :=
  fileName (pathComponents path).dropLast

namespace TranscriptFile

def summaryCwd (file : TranscriptFile) : Option String :=
  (file.summary.bind (·.pointer ["info", "cwd"])).bind Json.asStr

def summaryProject (file : TranscriptFile) : Option String :=
  (file.summary.bind (·.getNonEmpty "git_root_dir") <|> file.summaryCwd).map projectFromPath

/-- The session id before any line names one. -/
def sessionId (file : TranscriptFile) : String :=
  ((file.summary.bind (·.pointer ["info", "id"])).bind Json.asStr <|>
    sessionIdFromPath file.path).getD "unknown"

def project (file : TranscriptFile) : String :=
  file.summaryProject.getD ((file.summaryCwd.map projectFromPath).getD "grok")

end TranscriptFile

/-- The session id a line names. -/
def namedSession (value : Json) : Option String :=
  if value.isObject then
    ((value.pointer ["params", "sessionId"]).bind Json.asStr).filter (· ≠ "")
  else none

def advanceSession (sessionId : String) (value : Json) : String :=
  (namedSession value).getD sessionId

def timestampMillis (value : Json) : Nat :=
  match (value.pointer ["params", "_meta", "agentTimestampMs"]).bind Json.asU64 with
  | some timestamp => timestamp
  | none =>
      let timestamp := ((value.get "timestamp").bind Json.asU64).getD 0
      if timestamp < 10000000000 then saturatingMul timestamp 1000 else timestamp

/-- The text of one item of a content array. -/
def contentPart (item : Json) : Option String :=
  (((item.get "content").bind (·.get "text")) <|> item.get "text").bind Json.asStr

def contentText : Option Json → String
  | none => ""
  | some (.string text) => text
  | some value =>
      match value.getStr "text" with
      | some text => text
      | none => "\n".intercalate ((value.asArray.getD []).filterMap contentPart)

def toolName (update : Json) : Option String :=
  (((update.pointer ["_meta", "x.ai/tool", "name"] <|> update.get "tool_name") <|>
    update.get "title").bind Json.asStr).filter (· ≠ "")

mutual

/-- The first string under the key, looked for in depth. -/
def findStringField (key : String) : Json → Option String
  | .object members =>
      ((members.lookup key).bind Json.asStr) <|> findInMembers key members
  | .array items => findInItems key items
  | _ => none

def findInMembers (key : String) : List (String × Json) → Option String
  | [] => none
  | (_, value) :: rest => findStringField key value <|> findInMembers key rest

def findInItems (key : String) : List Json → Option String
  | [] => none
  | value :: rest => findStringField key value <|> findInItems key rest

end

def jsonText (crates : Crates) (value : Json) : String :=
  value.asStr.getD (crates.render value)

def outputKeys : List String :=
  ["output_for_prompt", "tool_output_for_prompt", "content_concise", "summary_for_prompt",
    "raw_output"]

def toolOutput (crates : Crates) (update : Json) : Option String :=
  let content := contentText (update.get "content")
  if !isBlankText content then some content
  else (update.get "rawOutput").map fun output =>
    (outputKeys.findSome? fun key => findStringField key output).getD (jsonText crates output)

/-- The event id the provider gave, or the session and the turn. -/
def eventId (stamp : Stamp) (carried : Carried) (value : Json) : String :=
  ((value.pointer ["params", "_meta", "eventId"]).bind Json.asStr).getD
    (stamp.sessionId ++ ":" ++ toString carried.turnId)

def baseLinks (stamp : Stamp) (carried : Carried) (value : Json) : RecordLinks where
  eventId := some (eventId stamp carried value)
  conversationKind := some "main"

def draftToolCall (crates : Crates) (stamp : Stamp) (carried : Carried) (value update : Json) :
    Drafted :=
  let callId := update.getStr "toolCallId"
  let toolInput := ((update.get "rawInput").map (jsonText crates)).filter (· ≠ "")
  let links := match callId with
    | some id => { baseLinks stamp carried value with eventId := some id }
    | none => baseLinks stamp carried value
  let called := match callId with
    | some id => carried.insertCall id
        (pendingToolCall crates (toolName update) (some id) stamp.ts toolInput links
          stamp.sessionId)
    | none => carried
  called.emit
    { role := "tool_use", text := toolInput.getD "", toolName := toolName update, toolInput, links }

/-- Only a completed or failed call has a result. -/
def isFinished (update : Json) : Bool :=
  let status := (update.getStr "status").getD ""
  status = "completed" || status = "failed"

def draftToolResult (crates : Crates) (stamp : Stamp) (carried : Carried)
    (value update : Json) : Drafted :=
  if !isFinished update then carried.silent
  else
    let callId := (update.getStr "toolCallId").getD ""
    let pendingName := if callId ≠ "" then carried.pendingToolName callId else none
    let answered := if callId ≠ "" then carried.removeCall callId else carried
    let output := toolOutput crates update
    let text := output.getD ""
    let links := if callId ≠ "" then
        { baseLinks stamp carried value with
          parentEventId := some callId, parentToolUseId := some callId }
      else baseLinks stamp carried value
    answered.emitText text
      { role := "tool_result", text, toolName := toolName update <|> pendingName
        toolOutput := output, links }

def recapText (update : Json) : String :=
  (update.getStr "summary").getD ""

def draftUpdate (crates : Crates) (file : TranscriptFile) (stamp : Stamp) (carried : Carried)
    (value update : Json) : Drafted :=
  let links := baseLinks stamp carried value
  let text := contentText (update.get "content")
  match (update.getStr "sessionUpdate").getD "" with
  | "user_message_chunk" => carried.emitText text { role := "user", text, links }
  | "agent_message_chunk" => carried.emitText text { role := "assistant", text, links }
  | "agent_thought_chunk" =>
      if file.includeReasoning then carried.emitText text { role := "reasoning", text, links }
      else carried.silent
  | "tool_call" => draftToolCall crates stamp carried value update
  | "tool_call_update" => draftToolResult crates stamp carried value update
  | "session_recap" =>
      carried.emitText (recapText update)
        { role := "assistant", text := "session_recap: " ++ recapText update
          links := { links with
            threadSource := some "compaction", conversationKind := some "compaction" } }
  | _ => carried.silent

/-- The update of a line that is an object. -/
def rowUpdate (value : Json) : Option Json :=
  if value.isObject then value.pointer ["params", "update"] else none

def draftRow (crates : Crates) (file : TranscriptFile) (stamp : Stamp) (carried : Carried)
    (value : Json) : Drafted :=
  match rowUpdate value with
  | some update => draftUpdate crates file stamp carried value update
  | none => carried.silent

def rowStamp (file : TranscriptFile) (sessionId : String) (value : Json) : Stamp where
  source := .grok
  ts := timestampMillis value
  project := file.project
  sessionId := sessionId
  sourcePath := file.path

/-- Whether an update has a record. -/
def updateEmits (crates : Crates) (file : TranscriptFile) (update : Json) : Bool :=
  let speaks := !isBlankText (contentText (update.get "content"))
  match (update.getStr "sessionUpdate").getD "" with
  | "user_message_chunk" => speaks
  | "agent_message_chunk" => speaks
  | "agent_thought_chunk" => file.includeReasoning && speaks
  | "tool_call" => true
  | "tool_call_update" => isFinished update && !isBlankText ((toolOutput crates update).getD "")
  | "session_recap" => !isBlankText (recapText update)
  | _ => false

def rowEmits (crates : Crates) (file : TranscriptFile) (value : Json) : Bool :=
  (rowUpdate value).any (updateEmits crates file)

variable {crates : Crates} {file : TranscriptFile} {stamp stamp' : Stamp}
  {carried carried' : Carried}

/-- Under one stamp the links of a row depend on the turn only. -/
theorem baseLinks_eq (h : Carried.Same carried carried') (value : Json)
    (hstamp : stamp = stamp') :
    baseLinks stamp carried value = baseLinks stamp' carried' value := by
  subst hstamp
  simp [baseLinks, eventId, h.1]

theorem draftToolCall_same (h : Carried.Same carried carried') (value update : Json) :
    SameDrafts (stamp = stamp') (draftToolCall crates stamp carried value update)
      (draftToolCall crates stamp' carried' value update) := by
  simp only [draftToolCall]
  split
  · refine Carried.Same.emit (h.insertCall _ ?_) ?_
    · rfl
    · intro hstamp
      rw [baseLinks_eq h value hstamp]
  · refine h.emit ?_
    intro hstamp
    rw [baseLinks_eq h value hstamp]

theorem draftToolResult_same (h : Carried.Same carried carried') (value update : Json) :
    SameDrafts (stamp = stamp') (draftToolResult crates stamp carried value update)
      (draftToolResult crates stamp' carried' value update) := by
  simp only [draftToolResult, h.pendingToolName_eq]
  split
  · exact h.silent
  · split
    · refine Carried.Same.emitText (h.removeCall _) _ ?_
      intro hstamp
      rw [baseLinks_eq h value hstamp]
    · refine Carried.Same.emitText h _ ?_
      intro hstamp
      rw [baseLinks_eq h value hstamp]

theorem draftToolResult_eq_nil (carried : Carried) (value update : Json) :
    (draftToolResult crates stamp carried value update).2 = [] ↔
      (isFinished update && !isBlankText ((toolOutput crates update).getD "")) = false := by
  simp only [draftToolResult]
  cases isFinished update with
  | false => simp [Carried.silent]
  | true => simp [Carried.emitText_eq_nil]

theorem draftUpdate_same (h : Carried.Same carried carried') (value update : Json) :
    SameDrafts (stamp = stamp') (draftUpdate crates file stamp carried value update)
      (draftUpdate crates file stamp' carried' value update) := by
  have hlinks := fun hstamp : stamp = stamp' => baseLinks_eq h value hstamp
  simp only [draftUpdate]
  split
  · exact Carried.Same.emitText h _ fun hstamp => by rw [hlinks hstamp]
  · exact Carried.Same.emitText h _ fun hstamp => by rw [hlinks hstamp]
  · split
    · exact Carried.Same.emitText h _ fun hstamp => by rw [hlinks hstamp]
    · exact h.silent
  · exact draftToolCall_same h value update
  · exact draftToolResult_same h value update
  · exact Carried.Same.emitText h _ fun hstamp => by rw [hlinks hstamp]
  · exact h.silent

theorem draftUpdate_eq_nil (carried : Carried) (value update : Json) :
    (draftUpdate crates file stamp carried value update).2 = [] ↔
      updateEmits crates file update = false := by
  simp only [draftUpdate, updateEmits]
  split
  · exact Carried.emitText_eq_nil _ _ _
  · exact Carried.emitText_eq_nil _ _ _
  · cases file.includeReasoning with
    | true => simpa using Carried.emitText_eq_nil _ _ _
    | false => simp [Carried.silent]
  · simp [draftToolCall, Carried.emit]
  · exact draftToolResult_eq_nil carried value update
  · exact Carried.emitText_eq_nil _ _ _
  · simp [Carried.silent]

/-- The rows of a Grok transcript. -/
def rowDrafts (crates : Crates) (file : TranscriptFile) : RowDrafts Json String where
  advance := advanceSession
  stamp := rowStamp file
  drafts := draftRow crates file
  emits := rowEmits crates file
  drafts_same stamp stamp' carried carried' value h := by
    simp only [draftRow]
    split
    · exact draftUpdate_same h _ _
    · exact h.silent
  drafts_eq_nil stamp carried value := by
    simp only [draftRow, rowEmits]
    cases rowUpdate value with
    | none => simp [Carried.silent]
    | some update => simpa using draftUpdate_eq_nil carried value update

/-- The parser of `updates.jsonl`. A resumed run reads nothing of the skipped lines. -/
def parser (crates : Crates) (reader : LineReader Json) (file : TranscriptFile) :
    ResumedParser Json String Carried where
  reader := reader
  machine := (rowDrafts crates file).machine
  sessionId := id
  recover _ _ := file.sessionId
  resume _ := file.sessionId
  recover_eq _ _ _ _ := rfl

/-- `parse_index_records`. -/
def parseIndexRecords (crates : Crates) (reader : LineReader Json) (file : TranscriptFile) :
    Bytes → IndexParseState Carried → IndexParseOutput Carried :=
  (parser crates reader file).parse

/-! ## Parsing append by append -/

/-- Whenever a row of an append has records, that row or an earlier one of the same
append names the session, or the session in force before the append is the one of
the sidecar or the path. -/
def SessionKnown (crates : Crates) (reader : LineReader Json) (file : TranscriptFile)
    (chunks : List Bytes) : Prop :=
  ∀ (before : List Bytes) chunk after, chunks = before ++ chunk :: after →
    ∀ since row rest, reader.freshRows before.flatten chunk = since ++ row :: rest →
      rowEmits crates file row.2 = true →
        (∀ named ∈ since ++ [row], namedSession named.2 = none) →
          inForce namedSession file.sessionId (reader.rows before.flatten) = file.sessionId

theorem headerHolds_iff (crates : Crates) (reader : LineReader Json) (file : TranscriptFile)
    (chunks : List Bytes) :
    (parser crates reader file).HeaderHolds chunks ↔ SessionKnown crates reader file chunks := by
  have hsession : ∀ sessionId rows, (parser crates reader file).machine.advanceAll sessionId rows =
      inForce namedSession sessionId rows :=
    HeaderMachine.foldl_field id (fun row : Nat × Json => namedSession row.2) fun _ _ => rfl
  refine forall_congr' fun before => forall_congr' fun chunk => forall_congr' fun after =>
    imp_congr_right fun _ => forall_congr' fun since => forall_congr' fun row =>
      forall_congr' fun rest => imp_congr_right fun _ => imp_congr_right fun _ => ?_
  have hstamp : ∀ left right : String,
      rowStamp file left row.2 = rowStamp file right row.2 ↔ left = right := by
    intro left right
    simp [rowStamp]
  refine (hstamp _ _).trans ?_
  rw [hsession, hsession, hsession]
  have hnone : (∀ named ∈ since ++ [row], namedSession named.2 = none) ↔
      HeaderMachine.lastSet (fun row : Nat × Json => namedSession row.2) (since ++ [row]) =
        none := by
    simp only [HeaderMachine.lastSet, List.getLast?_eq_none_iff, List.filterMap_eq_nil_iff]
  rw [hnone]
  simp only [inForce]
  cases HeaderMachine.lastSet (fun row : Nat × Json => namedSession row.2) (since ++ [row]) with
  | none =>
      simp only [Option.getD_none, forall_const]
      exact eq_comm
  | some sessionId => simp

/-- A line that names the session, and a line that does not. -/
def sessionOnceValues : List Json :=
  [.object [("params", .object [("sessionId", .string "s2"), ("update", .object [])])],
   .object [("params", .object [("update", .object
    [("sessionUpdate", .string "user_message_chunk"), ("content", .string "hi")])])]]

theorem sessionOnce_clean :
    (listedReader sessionOnceValues).Clean (valueLines sessionOnceValues).flatten := by
  apply clean_valueLines
  · simp only [asciiBytes, toList_compact]
    decide +kernel
  · simp only [asciiBytes, toList_compact]
    decide +kernel

/-- Parsing a Grok transcript append by append emits what one parse emits exactly when
no record of an append relies on a session named before the append. -/
theorem grok_append_records_iff (crates : Crates) (reader : LineReader Json)
    (file : TranscriptFile) (chunks : List Bytes) (hclean : reader.Clean chunks.flatten) :
    appendRecords (parseIndexRecords crates reader file) [] { carried := {} } chunks =
        (parseIndexRecords crates reader file chunks.flatten { carried := {} }).records ↔
      SessionKnown crates reader file chunks :=
  ((parser crates reader file).appendRecords_eq_parse_iff {} hclean).trans
    (headerHolds_iff crates reader file chunks)

theorem grok_append_records_iff_session_once :
    appendRecords (parseIndexRecords plainCrates (listedReader sessionOnceValues)
        ⟨"/s/a/updates.jsonl", none, false⟩) [] { carried := {} }
        (valueLines sessionOnceValues) =
        (parseIndexRecords plainCrates (listedReader sessionOnceValues)
          ⟨"/s/a/updates.jsonl", none, false⟩ (valueLines sessionOnceValues).flatten
          { carried := {} }).records ↔
      SessionKnown plainCrates (listedReader sessionOnceValues)
        ⟨"/s/a/updates.jsonl", none, false⟩ (valueLines sessionOnceValues) :=
  grok_append_records_iff _ _ _ _ sessionOnce_clean

/-- Appended line by line the message belongs to the session of the path; one parse gives
it to the session the first line named. -/
theorem grok_session_once_diverges :
    (listedReader sessionOnceValues).Clean (valueLines sessionOnceValues).flatten ∧
      appendRecords (parseIndexRecords plainCrates (listedReader sessionOnceValues)
          ⟨"/s/a/updates.jsonl", none, false⟩) [] { carried := {} }
          (valueLines sessionOnceValues) ≠
        (parseIndexRecords plainCrates (listedReader sessionOnceValues)
          ⟨"/s/a/updates.jsonl", none, false⟩ (valueLines sessionOnceValues).flatten
          { carried := {} }).records := by
  apply And.intro sessionOnce_clean
  simp only [listedReader, valueLines, asciiBytes, toList_compact]
  decide +kernel

end Memex.Sources.Grok
