import Memex.Sources.Emission

/-! # Muse transcripts

`sources/muse.rs`: a `session.jsonl` of stream events. Leading metadata rows
name the workspace; a resumed run recovers them from the prefix it skips. -/

namespace Memex.Sources.Muse

open Overlay State LineStream

/-- What the path of a transcript and the configuration say about its records. -/
structure TranscriptFile where
  path : String
  includeReasoning : Bool
  deriving DecidableEq, Repr

def sessionIdFromPath (path : String) : String :=
  (fileName (pathComponents path).dropLast).getD "unknown"

namespace TranscriptFile

/-- Worker transcripts stand under a directory whose name starts with `subagent`. -/
def isSubagent (file : TranscriptFile) : Bool :=
  let normalized := String.ofList (file.path.toList.map fun c => if c = '\\' then '/' else c)
  (pathComponents normalized).any fun name => "subagent".toList.isPrefixOf name.toList

def parentSessionId (file : TranscriptFile) : Option String :=
  if file.isSubagent then fileName (pathComponents file.path).dropLast.dropLast.dropLast else none

def conversationKind (file : TranscriptFile) : String :=
  if file.isSubagent then "subagent" else "main"

def baseLinks (file : TranscriptFile) : RecordLinks where
  parentSessionId := file.parentSessionId
  conversationKind := some file.conversationKind
  threadSource :=
    if file.conversationKind ≠ "main" then some file.conversationKind else none

end TranscriptFile

def timestampMillis (crates : Crates) (value : Json) : Nat :=
  let number := value.asU64.map fun number =>
    if 1000000000000000 < number then number / 1000
    else if number < 10000000000 then saturatingMul number 1000
    else number
  let signed := (value.asI64.filter (0 ≤ ·)).map fun number => number.toNat / 1000
  ((number <|> signed) <|> value.asStr.bind (parseIsoMillis crates)).getD 0

/-- The part of a run's state that metadata rows set. -/
structure Header where
  sessionId : String
  project : String
  defaultTimestamp : Nat
  deriving DecidableEq, Repr

def Header.ofPath (path : String) : Header where
  sessionId := sessionIdFromPath path
  project := "muse"
  defaultTimestamp := 0

/-- `recorded_at` of a row, zero when it has none. -/
def recordedAt (crates : Crates) (value : Json) : Nat :=
  ((value.get "recorded_at").map (timestampMillis crates)).getD 0

/-- The stream id and the first recorded time, which both copies of the header
rules take from every row. -/
def Header.observe (crates : Crates) (header : Header) (value : Json) : Header :=
  { header with
    sessionId := ((value.get "stream").bind (Json.getNonEmpty · "id")).getD header.sessionId
    defaultTimestamp :=
      if 0 < recordedAt crates value && header.defaultTimestamp = 0 then recordedAt crates value
      else header.defaultTimestamp }

/-- Metadata and route-facts rows carry no event. -/
def isMetadata (payload : Json) : Bool :=
  let kind := (payload.getStr "kind").getD ""
  kind = "metadata" || kind = "route_facts"

/-- The record of a metadata or route-facts row. -/
def metadataRecord (value : Json) : Option Json :=
  (value.get "payload").bind fun payload =>
    if isMetadata payload then payload.get "record" else none

/-- The directory a metadata row names when the prefix is recovered: an empty
`workspace_root` falls back to `cwd`. -/
def recoveredWorkspace (value : Json) : Option String :=
  (metadataRecord value).bind fun record => record.getNonEmpty "workspace_root" <|>
    record.getNonEmpty "cwd"

/-- The directory a metadata row names in the main loop: `cwd` counts only when
`workspace_root` is no string at all. -/
def namedWorkspace (value : Json) : Option String :=
  (metadataRecord value).bind fun record =>
    match record.getStr "workspace_root" with
    | some root => if root ≠ "" then some root else none
    | none => record.getNonEmpty "cwd"

def recoverMuseHeader (crates : Crates) (header : Header) (value : Json) : Header :=
  { header.observe crates value with
    project := ((recoveredWorkspace value).map projectFromPath).getD header.project }

/-- What the main loop does to the header before it looks at the event. -/
def advanceHeader (crates : Crates) (header : Header) (value : Json) : Header :=
  { header.observe crates value with
    project := ((namedWorkspace value).map projectFromPath).getD header.project }

/-- One call of an `assistant_tool_calls_committed` event. -/
def draftToolCall (crates : Crates) (file : TranscriptFile) (stamp : Stamp)
    (messageId : Option String) (carried : Carried) (call : Json) : Drafted :=
  let toolName := call.getStr "name"
  let toolCallId := ((call.get "call_id") <|> call.get "id").bind Json.asStr
  let toolInput := (call.get "args").map fun args => args.asStr.getD (crates.render args)
  let links := match toolCallId with
    | some id => { file.baseLinks with eventId := some id, parentEventId := messageId }
    | none => file.baseLinks
  let carried := match toolCallId with
    | some id => carried.insertCall id
        (pendingToolCall crates toolName (some id) stamp.ts toolInput links stamp.sessionId)
    | none => carried
  carried.emit { role := "tool_use", text := toolInput.getD "", toolName, toolInput, links }

/-- The output of one result of a `tool_result_batch_committed` event. -/
def resultOutput (result : Json) : String :=
  (((result.get "text") <|> result.get "output").bind Json.asStr).getD ""

def draftToolResult (file : TranscriptFile) (carried : Carried) (result : Json) : Drafted :=
  let toolCallId := (result.getStr "tool_call_id").getD ""
  let toolName := if toolCallId ≠ "" then carried.pendingToolName toolCallId else none
  let carried := if toolCallId ≠ "" then carried.removeCall toolCallId else carried
  let output := resultOutput result
  let links := if toolCallId ≠ "" then
      { file.baseLinks with parentToolUseId := some toolCallId }
    else file.baseLinks
  carried.emitText output
    { role := "tool_result", text := output, toolName, toolOutput := some output, links }

/-- The plaintext of a `reasoning_committed` event. -/
def reasoningText (event : Json) : Option String :=
  ((event.get "text") <|> event.get "reasoning").bind Json.asStr

/-- A message draft, unless its text is blank. -/
def draftMessage (carried : Carried) (role : String) (text : Option String)
    (links : RecordLinks) : Drafted :=
  match text with
  | some text =>
      if trim text = "" then carried.silent
      else carried.emit { role, text := trim text, links }
  | none => carried.silent

/-- The records of one event. -/
def draftEvent (crates : Crates) (file : TranscriptFile) (stamp : Stamp) (carried : Carried)
    (event : Json) : Drafted :=
  match (event.getStr "kind").getD "" with
  | "started" => draftMessage carried "user" (event.getStr "prompt") file.baseLinks
  | "assistant_message_committed" =>
      draftMessage carried "assistant" (event.getStr "text")
        { file.baseLinks with eventId := event.getStr "message_id" }
  | "assistant_tool_calls_committed" =>
      match (event.get "tool_calls").bind Json.asArray with
      | some calls => HeaderMachine.run
          (draftToolCall crates file stamp (event.getStr "message_id")) carried calls
      | none => carried.silent
  | "tool_result_batch_committed" =>
      match (event.get "results").bind Json.asArray with
      | some results => HeaderMachine.run (draftToolResult file) carried results
      | none => carried.silent
  | "reasoning_committed" =>
      if file.includeReasoning then
        draftMessage carried "reasoning" (reasoningText event)
          { file.baseLinks with
            eventId := (event.getStr "message_id").map (· ++ ":reasoning") }
      else carried.silent
  | _ => carried.silent

/-- The event of a row that is neither metadata nor without a payload. -/
def rowEvent (value : Json) : Option Json :=
  (value.get "payload").bind fun payload =>
    if isMetadata payload then none else payload.get "event"

def draftRow (crates : Crates) (file : TranscriptFile) (stamp : Stamp) (carried : Carried)
    (value : Json) : Drafted :=
  match rowEvent value with
  | some event => draftEvent crates file stamp carried event
  | none => carried.silent

def rowStamp (crates : Crates) (file : TranscriptFile) (header : Header) (value : Json) :
    Stamp where
  source := .muse
  ts := if 0 < recordedAt crates value then recordedAt crates value else header.defaultTimestamp
  project := header.project
  sessionId := header.sessionId
  sourcePath := file.path

/-- The text is present and not blank. -/
def speaks (text : Option String) : Bool :=
  text.any fun text => !isBlankText text

/-- Whether an event has a record: a text that is not blank, a call or an output. -/
def eventEmits (file : TranscriptFile) (event : Json) : Bool :=
  match (event.getStr "kind").getD "" with
  | "started" => speaks (event.getStr "prompt")
  | "assistant_message_committed" => speaks (event.getStr "text")
  | "assistant_tool_calls_committed" =>
      ((event.get "tool_calls").bind Json.asArray).any fun calls => !calls.isEmpty
  | "tool_result_batch_committed" =>
      ((event.get "results").bind Json.asArray).any fun results =>
        results.any fun result => !isBlankText (resultOutput result)
  | "reasoning_committed" => file.includeReasoning && speaks (reasoningText event)
  | _ => false

def rowEmits (file : TranscriptFile) (value : Json) : Bool :=
  (rowEvent value).any (eventEmits file)

variable {crates : Crates} {file : TranscriptFile} {stamp stamp' : Stamp}
  {carried carried' : Carried}

theorem draftMessage_same (h : Carried.Same carried carried') (role : String)
    (text : Option String) (links : RecordLinks) (condition : Prop) :
    SameDrafts condition (draftMessage carried role text links)
      (draftMessage carried' role text links) := by
  cases text with
  | none => exact h.silent
  | some text =>
      simp only [draftMessage]
      split
      · exact h.silent
      · exact h.emit fun _ => rfl

theorem draftMessage_eq_nil (carried : Carried) (role : String) (text : Option String)
    (links : RecordLinks) :
    (draftMessage carried role text links).2 = [] ↔ speaks text = false := by
  cases text with
  | none => simp [draftMessage, speaks, Carried.silent]
  | some text =>
      simp only [draftMessage, speaks, isBlankText]
      split
      · simp [Carried.silent, *]
      · simp [Carried.emit, *]

theorem draftToolCall_same (h : Carried.Same carried carried') (messageId : Option String)
    (call : Json) (condition : Prop) :
    SameDrafts condition (draftToolCall crates file stamp messageId carried call)
      (draftToolCall crates file stamp' messageId carried' call) := by
  simp only [draftToolCall]
  split
  · refine Carried.Same.emit (h.insertCall _ ?_) fun _ => rfl
    rfl
  · exact h.emit fun _ => rfl

theorem draftToolResult_same (h : Carried.Same carried carried') (result : Json)
    (condition : Prop) :
    SameDrafts condition (draftToolResult file carried result)
      (draftToolResult file carried' result) := by
  have hremoved : Carried.Same
      (if (result.getStr "tool_call_id").getD "" ≠ "" then
        carried.removeCall ((result.getStr "tool_call_id").getD "") else carried)
      (if (result.getStr "tool_call_id").getD "" ≠ "" then
        carried'.removeCall ((result.getStr "tool_call_id").getD "") else carried') := by
    split
    · exact h.removeCall _
    · exact h
  simp only [draftToolResult, h.pendingToolName_eq]
  exact hremoved.emitText _ fun _ => rfl

theorem draftToolResult_eq_nil (carried : Carried) (result : Json) :
    (draftToolResult file carried result).2 = [] ↔
      (!isBlankText (resultOutput result)) = false :=
  Carried.emitText_eq_nil _ _ _

theorem draftEvent_same (h : Carried.Same carried carried') (event : Json) (condition : Prop) :
    SameDrafts condition (draftEvent crates file stamp carried event)
      (draftEvent crates file stamp' carried' event) := by
  simp only [draftEvent]
  split
  · exact draftMessage_same h _ _ _ _
  · exact draftMessage_same h _ _ _ _
  · split
    · exact SameDrafts.run (fun _ _ call hcall => draftToolCall_same hcall _ call _) h _
    · exact h.silent
  · split
    · exact SameDrafts.run (fun _ _ result hresult => draftToolResult_same hresult result _) h _
    · exact h.silent
  · split
    · exact draftMessage_same h _ _ _ _
    · exact h.silent
  · exact h.silent

theorem draftEvent_eq_nil (carried : Carried) (event : Json) :
    (draftEvent crates file stamp carried event).2 = [] ↔ eventEmits file event = false := by
  simp only [draftEvent, eventEmits]
  split
  · exact draftMessage_eq_nil _ _ _ _
  · exact draftMessage_eq_nil _ _ _ _
  · cases hcalls : (event.get "tool_calls").bind Json.asArray with
    | none => simp [Carried.silent]
    | some calls =>
        have hany := run_drafts_eq_nil
          (draftToolCall crates file stamp (event.getStr "message_id")) (fun _ => true)
          (fun _ _ => by simp [draftToolCall, Carried.emit]) carried calls
        simpa [List.eq_nil_iff_forall_not_mem] using hany
  · cases hresults : (event.get "results").bind Json.asArray with
    | none => simp [Carried.silent]
    | some results => simpa using run_drafts_eq_nil _ _ draftToolResult_eq_nil carried results
  · cases hreasoning : file.includeReasoning with
    | true => simpa using draftMessage_eq_nil _ _ _ _
    | false => simp [Carried.silent]
  · simp [Carried.silent]

/-- The rows of a Muse transcript. -/
def rowDrafts (crates : Crates) (file : TranscriptFile) : RowDrafts Json Header where
  advance := advanceHeader crates
  stamp := rowStamp crates file
  drafts := draftRow crates file
  emits := rowEmits file
  drafts_same stamp stamp' carried carried' value h := by
    simp only [draftRow]
    split
    · exact draftEvent_same h _ _
    · exact h.silent
  drafts_eq_nil stamp carried value := by
    simp only [draftRow, rowEmits]
    cases rowEvent value with
    | none => simp [Carried.silent]
    | some event => simpa using draftEvent_eq_nil carried event

/-- The header a resumed run starts with: the rows of the skipped prefix are read again. -/
def recoverHeader (crates : Crates) (reader : LineReader Json) (file : TranscriptFile)
    (bytes : Bytes) (start : Nat) : Header :=
  if 0 < start && !bytes.isEmpty then
    (reader.rows (bytes.take start)).foldl
      (fun header row => recoverMuseHeader crates header row.2) (Header.ofPath file.path)
  else Header.ofPath file.path

/-- The parser of `session.jsonl`. -/
def parser (crates : Crates) (reader : LineReader Json) (file : TranscriptFile) :
    ResumedParser Json Header Carried where
  reader := reader
  machine := (rowDrafts crates file).machine
  sessionId := Header.sessionId
  recover := recoverHeader crates reader file
  resume rows := rows.foldl (fun header row => recoverMuseHeader crates header row.2)
    (Header.ofPath file.path)
  recover_eq bytes start _ _ := by
    simp only [recoverHeader, LineReader.rows]
    split
    · rfl
    · rename_i hempty
      have hnil : bytes.take start = [] := by
        simp only [Bool.and_eq_true, decide_eq_true_eq, Bool.not_eq_true', not_and] at hempty
        rcases Nat.eq_zero_or_pos start with rfl | hpos
        · rfl
        · have hbytes : bytes = [] := by simpa using hempty hpos
          simp [hbytes]
      simp [hnil]

/-- `parse_index_records`. -/
def parseIndexRecords (crates : Crates) (reader : LineReader Json) (file : TranscriptFile) :
    Bytes → IndexParseState Carried → IndexParseOutput Carried :=
  (parser crates reader file).parse

/-! ## Parsing append by append -/

/-- The project of the last directory that a rule finds in the rows. -/
def projectNamed (rule : Json → Option String) (rows : List (Nat × Json)) : Option String :=
  HeaderMachine.lastSet (fun row => (rule row.2).map projectFromPath) rows

/-- The project in force behind rows; when none of them names one it is `muse`. -/
def projectOf (rule : Json → Option String) (rows : List (Nat × Json)) : String :=
  (projectNamed rule rows).getD "muse"

/-- Whenever a row of an append has records, a metadata row before it in the same
append names a directory, or the recovery of the skipped rows finds the project
that the main loop had found in them. -/
def WorkspaceRecovered (reader : LineReader Json) (file : TranscriptFile)
    (chunks : List Bytes) : Prop :=
  ∀ (before : List Bytes) chunk after, chunks = before ++ chunk :: after →
    ∀ since row rest, reader.freshRows before.flatten chunk = since ++ row :: rest →
      rowEmits file row.2 = true → projectNamed namedWorkspace since = none →
        projectOf recoveredWorkspace (reader.rows before.flatten) =
          projectOf namedWorkspace (reader.rows before.flatten)

/-- Two headers that differ in the project at most. -/
def Header.SameObserved (left right : Header) : Prop :=
  left.sessionId = right.sessionId ∧ left.defaultTimestamp = right.defaultTimestamp

theorem Header.SameObserved.foldl {left right : Header} (h : SameObserved left right)
    {step step' : Header → Json → Header}
    (hstep : ∀ header value, SameObserved (step header value) (header.observe crates value))
    (hstep' : ∀ header value, SameObserved (step' header value) (header.observe crates value))
    (rows : List (Nat × Json)) :
    SameObserved (rows.foldl (fun header row => step header row.2) left)
      (rows.foldl (fun header row => step' header row.2) right) := by
  induction rows generalizing left right with
  | nil => exact h
  | cons row rest ih =>
      apply ih
      obtain ⟨hsession, htime⟩ := h
      have hleft := hstep left row.2
      have hright := hstep' right row.2
      have hobserved : SameObserved (left.observe crates row.2) (right.observe crates row.2) :=
        ⟨by simp [Header.observe, hsession], by simp [Header.observe, htime]⟩
      exact ⟨hleft.1.trans (hobserved.1.trans hright.1.symm),
        hleft.2.trans (hobserved.2.trans hright.2.symm)⟩

theorem namedWorkspace_of_emits {value : Json} (h : rowEmits file value = true) :
    namedWorkspace value = none := by
  simp only [rowEmits, rowEvent, namedWorkspace, metadataRecord] at h ⊢
  cases hpayload : value.get "payload" with
  | none => rfl
  | some payload =>
      rw [hpayload] at h
      cases hkind : isMetadata payload with
      | true => simp [hkind] at h
      | false => simp [hkind]

/-- The stamp of a row tells two headers apart by the project only, when they were
built from the same rows. -/
theorem rowStamp_eq_iff {left right : Header} (h : left.SameObserved right) (value : Json) :
    rowStamp crates file left value = rowStamp crates file right value ↔
      left.project = right.project := by
  obtain ⟨hsession, htime⟩ := h
  simp [rowStamp, hsession, htime]

theorem headerHolds_iff (crates : Crates) (reader : LineReader Json) (file : TranscriptFile)
    (chunks : List Bytes) :
    (parser crates reader file).HeaderHolds chunks ↔ WorkspaceRecovered reader file chunks := by
  have hadvance : ∀ header value,
      (advanceHeader crates header value).SameObserved (header.observe crates value) :=
    fun _ _ => ⟨rfl, rfl⟩
  have hrecover : ∀ header value,
      (recoverMuseHeader crates header value).SameObserved (header.observe crates value) :=
    fun _ _ => ⟨rfl, rfl⟩
  have hproject : ∀ header rows,
      ((rowDrafts crates file).machine.advanceAll header rows).project =
        (projectNamed namedWorkspace rows).getD header.project :=
    HeaderMachine.foldl_field Header.project _ fun _ _ => rfl
  have hrecovered : ∀ rows, ((parser crates reader file).resume rows).project =
      projectOf recoveredWorkspace rows :=
    HeaderMachine.foldl_field Header.project _ (fun _ _ => rfl) (Header.ofPath file.path)
  refine forall_congr' fun before => forall_congr' fun chunk => forall_congr' fun after =>
    imp_congr_right fun _ => forall_congr' fun since => forall_congr' fun row =>
      forall_congr' fun rest => imp_congr_right fun _ => imp_congr_right fun hemits => ?_
  have hsame : ((rowDrafts crates file).machine.advanceAll
      ((parser crates reader file).resume (reader.rows before.flatten))
        (since ++ [row])).SameObserved
      ((rowDrafts crates file).machine.advanceAll
        ((rowDrafts crates file).machine.advanceAll ((parser crates reader file).resume [])
          (reader.rows before.flatten)) (since ++ [row])) := by
    have hresumed : ((parser crates reader file).resume (reader.rows before.flatten)).SameObserved
        ((rowDrafts crates file).machine.advanceAll ((parser crates reader file).resume [])
          (reader.rows before.flatten)) :=
      Header.SameObserved.foldl ⟨rfl, rfl⟩ hrecover hadvance _
    exact hresumed.foldl hadvance hadvance _
  have hnone : projectNamed namedWorkspace (since ++ [row]) =
      projectNamed namedWorkspace since := by
    simp [projectNamed, HeaderMachine.lastSet_append, namedWorkspace_of_emits hemits]
  refine (rowStamp_eq_iff hsame row.2).trans ?_
  rw [hproject, hproject, hproject, hrecovered, hnone]
  cases projectNamed namedWorkspace since with
  | none =>
      simp only [Option.getD_none, forall_const]
      rfl
  | some project => simp

/-- A metadata row with an empty `workspace_root`, and a row with a prompt. -/
def emptyRootValues : List Json :=
  [.object [("payload", .object [("kind", .string "metadata"),
    ("record", .object [("workspace_root", .string ""), ("cwd", .string "/w/p")])])],
   .object [("payload", .object [("event", .object [("kind", .string "started"),
    ("prompt", .string "hi")])])]]

theorem emptyRoot_clean :
    (listedReader emptyRootValues).Clean (valueLines emptyRootValues).flatten := by
  apply clean_valueLines
  · simp only [asciiBytes, toList_compact]
    decide +kernel
  · simp only [asciiBytes, toList_compact]
    decide +kernel

/-- Parsing a Muse transcript append by append emits what one parse emits exactly
when the projects of the skipped rows are recovered. -/
theorem muse_append_records_iff (crates : Crates) (reader : LineReader Json)
    (file : TranscriptFile) (chunks : List Bytes) (hclean : reader.Clean chunks.flatten) :
    appendRecords (parseIndexRecords crates reader file) [] { carried := {} } chunks =
        (parseIndexRecords crates reader file chunks.flatten { carried := {} }).records ↔
      WorkspaceRecovered reader file chunks :=
  ((parser crates reader file).appendRecords_eq_parse_iff {} hclean).trans
    (headerHolds_iff crates reader file chunks)

theorem muse_append_records_iff_empty_root :
    appendRecords (parseIndexRecords plainCrates (listedReader emptyRootValues)
        ⟨"/s/session.jsonl", false⟩) [] { carried := {} } (valueLines emptyRootValues) =
        (parseIndexRecords plainCrates (listedReader emptyRootValues) ⟨"/s/session.jsonl", false⟩
          (valueLines emptyRootValues).flatten { carried := {} }).records ↔
      WorkspaceRecovered (listedReader emptyRootValues) ⟨"/s/session.jsonl", false⟩
        (valueLines emptyRootValues) :=
  muse_append_records_iff _ _ _ _ emptyRoot_clean

/-- Appended line by line the prompt is filed under the directory `p`; one parse files
it under `muse`. -/
theorem muse_empty_root_diverges :
    (listedReader emptyRootValues).Clean (valueLines emptyRootValues).flatten ∧
      appendRecords (parseIndexRecords plainCrates (listedReader emptyRootValues)
          ⟨"/s/session.jsonl", false⟩) [] { carried := {} } (valueLines emptyRootValues) ≠
        (parseIndexRecords plainCrates (listedReader emptyRootValues) ⟨"/s/session.jsonl", false⟩
          (valueLines emptyRootValues).flatten { carried := {} }).records := by
  apply And.intro emptyRoot_clean
  simp only [listedReader, valueLines, asciiBytes, toList_compact]
  decide +kernel

end Memex.Sources.Muse
