import Memex.Sources.Emission

/-! # Pi, OMP and OpenClaw transcripts

`sources/pi.rs`: session rows name the session, its directory and its time. The
main loop obeys every session row it meets; a resumed run looks at the first
line of the file only. -/

namespace Memex.Sources.Pi

open Overlay State LineStream

/-- The transcript, whose source is one of the three that share the format. -/
structure TranscriptFile where
  path : String
  source : SourceKind
  includeReasoning : Bool
  deriving DecidableEq, Repr

def sessionIdFromPath (path : String) : String :=
  (codexSessionIdFromPath path).getD path

/-- The last part of the encoded directory the transcript stands in. -/
def projectFromDirectory (path : String) : String :=
  let part := (fileName (pathComponents path).dropLast).map fun name =>
    let chars := name.toList
    let wrapped : Bool := ['-', '-'].isPrefixOf chars && ['-', '-'].isSuffixOf chars &&
      4 < name.utf8ByteSize
    let key := if wrapped then chars.tail.dropLast else chars
    let trimmed := (key.dropWhile (· = '-')).rdropWhile (· = '-')
    String.ofList (((trimmed.splitOn '-').reverse.find? (· ≠ [])).getD key)
  (part.filter (· ≠ "")).getD "pi"

def timestampMillis (crates : Crates) (value : Json) : Nat :=
  let number := value.asU64.map fun number =>
    if number < 10000000000 then saturatingMul number 1000 else number
  let signed := (value.asI64.filter (0 ≤ ·)).map Int.toNat
  ((number <|> signed) <|> value.asStr.bind (parseIsoMillis crates)).getD 0

/-- What session rows set. -/
structure Header where
  sessionId : String
  project : String
  sessionTimestamp : Nat
  deriving DecidableEq, Repr

def Header.ofPath (path : String) : Header where
  sessionId := sessionIdFromPath path
  project := projectFromDirectory path
  sessionTimestamp := 0

def entryType (value : Json) : String :=
  (value.getStr "type").getD ""

def isSession (value : Json) : Bool :=
  value.isObject && entryType value = "session"

def entryTimestamp (crates : Crates) (value : Json) : Nat :=
  ((value.get "timestamp").map (timestampMillis crates)).getD 0

/-- The session id a session row sets. -/
def namedSession (value : Json) : Option String :=
  if isSession value then value.getNonEmpty "id" else none

/-- The project a session row sets. -/
def namedProject (value : Json) : Option String :=
  if isSession value then (value.getNonEmpty "cwd").map projectFromPath else none

/-- The time a session row sets. -/
def namedTimestamp (crates : Crates) (value : Json) : Option Nat :=
  if isSession value && 0 < entryTimestamp crates value then some (entryTimestamp crates value)
  else none

/-- `apply_session_header` and the session time: what the main loop does with a
session row, and the resumed run with the first line. -/
def applySessionHeader (crates : Crates) (header : Header) (value : Json) : Header where
  sessionId := (namedSession value).getD header.sessionId
  project := (namedProject value).getD header.project
  sessionTimestamp := (namedTimestamp crates value).getD header.sessionTimestamp

def baseLinks (value : Json) (conversationKind : String) : RecordLinks where
  eventId := value.getStr "id"
  parentEventId := value.getStr "parentId"
  logicalParentEventId := value.getStr "fromId"
  threadSource := if conversationKind ≠ "main" then some conversationKind else none
  conversationKind := some conversationKind

/-- The text of one item of a content array. -/
def contentPart (item : Json) : Option String :=
  match item with
  | .string text => some text
  | .object _ =>
      if item.containsKey "encrypted_content" then none
      else match (item.getStr "type").getD "" with
        | "text" => item.getStr "text"
        -- plaintext reasoning is a record of its own
        | "thinking" => none
        | "redacted_thinking" => none
        | "encrypted_reasoning" => none
        | "toolCall" => none
        | _ => item.getStr "text" <|> item.getStr "content"
  | _ => none

def contentText (crates : Crates) (content : Option Json) : String :=
  match content with
  | none => ""
  | some (.string text) => text
  | some (.array items) => "\n".intercalate (items.filterMap contentPart)
  | some content => crates.render content

def summaryMessageText (crates : Crates) (message : Json) (role : String) : String :=
  let summary := if role = "branchSummary" || role = "compactionSummary" then
      message.getStr "summary"
    else none
  trim (summary.getD (contentText crates (message.get "content")))

def bashText (command output : String) (exitCode : Option Int) : String :=
  let parts := (if command ≠ "" then ["$ " ++ command] else []) ++
    (if output ≠ "" then [output] else []) ++
    (exitCode.map fun code => "exit code: " ++ toString code).toList
  "\n".intercalate parts

/-- The time of a row that has one of its own; a message may carry it instead. -/
def ownTimestamp (crates : Crates) (value : Json) : Option Nat :=
  let entry := entryTimestamp crates value
  if 0 < entry then some entry
  else if entryType value = "message" then
    let message := (value.get "message").filter Json.isObject
    let inner := (message.bind (·.get "timestamp")).map (timestampMillis crates)
    inner.filter (0 < ·)
  else none

def rowStamp (crates : Crates) (file : TranscriptFile) (header : Header) (value : Json) :
    Stamp where
  source := file.source
  ts := (ownTimestamp crates value).getD header.sessionTimestamp
  project := header.project
  sessionId := header.sessionId
  sourcePath := file.path

/-- The plaintext of a thinking block. -/
def thinkingText (block : Json) : Option String :=
  ((block.getStr "thinking").map trim).filter (· ≠ "")

/-- One block of an assistant message. -/
def draftBlock (crates : Crates) (file : TranscriptFile) (stamp : Stamp) (links : RecordLinks)
    (carried : Carried) (block : Json) : Drafted :=
  if !block.isObject then carried.silent
  else match (block.getStr "type").getD "" with
    | "thinking" =>
        match thinkingText block with
        | some thinking =>
            if file.includeReasoning then
              carried.emit
                { role := "reasoning", text := thinking
                  links := { links with eventId := links.eventId.map (· ++ ":reasoning") } }
            else carried.silent
        | none => carried.silent
    | "toolCall" =>
        let toolName := block.getStr "name"
        let toolInput := (block.get "arguments").map crates.render
        let toolCallId := block.getStr "id"
        let callLinks := match toolCallId with
          | some id => { links with eventId := some id, parentEventId := links.eventId }
          | none => links
        let carried := match toolCallId with
          | some id => carried.insertCall id
              (pendingToolCall crates toolName (some id) stamp.ts toolInput callLinks
                stamp.sessionId)
          | none => carried
        carried.emit
          { role := "tool_use", text := toolInput.getD "", toolName, toolInput
            links := callLinks }
    | _ => carried.silent

/-- A draft, unless its text is empty. -/
def draftText (carried : Carried) (text : String) (draft : Record) : Drafted :=
  if text = "" then carried.silent else carried.emit draft

/-- The blocks of an assistant message, then its text. -/
def draftConversation (crates : Crates) (file : TranscriptFile) (stamp : Stamp)
    (links : RecordLinks) (carried : Carried) (role : String) (content : Option Json) :
    Drafted :=
  let blocks := if role = "assistant" then (content.bind Json.asArray).getD [] else []
  let drafted := HeaderMachine.run (draftBlock crates file stamp links) carried blocks
  let text := trim (contentText crates content)
  let last := draftText drafted.1 text { role, text, links }
  (last.1, drafted.2 ++ last.2)

/-- The output of a tool result, marked when it is an error. -/
def toolResultText (crates : Crates) (message : Json) : String :=
  let output := contentText crates (message.get "content")
  let marked := "error".toList.isPrefixOf (output.toList.map Char.toLower)
  if ((message.get "isError").bind Json.asBool).getD false && !marked then "Error: " ++ output
  else output

def draftToolResult (crates : Crates) (links : RecordLinks) (carried : Carried)
    (message : Json) : Drafted :=
  let toolCallId := (message.getStr "toolCallId").getD ""
  let toolName := message.getStr "toolName" <|>
    (if toolCallId ≠ "" then carried.pendingToolName toolCallId else none)
  let carried := if toolCallId ≠ "" then carried.removeCall toolCallId else carried
  let text := toolResultText crates message
  let resultLinks := if toolCallId ≠ "" then
      { links with parentToolUseId := some toolCallId }
    else links
  carried.emitText text
    { role := "tool_result", text, toolName, toolOutput := some text, links := resultLinks }

def bashExecutionText (message : Json) : String :=
  bashText ((message.getStr "command").getD "") ((message.getStr "output").getD "")
    ((message.get "exitCode").bind Json.asI64)

def excludedFromContext (message : Json) : Bool :=
  ((message.get "excludeFromContext").bind Json.asBool).getD false

def draftBashExecution (links : RecordLinks) (carried : Carried) (message : Json) : Drafted :=
  if excludedFromContext message then carried.silent
  else
    let command := (message.getStr "command").getD ""
    let output := (message.getStr "output").getD ""
    let text := bashExecutionText message
    carried.emitText text
      { role := "tool_result", text, toolName := some "Bash"
        toolInput := if command = "" then none else some command
        toolOutput := if output = "" then none else some output
        links }

/-- The links of a message; a summary message belongs to a branch or a compaction. -/
def messageLinks (value : Json) (role : String) : RecordLinks :=
  let links := baseLinks value "main"
  match role with
  | "branchSummary" =>
      { links with threadSource := some "branch", conversationKind := some "branch" }
  | "compactionSummary" =>
      { links with threadSource := some "compaction", conversationKind := some "compaction" }
  | _ => links

def draftMessage (crates : Crates) (file : TranscriptFile) (stamp : Stamp) (carried : Carried)
    (value message : Json) : Drafted :=
  let role := (message.getStr "role").getD ""
  let links := messageLinks value role
  match role with
  | "user" => draftConversation crates file stamp links carried role (message.get "content")
  | "assistant" =>
      draftConversation crates file stamp links carried role (message.get "content")
  | "toolResult" => draftToolResult crates links carried message
  | "tool" => draftToolResult crates links carried message
  | "bashExecution" => draftBashExecution links carried message
  | _ =>
      if role = "custom" || role = "branchSummary" || role = "compactionSummary" then
        let text := summaryMessageText crates message role
        draftText carried text { role := "assistant", text := role ++ ": " ++ text, links }
      else carried.silent

def summaryText (value : Json) : String :=
  trim ((value.getStr "summary").getD "")

def customText (crates : Crates) (value : Json) : String :=
  trim (contentText crates (value.get "content"))

/-- The kind of a custom message, as its text names it. -/
def customPrefix (value : Json) : String :=
  let customType := (value.getStr "customType").getD ""
  if customType = "" then "custom_message" else "custom_message(" ++ customType ++ ")"

def draftRow (crates : Crates) (file : TranscriptFile) (stamp : Stamp) (carried : Carried)
    (value : Json) : Drafted :=
  if !value.isObject then carried.silent
  else match entryType value with
    | "compaction" =>
        draftText carried (summaryText value)
          { role := "assistant", text := "compaction: " ++ summaryText value
            links := baseLinks value "compaction" }
    | "branch_summary" =>
        draftText carried (summaryText value)
          { role := "assistant", text := "branch_summary: " ++ summaryText value
            links := baseLinks value "branch" }
    | "custom_message" =>
        draftText carried (customText crates value)
          { role := "assistant"
            text := customPrefix value ++ ": " ++ customText crates value
            links := baseLinks value "main" }
    | "message" =>
        match (value.get "message").filter Json.isObject with
        | some message => draftMessage crates file stamp carried value message
        | none => carried.silent
    | _ => carried.silent

/-- Whether a block of an assistant message has a record. -/
def blockEmits (file : TranscriptFile) (block : Json) : Bool :=
  block.isObject && match (block.getStr "type").getD "" with
    | "thinking" => file.includeReasoning && (thinkingText block).isSome
    | "toolCall" => true
    | _ => false

def conversationEmits (crates : Crates) (file : TranscriptFile) (role : String)
    (content : Option Json) : Bool :=
  (if role = "assistant" then (content.bind Json.asArray).getD [] else []).any
      (blockEmits file) ||
    trim (contentText crates content) ≠ ""

def messageEmits (crates : Crates) (file : TranscriptFile) (message : Json) : Bool :=
  let role := (message.getStr "role").getD ""
  match role with
  | "user" => conversationEmits crates file role (message.get "content")
  | "assistant" => conversationEmits crates file role (message.get "content")
  | "toolResult" => !isBlankText (toolResultText crates message)
  | "tool" => !isBlankText (toolResultText crates message)
  | "bashExecution" =>
      !excludedFromContext message && !isBlankText (bashExecutionText message)
  | _ =>
      (role = "custom" || role = "branchSummary" || role = "compactionSummary") &&
        summaryMessageText crates message role ≠ ""

/-- Whether a row has a record. -/
def rowEmits (crates : Crates) (file : TranscriptFile) (value : Json) : Bool :=
  value.isObject && match entryType value with
    | "compaction" => summaryText value ≠ ""
    | "branch_summary" => summaryText value ≠ ""
    | "custom_message" => customText crates value ≠ ""
    | "message" => ((value.get "message").filter Json.isObject).any (messageEmits crates file)
    | _ => false

variable {crates : Crates} {file : TranscriptFile} {stamp stamp' : Stamp}
  {carried carried' : Carried} {condition : Prop}

theorem draftText_same (h : Carried.Same carried carried') (text : String) (draft : Record) :
    SameDrafts condition (draftText carried text draft) (draftText carried' text draft) := by
  simp only [draftText]
  split
  · exact h.silent
  · exact h.emit fun _ => rfl

theorem draftText_eq_nil (carried : Carried) (text : String) (draft : Record) :
    (draftText carried text draft).2 = [] ↔ text = "" := by
  simp only [draftText]
  split
  · simp [Carried.silent, *]
  · simp [Carried.emit, *]

theorem draftBlock_same (h : Carried.Same carried carried') (links : RecordLinks)
    (block : Json) :
    SameDrafts condition (draftBlock crates file stamp links carried block)
      (draftBlock crates file stamp' links carried' block) := by
  simp only [draftBlock]
  split
  · exact h.silent
  · split
    · split
      · split
        · exact h.emit fun _ => rfl
        · exact h.silent
      · exact h.silent
    · split
      · refine Carried.Same.emit (h.insertCall _ ?_) fun _ => rfl
        rfl
      · exact h.emit fun _ => rfl
    · exact h.silent

theorem draftBlock_eq_nil (links : RecordLinks) (carried : Carried) (block : Json) :
    (draftBlock crates file stamp links carried block).2 = [] ↔ blockEmits file block = false := by
  simp only [draftBlock, blockEmits]
  cases hobject : block.isObject with
  | false => simp [Carried.silent]
  | true =>
      simp only [Bool.not_true, Bool.false_eq_true, if_false, Bool.true_and]
      split
      · cases thinkingText block with
        | none => simp [Carried.silent]
        | some thinking => cases file.includeReasoning <;> simp [Carried.silent, Carried.emit]
      · simp [Carried.emit]
      · simp [Carried.silent]

theorem draftConversation_same (h : Carried.Same carried carried') (links : RecordLinks)
    (role : String) (content : Option Json) :
    SameDrafts condition (draftConversation crates file stamp links carried role content)
      (draftConversation crates file stamp' links carried' role content) := by
  have hblocks : SameDrafts condition
      (HeaderMachine.run (draftBlock crates file stamp links) carried
        (if role = "assistant" then (content.bind Json.asArray).getD [] else []))
      (HeaderMachine.run (draftBlock crates file stamp' links) carried'
        (if role = "assistant" then (content.bind Json.asArray).getD [] else [])) :=
    SameDrafts.run (fun _ _ block hblock => draftBlock_same hblock links block) h _
  exact hblocks.append (draftText_same hblocks.carried _ _)

theorem draftConversation_eq_nil (links : RecordLinks) (carried : Carried) (role : String)
    (content : Option Json) :
    (draftConversation crates file stamp links carried role content).2 = [] ↔
      conversationEmits crates file role content = false := by
  simp only [draftConversation, conversationEmits, List.append_eq_nil_iff, draftText_eq_nil,
    run_drafts_eq_nil _ _ (draftBlock_eq_nil links), Bool.or_eq_false_iff]
  simp

theorem draftToolResult_same (h : Carried.Same carried carried') (links : RecordLinks)
    (message : Json) :
    SameDrafts condition (draftToolResult crates links carried message)
      (draftToolResult crates links carried' message) := by
  have hremoved : Carried.Same
      (if (message.getStr "toolCallId").getD "" ≠ "" then
        carried.removeCall ((message.getStr "toolCallId").getD "") else carried)
      (if (message.getStr "toolCallId").getD "" ≠ "" then
        carried'.removeCall ((message.getStr "toolCallId").getD "") else carried') := by
    split
    · exact h.removeCall _
    · exact h
  simp only [draftToolResult, h.pendingToolName_eq]
  exact hremoved.emitText _ fun _ => rfl

theorem draftToolResult_eq_nil (links : RecordLinks) (carried : Carried) (message : Json) :
    (draftToolResult crates links carried message).2 = [] ↔
      (!isBlankText (toolResultText crates message)) = false :=
  Carried.emitText_eq_nil _ _ _

theorem draftBashExecution_same (h : Carried.Same carried carried') (links : RecordLinks)
    (message : Json) :
    SameDrafts condition (draftBashExecution links carried message)
      (draftBashExecution links carried' message) := by
  simp only [draftBashExecution]
  split
  · exact h.silent
  · exact h.emitText _ fun _ => rfl

theorem draftBashExecution_eq_nil (links : RecordLinks) (carried : Carried) (message : Json) :
    (draftBashExecution links carried message).2 = [] ↔
      (!excludedFromContext message && !isBlankText (bashExecutionText message)) = false := by
  simp only [draftBashExecution]
  cases excludedFromContext message with
  | true => simp [Carried.silent]
  | false => simpa using Carried.emitText_eq_nil _ _ _

theorem draftMessage_same (h : Carried.Same carried carried') (value message : Json) :
    SameDrafts condition (draftMessage crates file stamp carried value message)
      (draftMessage crates file stamp' carried' value message) := by
  simp only [draftMessage]
  split
  · exact draftConversation_same h _ _ _
  · exact draftConversation_same h _ _ _
  · exact draftToolResult_same h _ _
  · exact draftToolResult_same h _ _
  · exact draftBashExecution_same h _ _
  · split
    · exact draftText_same h _ _
    · exact h.silent

theorem draftMessage_eq_nil (carried : Carried) (value message : Json) :
    (draftMessage crates file stamp carried value message).2 = [] ↔
      messageEmits crates file message = false := by
  simp only [draftMessage, messageEmits]
  split
  · exact draftConversation_eq_nil _ _ _ _
  · exact draftConversation_eq_nil _ _ _ _
  · exact draftToolResult_eq_nil _ _ _
  · exact draftToolResult_eq_nil _ _ _
  · exact draftBashExecution_eq_nil _ _ _
  · split
    · rename_i hrole
      simp [draftText_eq_nil, hrole]
    · rename_i hrole
      simp [Carried.silent, hrole]

theorem draftRow_same (h : Carried.Same carried carried') (value : Json) :
    SameDrafts condition (draftRow crates file stamp carried value)
      (draftRow crates file stamp' carried' value) := by
  simp only [draftRow]
  split
  · exact h.silent
  · split
    · exact draftText_same h _ _
    · exact draftText_same h _ _
    · exact draftText_same h _ _
    · split
      · exact draftMessage_same h _ _
      · exact h.silent
    · exact h.silent

theorem draftRow_eq_nil (carried : Carried) (value : Json) :
    (draftRow crates file stamp carried value).2 = [] ↔ rowEmits crates file value = false := by
  simp only [draftRow, rowEmits]
  cases hobject : value.isObject with
  | false => simp [Carried.silent]
  | true =>
      simp only [Bool.not_true, Bool.false_eq_true, if_false, Bool.true_and]
      split
      · simp [draftText_eq_nil]
      · simp [draftText_eq_nil]
      · simp [draftText_eq_nil]
      · cases (value.get "message").filter Json.isObject with
        | none => simp [Carried.silent]
        | some message => simpa using draftMessage_eq_nil carried value message
      · simp [Carried.silent]

/-- The rows of a transcript. -/
def rowDrafts (crates : Crates) (file : TranscriptFile) : RowDrafts Json Header where
  advance := applySessionHeader crates
  stamp := rowStamp crates file
  drafts := draftRow crates file
  emits := rowEmits crates file
  drafts_same _ _ _ _ value h := draftRow_same h value
  drafts_eq_nil _ carried value := draftRow_eq_nil carried value

/-- The header a resumed run starts with: of the skipped prefix it reads the first
line of the file. -/
def recoverHeader (crates : Crates) (reader : LineReader Json) (file : TranscriptFile)
    (bytes : Bytes) (start : Nat) : Header :=
  let fallback := Header.ofPath file.path
  if 0 < start && !bytes.isEmpty then
    let line := bytes.takeWhile (· != newline)
    if line = [] then fallback
    else match reader.read line with
      | some value => applySessionHeader crates fallback value
      | none => fallback
  else fallback

/-- The row of the first line, when that line holds one. -/
def firstLineRows (rows : List (Nat × Json)) : List (Nat × Json) :=
  rows.filter (·.1 = 0)

/-- The parser of the three sources. -/
def parser (crates : Crates) (reader : LineReader Json) (file : TranscriptFile) :
    ResumedParser Json Header Carried where
  reader := reader
  machine := (rowDrafts crates file).machine
  sessionId := Header.sessionId
  recover := recoverHeader crates reader file
  resume rows := (firstLineRows rows).foldl
    (fun header row => applySessionHeader crates header row.2) (Header.ofPath file.path)
  recover_eq bytes start hclean hresumable := by
    simp only [recoverHeader, firstLineRows]
    rcases Nat.eq_zero_or_pos start with rfl | hpos
    · simp
    · have hbytes : bytes.isEmpty = false := by
        have hle := hresumable.le_length
        cases bytes with
        | nil => simp at hle; omega
        | cons byte rest => rfl
      have hfirst := hclean.settles.first_row hresumable hpos
      rw [LineReader.rows] at hfirst
      rw [hfirst]
      simp only [hpos, hbytes, decide_true, Bool.not_false, Bool.and_self, if_true]
      split
      · rename_i hline
        simp [hline]
      · cases reader.read (bytes.takeWhile (· != newline)) <;> simp

/-- `parse_index_records_for`. -/
def parseIndexRecordsFor (crates : Crates) (reader : LineReader Json) (file : TranscriptFile) :
    Bytes → IndexParseState Carried → IndexParseOutput Carried :=
  (parser crates reader file).parse

/-! ## Parsing append by append -/

/-- A field a later row relies on: either a session row of the same append has set
it, or the first line of the file sets what the skipped rows had set. -/
def FirstLineDecides {β : Type} (rule : Json → Option β) (fallback : β)
    (old since : List (Nat × Json)) : Prop :=
  HeaderMachine.lastSet (fun row => rule row.2) since = none →
    inForce rule fallback (firstLineRows old) = inForce rule fallback old

/-- Whenever a row of an append has records, the first line decides the session and
the project, and the session time if the row has no time of its own. -/
def SessionHeadersRecovered (crates : Crates) (reader : LineReader Json)
    (file : TranscriptFile) (chunks : List Bytes) : Prop :=
  ∀ (before : List Bytes) chunk after, chunks = before ++ chunk :: after →
    ∀ since row rest, reader.freshRows before.flatten chunk = since ++ row :: rest →
      rowEmits crates file row.2 = true →
        FirstLineDecides namedSession (sessionIdFromPath file.path)
            (reader.rows before.flatten) since ∧
          FirstLineDecides namedProject (projectFromDirectory file.path)
            (reader.rows before.flatten) since ∧
          (ownTimestamp crates row.2 = none →
            FirstLineDecides (namedTimestamp crates) 0 (reader.rows before.flatten) since)

theorem rowStamp_eq_iff (left right : Header) (value : Json) :
    rowStamp crates file left value = rowStamp crates file right value ↔
      left.sessionId = right.sessionId ∧ left.project = right.project ∧
        (ownTimestamp crates value = none → left.sessionTimestamp = right.sessionTimestamp) := by
  simp only [rowStamp, Stamp.mk.injEq, true_and, and_true]
  cases ownTimestamp crates value with
  | none => simp; tauto
  | some time => simp; tauto

theorem isSession_of_emits {value : Json} (h : rowEmits crates file value = true) :
    isSession value = false := by
  cases hsession : isSession value with
  | false => rfl
  | true =>
      simp only [isSession, Bool.and_eq_true, decide_eq_true_eq] at hsession
      simp [rowEmits, hsession.2] at h

theorem headerHolds_iff (crates : Crates) (reader : LineReader Json) (file : TranscriptFile)
    (chunks : List Bytes) :
    (parser crates reader file).HeaderHolds chunks ↔
      SessionHeadersRecovered crates reader file chunks := by
  have hsession : ∀ (header : Header) (rows : List (Nat × Json)),
      (rows.foldl (fun header row => applySessionHeader crates header row.2) header).sessionId =
        inForce namedSession header.sessionId rows :=
    HeaderMachine.foldl_field Header.sessionId _ fun _ _ => rfl
  have hproject : ∀ (header : Header) (rows : List (Nat × Json)),
      (rows.foldl (fun header row => applySessionHeader crates header row.2) header).project =
        inForce namedProject header.project rows :=
    HeaderMachine.foldl_field Header.project _ fun _ _ => rfl
  have htime : ∀ (header : Header) (rows : List (Nat × Json)),
      (rows.foldl (fun header row => applySessionHeader crates header row.2)
          header).sessionTimestamp =
        inForce (namedTimestamp crates) header.sessionTimestamp rows :=
    HeaderMachine.foldl_field Header.sessionTimestamp _ fun _ _ => rfl
  refine forall_congr' fun before => forall_congr' fun chunk => forall_congr' fun after =>
    imp_congr_right fun _ => forall_congr' fun since => forall_congr' fun row =>
      forall_congr' fun rest => imp_congr_right fun _ => imp_congr_right fun hemits => ?_
  have hnot := isSession_of_emits hemits
  have hnamed : namedSession row.2 = none := by simp [namedSession, hnot]
  have hnamedProject : namedProject row.2 = none := by simp [namedProject, hnot]
  have hnamedTime : namedTimestamp crates row.2 = none := by simp [namedTimestamp, hnot]
  have hadvance : ∀ header rows, (parser crates reader file).machine.advanceAll header rows =
      rows.foldl (fun header row => applySessionHeader crates header row.2) header :=
    fun _ _ => rfl
  have hresume : ∀ rows, (parser crates reader file).resume rows =
      (firstLineRows rows).foldl (fun header row => applySessionHeader crates header row.2)
        (Header.ofPath file.path) :=
    fun _ => rfl
  refine (rowStamp_eq_iff _ _ row.2).trans ?_
  simp only [hadvance, hsession, hproject, htime]
  refine and_congr ?_ (and_congr ?_ (imp_congr_right fun _ => ?_))
  · refine (lastSet_getD_eq_iff _ since hnamed _ _).trans (imp_congr_right fun _ => ?_)
    rw [hresume, hresume, hsession, hsession]
    rfl
  · refine (lastSet_getD_eq_iff _ since hnamedProject _ _).trans
      (imp_congr_right fun _ => ?_)
    rw [hresume, hresume, hproject, hproject]
    rfl
  · refine (lastSet_getD_eq_iff _ since hnamedTime _ _).trans
      (imp_congr_right fun _ => ?_)
    rw [hresume, hresume, htime, htime]
    rfl

/-- A file whose session row stands on the second line. -/
def lateSessionValues : List Json :=
  [.object [("type", .string "label")],
   .object [("type", .string "session"), ("id", .string "s2")],
   .object [("type", .string "message"),
    ("message", .object [("role", .string "user"), ("content", .string "hi")])]]

theorem lateSession_clean :
    (listedReader lateSessionValues).Clean (valueLines lateSessionValues).flatten := by
  apply clean_valueLines
  · simp only [asciiBytes, toList_compact]
    decide +kernel
  · simp only [asciiBytes, toList_compact]
    decide +kernel

/-- Parsing a transcript append by append emits what one parse emits exactly when the
first line decides every header field that a later record relies on. -/
theorem pi_append_records_iff (crates : Crates) (reader : LineReader Json)
    (file : TranscriptFile) (chunks : List Bytes) (hclean : reader.Clean chunks.flatten) :
    appendRecords (parseIndexRecordsFor crates reader file) [] { carried := {} } chunks =
        (parseIndexRecordsFor crates reader file chunks.flatten { carried := {} }).records ↔
      SessionHeadersRecovered crates reader file chunks :=
  ((parser crates reader file).appendRecords_eq_parse_iff {} hclean).trans
    (headerHolds_iff crates reader file chunks)

theorem pi_append_records_iff_late_session :
    appendRecords (parseIndexRecordsFor plainCrates (listedReader lateSessionValues)
        ⟨"/s/x.jsonl", .pi, false⟩) [] { carried := {} } (valueLines lateSessionValues) =
        (parseIndexRecordsFor plainCrates (listedReader lateSessionValues)
          ⟨"/s/x.jsonl", .pi, false⟩ (valueLines lateSessionValues).flatten
          { carried := {} }).records ↔
      SessionHeadersRecovered plainCrates (listedReader lateSessionValues)
        ⟨"/s/x.jsonl", .pi, false⟩ (valueLines lateSessionValues) :=
  pi_append_records_iff _ _ _ _ lateSession_clean

/-- Appended line by line the message is filed under the path; one parse files it under
the session of the second line. -/
theorem pi_late_session_diverges :
    (listedReader lateSessionValues).Clean (valueLines lateSessionValues).flatten ∧
      appendRecords (parseIndexRecordsFor plainCrates (listedReader lateSessionValues)
          ⟨"/s/x.jsonl", .pi, false⟩) [] { carried := {} } (valueLines lateSessionValues) ≠
        (parseIndexRecordsFor plainCrates (listedReader lateSessionValues)
          ⟨"/s/x.jsonl", .pi, false⟩ (valueLines lateSessionValues).flatten
          { carried := {} }).records := by
  apply And.intro lateSession_clean
  simp only [listedReader, valueLines, asciiBytes, toList_compact]
  decide +kernel

end Memex.Sources.Pi
