import Memex.Sources.Jsonl

/-! # Claude transcripts

`sources/claude.rs`: a transcript is a background session when one of its lines
says so. The classification belongs to the whole file and stands on every record;
a run never reads past the size that discovery saw. -/

namespace Memex.Sources.Claude

open Overlay State LineStream

/-- The JSON reader of the two crates, with the end-of-input errors of one of them:
`truncated` texts may become values. A text that fails otherwise stays no value. -/
structure TranscriptReader extends LineReader Json where
  truncated : Bytes → Bool
  read_rejected : ∀ text more : Bytes, read text = none → truncated text = false →
    read (text ++ more) = none

/-- The transcript. The project is what the encoded directory decodes to. -/
structure TranscriptFile where
  path : String
  project : String
  includeReasoning : Bool
  deriving DecidableEq, Repr

def sessionIdFromPath (path : String) : String :=
  (((fileName (pathComponents path)).map fileStem).filter (· ≠ "")).getD "unknown"

def isSubagentPath (path : String) : Bool :=
  "agent-".toList.isPrefixOf (sessionIdFromPath path).toList ||
    (pathComponents path).contains "subagents"

/-- `line_has_background_session_kind`, for the value of a line. -/
def isBackgroundMarker (value : Json) : Bool :=
  value.getStr "sessionKind" = some "bg"

/-- Whether a line of the bytes marks a background session. -/
def hasBackgroundLine (reader : LineReader Json) (bytes : Bytes) : Bool :=
  (bytes.splitOn newline).any fun line => (reader.read line).any isBackgroundMarker

/-- `has_background_session_kind_since`: only the bytes between the offset and the
boundary are read. -/
def hasBackgroundSessionKindSince (reader : LineReader Json) (bytes : Bytes)
    (offset byteBoundary : Nat) : Bool :=
  let stop := min byteBoundary bytes.length
  hasBackgroundLine reader ((bytes.take stop).drop (min offset stop))

def classifyWithSessionKind (path : String) (isSidechain isBackground : Bool) : String :=
  if isBackground || isSubagentPath path then "subagent"
  else if isSidechain then "sidechain"
  else "main"

/-- What a run hands to the next one besides the offset. -/
structure Numbering where
  turnId : Nat := 0
  legacyTurnId : Nat := 0
  pendingToolCalls : Table String PendingToolCall := ∅
  deriving DecidableEq

/-- Emit a record under the next turn id. Records without a source offset are
numbered by the legacy ordinal too. -/
def Numbering.emit (numbering : Numbering) (record : Record) : Numbering × List Record :=
  let numbered := record.links.sourceRecordOffset.isNone
  let links := if numbered then
      { record.links with legacyTurnId := some numbering.legacyTurnId }
    else record.links
  ({ numbering with
      turnId := succU32 numbering.turnId
      legacyTurnId := if numbered then succU32 numbering.legacyTurnId else numbering.legacyTurnId },
    [{ record with turnId := numbering.turnId, links }])

def entryType (value : Json) : String :=
  (value.getStr "type").getD ""

def entryTimestamp (crates : Crates) (value : Json) : Nat :=
  ((value.getStr "timestamp").bind (parseIsoMillis crates)).getD 0

def entryLinks (file : TranscriptFile) (background : Bool) (value : Json) : RecordLinks :=
  let sidechain := ((value.get "isSidechain").bind Json.asBool).getD false
  let kind := classifyWithSessionKind file.path sidechain background
  { eventId := value.getStr "uuid"
    parentEventId := value.getStr "parentUuid"
    logicalParentEventId := value.getStr "logicalParentUuid"
    parentSessionId := if isSubagentPath file.path then value.getStr "sessionId" else none
    threadSource := if kind = "main" then none else some kind
    conversationKind := some kind
    parentToolUseId := value.getStr "parentToolUseID"
    sourceToolUseId := value.getStr "sourceToolUseID"
    sourceToolAssistantUuid := value.getStr "sourceToolAssistantUUID" }

/-- The fields all records of an entry share. -/
def entryRecord (crates : Crates) (file : TranscriptFile) (value : Json) (draft : Record) :
    Record :=
  { draft with
    source := .claude
    ts := entryTimestamp crates value
    project := file.project
    sessionId := sessionIdFromPath file.path
    sourcePath := file.path }

def toolValueText (crates : Crates) (value : Json) : String :=
  value.asStr.getD (crates.render value)

def toolResultText (block : Json) : Option String :=
  (block.get "content").bind fun content =>
    match content with
    | .string text => some text
    | .array items =>
        let parts := items.filterMap fun item => item.getStr "text"
        if parts = [] then none else some ("\n".intercalate parts)
    | _ => none

def blockType (block : Json) : String :=
  (block.getStr "type").getD ""

/-- One block of a content array, with its index among the object blocks. -/
def parseBlock (crates : Crates) (file : TranscriptFile) (background : Bool) (value : Json)
    (numbering : Numbering) (block : Json × Nat) : Numbering × List Record :=
  let links := entryLinks file background value
  match blockType block.1 with
  | "tool_use" =>
      let toolName := block.1.getStr "name"
      let toolInput := (block.1.get "input").map (toolValueText crates)
      let toolId := block.1.getStr "id"
      let callLinks := match toolId with
        | some id => { links with eventId := some id, parentEventId := value.getStr "uuid" }
        | none => links
      let called := match toolId with
        | some id =>
            { numbering with
              pendingToolCalls := numbering.pendingToolCalls.insert id
                (pendingToolCall crates toolName (some id) (entryTimestamp crates value) toolInput
                  callLinks (sessionIdFromPath file.path)) }
        | none => numbering
      called.emit (entryRecord crates file value
        { role := "tool_use", text := toolInput.getD "", toolName, toolInput
          links := callLinks })
  | "thinking" =>
      match ((block.1.getStr "thinking").map trim).filter (· ≠ "") with
      | some thinking =>
          if file.includeReasoning then
            numbering.emit (entryRecord crates file value
              { role := "reasoning", text := thinking
                links := { links with
                  eventId := (value.getStr "uuid").map fun uuid =>
                    uuid ++ ":reasoning:" ++ toString block.2 } })
          else (numbering, [])
      | none => (numbering, [])
  | _ => (numbering, [])

/-- A tool result of a user entry. -/
def parseToolResult (crates : Crates) (file : TranscriptFile) (background : Bool) (value : Json)
    (numbering : Numbering) (block : Json) : Numbering × List Record :=
  if !block.isObject || blockType block ≠ "tool_result" then (numbering, [])
  else
    let links := entryLinks file background value
    let toolOutput := (block.get "content").map (toolValueText crates)
    let text := (toolResultText block).getD ""
    let text := if text = "" then toolOutput.getD "" else text
    let toolUseId := block.getStr "tool_use_id"
    let pending := toolUseId.bind fun id => numbering.pendingToolCalls.lookup id
    let answered := match toolUseId with
      | some id => { numbering with pendingToolCalls := numbering.pendingToolCalls.erase id }
      | none => numbering
    let resultLinks := { links with
      toolResultIsError := (block.get "is_error").bind Json.asBool }
    let resultLinks := match toolUseId with
      | some id =>
          { resultLinks with
            eventId := (value.getStr "uuid").map fun uuid => uuid ++ ":tool_result:" ++ id
            parentEventId := some id
            parentToolUseId := some id }
      | none => resultLinks
    answered.emit (entryRecord crates file value
      { role := "tool_result", text, toolName := pending.bind PendingToolCall.toolName
        toolOutput, links := resultLinks })

/-- The text blocks of a message. -/
def textParts (content : Option Json) : List String :=
  match content with
  | some (.string text) => [text]
  | some (.array blocks) => blocks.filterMap fun block =>
      if block.isObject && blockType block = "text" then block.getStr "text" else none
  | _ => []

/-- The attachments of a message with its text blocks, as they are displayed. -/
def sourceContent (crates : Crates) (content : Option Json) : Option String :=
  let blocks := (content.bind Json.asArray).getD []
  if blocks.any fun block => blockType block = "image" || blockType block = "document" then
    some (crates.render (.array (blocks.filter fun block =>
      blockType block = "text" || blockType block = "image" || blockType block = "document")))
  else none

/-- The text of an entry, or its attachments under the offset of its line. -/
def parseText (crates : Crates) (file : TranscriptFile) (background : Bool) (offset : Nat)
    (value : Json) (content : Option Json) (numbering : Numbering) : Numbering × List Record :=
  let text := trim (" ".intercalate (textParts content))
  let shown := sourceContent crates content
  if text ≠ "" || shown.isSome then
    numbering.emit (entryRecord crates file value
      { role := entryType value, text
        links := { entryLinks file background value with
          sourceContent := shown
          sourceRecordOffset := if text = "" then some offset else none } })
  else (numbering, [])

/-- One row: its blocks, then its tool results, then its text. -/
def parseRow (crates : Crates) (file : TranscriptFile) (background : Bool)
    (numbering : Numbering) (row : Nat × Json) : Numbering × List Record :=
  let value := row.2
  let isEntry : Bool :=
    value.isObject && (entryType value = "user" || entryType value = "assistant")
  match (if isEntry then (value.get "message").filter Json.isObject else none) with
  | none => (numbering, [])
  | some message =>
      let content := message.get "content"
      let blocks := (content.bind Json.asArray).getD []
      let drafted := HeaderMachine.run (parseBlock crates file background value) numbering
        (blocks.filter Json.isObject).zipIdx
      let answered := HeaderMachine.run (parseToolResult crates file background value) drafted.1
        (if entryType value = "user" then blocks else [])
      let last := parseText crates file background row.1 value content answered.1
      (last.1, drafted.2 ++ answered.2 ++ last.2)

/-- What a run returns: where it stopped, its state, its records and the
classification it put on them. -/
structure ClaudeOutput where
  offset : Nat
  numbering : Numbering
  records : List Record
  background : Bool

/-- The rule for an unterminated tail: it is left when the file has grown past the
boundary, and when it may still become a value. -/
def leavesTail (reader : TranscriptReader) (bytes : Bytes) (byteBoundary : Nat) (tail : Bytes) :
    Bool :=
  byteBoundary < bytes.length || ((reader.read tail).isNone && reader.truncated tail)

/-- `parse_index_records_with_background` over the mapped bytes. -/
def parseIndexRecordsWithBackground (crates : Crates) (reader : TranscriptReader)
    (file : TranscriptFile) (bytes : Bytes) (offset : Nat) (numbering : Numbering)
    (knownBackground : Option Bool) (byteBoundary : Nat) : ClaudeOutput :=
  let mapped := bytes.take byteBoundary
  let background := knownBackground.getD (hasBackgroundLine reader.toLineReader mapped)
  let scanned := scan reader.toLineReader (leavesTail reader bytes byteBoundary)
    (parseRow crates file background) mapped.length offset (mapped.drop offset) numbering
  { offset := scanned.offset
    numbering := scanned.state
    records := scanned.emitted
    background }

/-! ## What a run consumes -/

/-- A piece of a line that is no value whatever follows it. -/
def Spoilt (reader : TranscriptReader) (line : Bytes) : Prop :=
  ∃ text more, line = text ++ more ∧ reader.read text = none ∧ reader.truncated text = false

/-- A piece of a line that a run consumes. -/
def Consumed (reader : TranscriptReader) (line : Bytes) : Prop :=
  reader.Reads line ∨ Spoilt reader line

/-- No line holds a value followed by bytes that are not blank, or a value behind bytes
that spoil the line. -/
def Sound (reader : TranscriptReader) (bytes : Bytes) : Prop :=
  reader.Clean bytes ∧
    ∀ head line rest more : Bytes, bytes = head ++ line ++ rest ++ more → Aligned head →
      newline ∉ line → newline ∉ rest → Spoilt reader line → reader.read rest = none

variable {crates : Crates} {reader : TranscriptReader} {file : TranscriptFile}

theorem Spoilt.append {line : Bytes} (h : Spoilt reader line) (rest : Bytes) :
    Spoilt reader (line ++ rest) := by
  obtain ⟨text, more, rfl, hread, htruncated⟩ := h
  exact ⟨text, more ++ rest, by simp, hread, htruncated⟩

theorem Spoilt.read_eq_none {line : Bytes} (h : Spoilt reader line) : reader.read line = none := by
  obtain ⟨text, more, rfl, hread, htruncated⟩ := h
  exact reader.read_rejected text more hread htruncated

theorem Sound.of_append {bytes more : Bytes} (h : Sound reader (bytes ++ more)) :
    Sound reader bytes := by
  refine ⟨h.1.of_append, ?_⟩
  intro head line rest behind hbytes
  refine h.2 head line rest (behind ++ more) ?_
  rw [hbytes]
  simp

theorem Sound.take {bytes : Bytes} (h : Sound reader bytes) (length : Nat) :
    Sound reader (bytes.take length) := by
  rw [← List.take_append_drop length bytes] at h
  exact h.of_append

theorem Sound.settles {bytes : Bytes} (h : Sound reader bytes) :
    reader.Settles (Consumed reader) bytes := by
  have hclean := h.1.settles
  constructor
  · intro head line rest more hbytes hhead hline hrest hconsumed
    obtain hreads | hspoilt := hconsumed
    · exact hclean.read_append head line rest more hbytes hhead hline hrest hreads
    · rw [(hspoilt.append rest).read_eq_none, hspoilt.read_eq_none]
  · intro head line rest more hbytes hhead hline hrest hconsumed
    obtain hreads | hspoilt := hconsumed
    · exact hclean.read_rest head line rest more hbytes hhead hline hrest hreads
    · exact h.2 head line rest more hbytes hhead hline hrest hspoilt
  · intro head line rest more hbytes hhead hline hrest hconsumed
    obtain hreads | hspoilt := hconsumed
    · exact Or.inl (hclean.extend head line rest more hbytes hhead hline hrest hreads)
    · exact Or.inr (hspoilt.append rest)

/-- A transcript whose lines read or are cut short wherever they end is sound. -/
theorem sound_of_lines {bytes : Bytes}
    (h : ∀ line ∈ bytes.splitOn newline, ∀ length ≤ line.length,
      ((reader.read (line.take length)).isSome ∧ (line.drop length).all isBlank) ∨
        ((reader.read (line.take length)).isNone ∧ reader.truncated (line.take length))) :
    Sound reader bytes := by
  constructor
  · refine LineReader.clean_of_lines fun line hmem length hle hsome => ?_
    obtain ⟨-, hblank⟩ | ⟨hnone, -⟩ := h line hmem length hle
    · exact hblank
    · rw [Option.isNone_iff_eq_none] at hnone
      simp [hnone] at hsome
  · rintro head line rest more hbytes hhead hline hrest ⟨text, behind, rfl, hread, htruncated⟩
    exfalso
    have htext : newline ∉ text := fun hmem => hline (List.mem_append_left behind hmem)
    obtain ⟨later, hmem⟩ :=
      exists_mem_splitOn (by simpa [List.append_assoc] using hbytes) hhead htext
    obtain ⟨hsome, -⟩ | ⟨-, htrue⟩ := h _ hmem text.length (by simp)
    · simp [hread] at hsome
    · simp [htruncated] at htrue

theorem exists_rdropWhile_append (p : UInt8 → Bool) (bytes : Bytes) :
    ∃ dropped, bytes = bytes.rdropWhile p ++ dropped ∧ dropped.all p = true := by
  refine ⟨bytes.rtakeWhile p, ?_, ?_⟩
  · rw [List.rdropWhile, List.rtakeWhile, ← List.reverse_append, List.takeWhile_append_dropWhile,
      List.reverse_reverse]
  · rw [List.rtakeWhile, List.all_reverse, List.all_takeWhile]

/-- A reader that knows the listed values by their texts, and takes each beginning of
such a text for one that was cut short. -/
def listedTranscripts (values : List Json) : TranscriptReader where
  toLineReader := listedReader values
  truncated text := values.any fun value => text.isPrefixOf (asciiBytes value.compact)
  read_rejected text more hread htruncated := by
    by_contra hsome
    obtain ⟨value, hvalue⟩ := Option.ne_none_iff_exists'.mp hsome
    obtain ⟨blanks, hsplit, hblanks⟩ := exists_rdropWhile_append isBlank (text ++ more)
    have hcoreRead : (listedReader values).read ((text ++ more).rdropWhile isBlank) =
        some value := by
      rw [← hvalue]
      simp only [listedReader, List.rdropWhile_idempotent]
    generalize hcore : (text ++ more).rdropWhile isBlank = core at hsplit hcoreRead
    obtain ⟨-, known, hknown, hbytes⟩ := listedReader_eq_some hvalue
    rw [hcore] at hbytes
    obtain hshort | hlong := List.prefix_or_prefix_of_prefix (List.prefix_append text more)
      (hsplit ▸ List.prefix_append core blanks)
    · -- the text begins a listed one
      have htrue : (values.any fun value => text.isPrefixOf (asciiBytes value.compact)) = true :=
        List.any_eq_true.mpr ⟨known, hknown, by
          rw [hbytes]
          exact List.isPrefixOf_iff_prefix.mpr hshort⟩
      rw [htrue] at htruncated
      cases htruncated
    · -- the text is a listed one up to blanks
      obtain ⟨rest, rfl⟩ := hlong
      have hrest : rest.all isBlank = true := by
        rw [List.append_assoc, List.append_cancel_left_eq] at hsplit
        rw [← hsplit, List.all_append, Bool.and_eq_true] at hblanks
        exact hblanks.1
      rw [(listedReader values).read_trailing core rest value hcoreRead hrest] at hread
      cases hread

theorem hasBackgroundLine_eq (reader : LineReader Json) (start : Nat) (bytes : Bytes) :
    hasBackgroundLine reader bytes =
      (reader.rowsFrom start bytes).any fun row => isBackgroundMarker row.2 :=
  reader.any_splitOn_eq_any_rowsFrom isBackgroundMarker start bytes

/-- The markers before and behind an offset that a run resumes from. -/
theorem hasBackgroundLine_split {bytes : Bytes} {offset : Nat} (hsound : Sound reader bytes)
    (h : Resumable (Consumed reader) bytes offset) :
    hasBackgroundLine reader.toLineReader bytes =
      (hasBackgroundLine reader.toLineReader (bytes.take offset) ||
        hasBackgroundLine reader.toLineReader (bytes.drop offset)) := by
  rw [hasBackgroundLine_eq _ 0, hasBackgroundLine_eq _ 0, hasBackgroundLine_eq _ offset,
    hsound.settles.rowsFrom_eq h 0, List.any_append, Nat.zero_add]

/-- A marker is still one when the transcript goes on behind it. -/
theorem hasBackgroundLine_append {bytes more : Bytes} (hsound : Sound reader (bytes ++ more))
    (h : hasBackgroundLine reader.toLineReader bytes = true) :
    hasBackgroundLine reader.toLineReader (bytes ++ more) = true := by
  obtain ⟨head, line, rfl, hhead, hline⟩ := exists_aligned_append bytes
  rw [hasBackgroundLine_eq _ 0, LineReader.rowsFrom_aligned _ hhead, List.any_append,
    Bool.or_eq_true] at h
  rw [hasBackgroundLine_eq _ 0, List.append_assoc, LineReader.rowsFrom_aligned _ hhead,
    List.any_append, Bool.or_eq_true]
  refine h.imp_right fun hmarked => ?_
  have hreads : reader.Reads line := by
    rw [LineReader.rowsFrom_line _ _ hline] at hmarked
    cases hvalue : reader.read line with
    | none => simp [hvalue] at hmarked
    | some value => simp [LineReader.Reads, hvalue]
  rw [hsound.1.settles.rowsFrom_append rfl hhead hline hreads, List.any_append, hmarked,
    Bool.true_or]

/-- The rows a run is fed when it starts from nothing. -/
def feed (crates : Crates) (file : TranscriptFile) (background : Bool)
    (rows : List (Nat × Json)) : Numbering × List Record :=
  HeaderMachine.run (parseRow crates file background) {} rows

@[simp] theorem feed_nil (background : Bool) : feed crates file background [] = ({}, []) := rfl

variable (crates reader file) in
/-- A parse of all given bytes feeds all their rows. -/
theorem records_parse_all (bytes : Bytes) (known : Option Bool) :
    (parseIndexRecordsWithBackground crates reader file bytes 0 {} known bytes.length).records =
      (feed crates file (known.getD (hasBackgroundLine reader.toLineReader bytes))
        (reader.rowsFrom 0 bytes)).2 := by
  have hscan := scan_spec reader.toLineReader (leavesTail reader bytes bytes.length)
    (parseRow crates file (known.getD (hasBackgroundLine reader.toLineReader bytes)))
    bytes.length 0 bytes {} le_rfl
  simp only [parseIndexRecordsWithBackground, List.take_length, List.drop_zero]
  generalize scan _ _ _ _ _ _ _ = scanned at hscan
  obtain ⟨whole, tail, hbytes, hwhole, htail, houtcome⟩ := hscan
  obtain ⟨-, -, hrun⟩ | ⟨-, hleft, hrun⟩ := houtcome
  · exact congrArg Prod.snd hrun
  · have hnone : reader.read tail = none := by
      simp only [leavesTail, lt_irrefl, decide_false, Bool.false_or, Bool.and_eq_true,
        Option.isNone_iff_eq_none] at hleft
      exact hleft.1
    have htailRows : reader.rowsFrom (0 + whole.length) tail = [] := by
      rw [LineReader.rowsFrom_line _ _ htail, hnone]
      rfl
    have hrows : reader.rowsFrom 0 bytes = reader.rowsFrom 0 whole := by
      rw [hbytes, LineReader.rowsFrom_aligned _ hwhole, htailRows, List.append_nil]
    rw [hrows]
    exact congrArg Prod.snd hrun

variable (crates file) in
/-- A run from a resumable offset stops at another one, behind the whole lines, and feeds
the rows between. -/
theorem parse_from (bytes : Bytes) (offset : Nat) (numbering : Numbering) (known : Option Bool)
    (byteBoundary : Nat) (hle : byteBoundary ≤ bytes.length)
    (hsound : Sound reader (bytes.take byteBoundary))
    (h : Resumable (Consumed reader) (bytes.take byteBoundary) offset) :
    let output := parseIndexRecordsWithBackground crates reader file bytes offset numbering known
      byteBoundary
    output.background =
        known.getD (hasBackgroundLine reader.toLineReader (bytes.take byteBoundary)) ∧
      offset ≤ output.offset ∧ output.offset ≤ byteBoundary ∧
      Resumable (Consumed reader) (bytes.take byteBoundary) output.offset ∧
      newline ∉ (bytes.take byteBoundary).drop output.offset ∧
      ∃ rows, reader.rowsFrom 0 (bytes.take output.offset) =
          reader.rowsFrom 0 (bytes.take offset) ++ rows ∧
        (output.numbering, output.records) =
          HeaderMachine.run (parseRow crates file output.background) numbering rows := by
  have hlength : (bytes.take byteBoundary).length = byteBoundary := by
    rw [List.length_take]
    omega
  have hoffset : offset ≤ byteBoundary := hlength ▸ h.le_length
  have hscan := scan_spec reader.toLineReader (leavesTail reader bytes byteBoundary)
    (parseRow crates file
      (known.getD (hasBackgroundLine reader.toLineReader (bytes.take byteBoundary))))
    (bytes.take byteBoundary).length offset ((bytes.take byteBoundary).drop offset) numbering
    (by simp)
  simp only [parseIndexRecordsWithBackground]
  generalize scan _ _ _ _ _ _ _ = scanned at hscan
  obtain ⟨whole, tail, hdrop, hwhole, htail, houtcome⟩ := hscan
  have hslice : ((bytes.take byteBoundary).drop offset).length = byteBoundary - offset := by
    rw [List.length_drop, hlength]
  have htakes : ∀ length ≤ byteBoundary, (bytes.take byteBoundary).take length =
      bytes.take length := by
    intro length hlen
    rw [List.take_take, Nat.min_eq_left hlen]
  obtain ⟨hend, hconsumed, hrun⟩ | ⟨hstop, -, hrun⟩ := houtcome
  · have hstopped : scanned.offset = byteBoundary := by omega
    have hpiece : tail = [] ∨ Consumed reader tail := by
      refine hconsumed.imp_right fun hkept => ?_
      simp only [leavesTail, Bool.or_eq_false_iff, Bool.and_eq_false_iff] at hkept
      obtain ⟨-, hread | htruncated⟩ := hkept
      · exact Or.inl (by simpa [LineReader.Reads] using hread)
      · cases hvalue : reader.read tail with
        | none => exact Or.inr ⟨tail, [], by simp, hvalue, htruncated⟩
        | some value => exact Or.inl (by simp [LineReader.Reads, hvalue])
    have hresumable := hsound.settles.resumable_end h hdrop hwhole htail hpiece
    rw [hlength] at hresumable
    have hrows := hsound.settles.rowsFrom_eq h 0
    rw [htakes offset hoffset, Nat.zero_add] at hrows
    have hnothing : (bytes.take byteBoundary).drop byteBoundary = [] :=
      List.drop_eq_nil_of_le hlength.le
    rw [hstopped, hnothing]
    exact ⟨trivial, hoffset, le_rfl, hresumable, List.not_mem_nil, _, hrows, hrun⟩
  · have hwholeLe : offset + whole.length ≤ byteBoundary := by
      have hlen := congrArg List.length hdrop
      rw [hslice, List.length_append] at hlen
      omega
    have hmoved := h.lines hdrop hwhole
    have hbefore := h.take (Nat.le_add_right offset whole.length)
    have hrest : ((bytes.take byteBoundary).take (offset + whole.length)).drop offset = whole := by
      rw [List.drop_take, hdrop, Nat.add_sub_cancel_left, List.take_left' rfl]
    have hrows := (hsound.take (offset + whole.length)).settles.rowsFrom_eq hbefore 0
    rw [hrest, htakes _ hwholeLe, List.take_take, Nat.min_eq_left (Nat.le_add_right _ _),
      Nat.zero_add] at hrows
    have hleft : (bytes.take byteBoundary).drop (offset + whole.length) = tail := by
      rw [← List.drop_drop, hdrop, List.drop_left' rfl]
    rw [hstop, hleft]
    exact ⟨trivial, Nat.le_add_right _ _, hwholeLe, hmoved, htail, _, hrows, hrun⟩

end Memex.Sources.Claude
