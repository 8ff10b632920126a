import Memex.Retrieval.EntryIds
import Memex.Sources.Pi
import Memex.Sources.Claude
import Memex.Sources.Jcode

/-! # Canonical ids within one transcript

The entries of a Pi, Claude or Jcode transcript as far as the ids of their records go, and when one
parse makes no two records of the same id. -/

namespace Memex.Retrieval

open LineStream Sources

/-! ## Marks of records -/

/-- What of a record its identity quotes, besides its source and path. -/
structure Mark where
  session : String
  role : String
  tool : String
  event : Option String
  offset : Option Nat := none
  deriving DecidableEq, Repr

def mark (record : Record) : Mark where
  session := if record.sessionId = "" then record.sourcePath else record.sessionId
  role := record.role
  tool := record.toolName.getD ""
  event := record.links.eventId
  offset := record.links.sourceRecordOffset

/-- The identity of a record with an event or an offset. -/
def Mark.identity (source : SourceKind) (path : String) (mark : Mark) : List Field :=
  match mark.offset with
  | some offset => offsetIdentity source mark.session path offset mark.role mark.tool
  | none => eventIdentity source mark.session (mark.event.getD "") mark.role mark.tool

theorem identity_eq_mark {record : Record}
    (hnative : (mark record).event ≠ none ∨ (mark record).offset ≠ none)
    (hsession : record.links.sourceRecordOffset ≠ none → record.sessionId ≠ "") :
    identity record = (mark record).identity record.source record.sourcePath := by
  cases hoffset : record.links.sourceRecordOffset with
  | some offset =>
      have hnamed : record.sessionId ≠ "" := hsession (by simp [hoffset])
      simp [identity, mark, Mark.identity, offsetIdentity, hoffset, hnamed]
  | none =>
      obtain ⟨event, hevent⟩ := Option.ne_none_iff_exists'.mp
        (hnative.resolve_right (by simp [mark, hoffset]))
      change record.links.eventId = some event at hevent
      simp [identity, mark, Mark.identity, eventIdentity, hoffset, hevent]

def EntryBlock.mark (session : String) (id : Option String) : EntryBlock → Mark
  | reasoning index => ⟨session, "reasoning", "", id.map (reasoningEvent · index), none⟩
  | namedCall callId tool => ⟨session, "tool_use", tool, some callId, none⟩
  | call tool => ⟨session, "tool_use", tool, id, none⟩
  | result answered tool => ⟨session, "tool_result", tool, id.map (resultEvent · answered), none⟩

def EntryText.mark (session : String) (id : Option String) : EntryText → Mark
  | spoken speaker => ⟨session, speaker.role, "", id, none⟩
  | shown speaker offset => ⟨session, speaker.role, "", id, some offset⟩

/-- The marks of the records of an entry. -/
def Entry.marks (entry : Entry) : List Mark :=
  entry.blocks.map (EntryBlock.mark entry.session entry.id) ++
    entry.text.toList.map (EntryText.mark entry.session entry.id)

theorem Entry.map_identity_marks {entry : Entry} {id : String} (hid : entry.id = some id)
    (source : SourceKind) (path : String) :
    entry.marks.map (Mark.identity source path) = entry.identities source path := by
  rw [marks, identities, List.map_append, List.map_map, List.map_map, hid]
  congr 1
  · apply List.map_congr_left
    intro block _
    cases block <;> rfl
  · apply List.map_congr_left
    intro text _
    cases text <;> rfl

theorem Entry.native_of_mem_marks {entry : Entry} {id : String} (hid : entry.id = some id)
    {mark : Mark} (h : mark ∈ entry.marks) : mark.event ≠ none := by
  rw [marks, hid, List.mem_append, List.mem_map, List.mem_map] at h
  rcases h with ⟨block, -, rfl⟩ | ⟨text, -, rfl⟩
  · cases block <;> exact Option.some_ne_none _
  · cases text <;> exact Option.some_ne_none _

/-- The records of one parse are those of its entries. -/
structure MadeOf (source : SourceKind) (path : String) (records : List Record)
    (entries : List Entry) : Prop where
  marks : records.map mark = entries.flatMap Entry.marks
  source : ∀ record ∈ records, record.source = source
  path : ∀ record ∈ records, record.sourcePath = path
  session : ∀ record ∈ records, record.links.sourceRecordOffset ≠ none → record.sessionId ≠ ""
  offsets : (entries.filterMap Entry.shownOffset).Nodup

theorem MadeOf.identities {source : SourceKind} {path : String} {records : List Record}
    {entries : List Entry} (h : MadeOf source path records entries) (hids : IdsDistinct entries) :
    records.map identity = entries.flatMap fun entry => entry.identities source path := by
  have hid (entry : Entry) (hentry : entry ∈ entries) (hmarks : entry.marks ≠ []) :
      ∃ id, entry.id = some id := by
    apply Option.ne_none_iff_exists'.mp
    apply hids.named entry hentry
    by_contra hempty
    rw [not_or, not_not, not_not] at hempty
    apply hmarks
    rw [Entry.marks, hempty.1, hempty.2]
    rfl
  have hrecord (record : Record) (hrecord : record ∈ records) :
      identity record = (mark record).identity source path := by
    have hmem : mark record ∈ entries.flatMap Entry.marks :=
      h.marks ▸ List.mem_map_of_mem hrecord
    obtain ⟨entry, hentry, hmark⟩ := List.mem_flatMap.mp hmem
    obtain ⟨id, hsome⟩ := hid entry hentry (List.ne_nil_of_mem hmark)
    rw [← h.source record hrecord, ← h.path record hrecord]
    exact identity_eq_mark (.inl (Entry.native_of_mem_marks hsome hmark))
      (h.session record hrecord)
  have hentry (entry : Entry) (hentry : entry ∈ entries) :
      entry.marks.map (Mark.identity source path) = entry.identities source path := by
    by_cases hmarks : entry.marks = []
    · rw [hmarks]
      rw [Entry.marks, List.append_eq_nil_iff, List.map_eq_nil_iff, List.map_eq_nil_iff] at hmarks
      rw [Entry.identities, hmarks.1, hmarks.2]
      rfl
    · obtain ⟨id, hsome⟩ := hid entry hentry hmarks
      exact Entry.map_identity_marks hsome source path
  calc
    records.map identity = (records.map mark).map (Mark.identity source path) := by
      rw [List.map_map]
      exact List.map_congr_left hrecord
    _ = entries.flatMap fun entry => entry.marks.map (Mark.identity source path) := by
      rw [h.marks, List.map_flatMap]
    _ = entries.flatMap fun entry => entry.identities source path :=
      List.flatMap_congr hentry

/-- Records of entries without attachments have events only. -/
theorem MadeOf.of_spoken {source : SourceKind} {path : String} {records : List Record}
    {entries : List Entry} (hmarks : records.map mark = entries.flatMap Entry.marks)
    (hsource : ∀ record ∈ records, record.source = source)
    (hpath : ∀ record ∈ records, record.sourcePath = path)
    (hspoken : ∀ entry ∈ entries, entry.shownOffset = none) :
    MadeOf source path records entries where
  marks := hmarks
  source := hsource
  path := hpath
  session record hrecord hoffset := by
    have hmem : mark record ∈ entries.flatMap Entry.marks := hmarks ▸ List.mem_map_of_mem hrecord
    obtain ⟨entry, hentry, hmark⟩ := List.mem_flatMap.mp hmem
    have hshown := hspoken entry hentry
    rw [Entry.marks, List.mem_append, List.mem_map, List.mem_map] at hmark
    refine absurd ?_ hoffset
    change (mark record).offset = none
    rcases hmark with ⟨block, -, hmark⟩ | ⟨text, htext, hmark⟩
    · rw [← hmark]
      cases block <;> rfl
    · rw [← hmark]
      rw [Entry.shownOffset, Option.mem_toList.mp htext] at hshown
      cases text with
      | spoken speaker => rfl
      | shown speaker offset => cases hshown
  offsets := by
    rw [List.filterMap_eq_nil_iff.mpr hspoken]
    exact List.nodup_nil

/-- Parsers stamp the fields that a mark does not see on their drafts. -/
def stampedMark (stamp : Stamp) (draft : Record) : Mark :=
  mark (stamp.apply draft)

/-- The session that records under a stamp are filed under. -/
def filedUnder (stamp : Stamp) : String :=
  if stamp.sessionId = "" then stamp.sourcePath else stamp.sessionId

theorem stampedMark_emit (stamp : Stamp) (carried : Carried) (draft : Record) :
    (carried.emit draft).2.map (stampedMark stamp) =
      [⟨filedUnder stamp, draft.role, draft.toolName.getD "", draft.links.eventId,
        draft.links.sourceRecordOffset⟩] := rfl

theorem stampedMark_silent (stamp : Stamp) (carried : Carried) :
    carried.silent.2.map (stampedMark stamp) = [] := rfl

/-- The text of an entry, if it is not empty. -/
def spoken (speaker : Speaker) (text : String) : Option EntryText :=
  if text = "" then none else some (.spoken speaker)

theorem shownOffset_spoken (session : String) (id : Option String) (blocks : List EntryBlock)
    (speaker : Speaker) (text : String) :
    Entry.shownOffset ⟨session, id, blocks, spoken speaker text⟩ = none := by
  by_cases hempty : text = ""
  · rw [spoken, if_pos hempty]
    rfl
  · rw [spoken, if_neg hempty]
    rfl

/-- A result, if its output is not blank. -/
def answer (answered : Option String) (tool : Option String) (text : String) : List EntryBlock :=
  if isBlankText text then [] else [.result answered (tool.getD "")]

theorem emitText_marks {id answered : Option String} (stamp : Stamp)
    (carried : Carried) (text : String) {draft : Record} (hrole : draft.role = "tool_result")
    (hevent : draft.links.eventId = id.map (resultEvent · answered))
    (hoffset : draft.links.sourceRecordOffset = none) :
    (carried.emitText text draft).2.map (stampedMark stamp) =
      (answer answered draft.toolName text).map (EntryBlock.mark (filedUnder stamp) id) := by
  simp only [Carried.emitText, answer]
  split
  · rfl
  · simp only [stampedMark_emit, hrole, hevent, hoffset]
    rfl

/-! ## Pi, OMP and OpenClaw -/

def piBlock (file : Pi.TranscriptFile) (block : Json) : Option EntryBlock :=
  if !block.isObject then none
  else match (block.getStr "type").getD "" with
    | "thinking" =>
        if file.includeReasoning && (Pi.thinkingText block).isSome then some (.reasoning none)
        else none
    | "toolCall" =>
        let tool := (block.getStr "name").getD ""
        some (match block.getStr "id" with
          | some id => .namedCall id tool
          | none => .call tool)
    | _ => none

def piResultTool (carried : Carried) (message : Json) : Option String :=
  let toolCallId := (message.getStr "toolCallId").getD ""
  message.getStr "toolName" <|>
    (if toolCallId ≠ "" then carried.pendingToolName toolCallId else none)

def piMessage (crates : Crates) (file : Pi.TranscriptFile) (carried : Carried) (entry : Entry)
    (message : Json) : Entry :=
  let text := trim (Pi.contentText crates (message.get "content"))
  let result := { entry with
    blocks := answer none (piResultTool carried message) (Pi.toolResultText crates message) }
  match (message.getStr "role").getD "" with
  | "user" => { entry with text := spoken .user text }
  | "assistant" =>
      { entry with
        blocks := (((message.get "content").bind Json.asArray).getD []).filterMap (piBlock file)
        text := spoken .assistant text }
  | "toolResult" => result
  | "tool" => result
  | "bashExecution" =>
      if Pi.excludedFromContext message then entry
      else { entry with blocks := answer none (some "Bash") (Pi.bashExecutionText message) }
  | role =>
      if role = "custom" || role = "branchSummary" || role = "compactionSummary" then
        { entry with text := spoken .assistant (Pi.summaryMessageText crates message role) }
      else entry

/-- The entry that a row is. -/
def piEntries (crates : Crates) (file : Pi.TranscriptFile) (session : String) (carried : Carried)
    (value : Json) : List Entry :=
  let entry : Entry := { session, id := value.getStr "id" }
  if !value.isObject then []
  else match Pi.entryType value with
    | "compaction" => [{ entry with text := spoken .assistant (Pi.summaryText value) }]
    | "branch_summary" => [{ entry with text := spoken .assistant (Pi.summaryText value) }]
    | "custom_message" => [{ entry with text := spoken .assistant (Pi.customText crates value) }]
    | "message" =>
        (((value.get "message").filter Json.isObject).map
          (piMessage crates file carried entry)).toList
    | _ => []

section Pi

variable {crates : Crates} {file : Pi.TranscriptFile} {stamp : Stamp} {carried : Carried}
  {links : RecordLinks}

theorem piBlock_marks (hoffset : links.sourceRecordOffset = none) (carried : Carried)
    (block : Json) :
    (Pi.draftBlock crates file stamp links carried block).2.map (stampedMark stamp) =
      (piBlock file block).toList.map (EntryBlock.mark (filedUnder stamp) links.eventId) := by
  cases hobject : block.isObject with
  | false => simp only [Pi.draftBlock, piBlock, hobject, Bool.not_false, if_true]; rfl
  | true =>
      by_cases hthinking : (block.getStr "type").getD "" = "thinking"
      · simp only [Pi.draftBlock, piBlock, hobject, hthinking, Bool.not_true, Bool.false_eq_true,
          if_false]
        cases Pi.thinkingText block with
        | none => simp [stampedMark_silent]
        | some thinking =>
            cases file.includeReasoning with
            | false => simp [stampedMark_silent]
            | true =>
                simp only [if_true, stampedMark_emit, hoffset]
                rfl
      · by_cases hcall : (block.getStr "type").getD "" = "toolCall"
        · simp only [Pi.draftBlock, piBlock, hobject, hcall, Bool.not_true, Bool.false_eq_true,
            if_false]
          cases block.getStr "id" with
          | none =>
              simp only [stampedMark_emit, hoffset]
              rfl
          | some id =>
              simp only [stampedMark_emit, hoffset]
              rfl
        · simp only [Pi.draftBlock, piBlock, hobject, Bool.not_true, Bool.false_eq_true, if_false]
          rfl

theorem draftText_marks (hoffset : links.sourceRecordOffset = none) (carried : Carried)
    (speaker : Speaker) (text shown : String) :
    (Pi.draftText carried text { role := speaker.role, text := shown, links }).2.map
        (stampedMark stamp) =
      (spoken speaker text).toList.map (EntryText.mark (filedUnder stamp) links.eventId) := by
  simp only [Pi.draftText, spoken]
  split
  · rfl
  · simp only [stampedMark_emit, hoffset]
    rfl

private theorem flatMap_toList {α β γ : Type*} (part : α → Option β) (view : β → γ)
    (items : List α) :
    (items.flatMap fun item => (part item).toList.map view) =
      (items.filterMap part).map view := by
  induction items with
  | nil => rfl
  | cons item rest ih =>
      rw [List.flatMap_cons, ih, List.filterMap_cons]
      cases part item <;> rfl

theorem piConversation_marks (hoffset : links.sourceRecordOffset = none) (carried : Carried)
    (speaker : Speaker) (content : Option Json) :
    (Pi.draftConversation crates file stamp links carried speaker.role content).2.map
        (stampedMark stamp) =
      (((if speaker.role = "assistant" then (content.bind Json.asArray).getD []
          else []).filterMap (piBlock file)).map
        (EntryBlock.mark (filedUnder stamp) links.eventId)) ++
      (spoken speaker (trim (Pi.contentText crates content))).toList.map
        (EntryText.mark (filedUnder stamp) links.eventId) := by
  simp only [Pi.draftConversation]
  rw [List.map_append, HeaderMachine.run_map_of_stateless (piBlock_marks hoffset),
    draftText_marks hoffset, flatMap_toList]

theorem piToolResult_marks (hoffset : links.sourceRecordOffset = none) (carried : Carried)
    (message : Json) :
    (Pi.draftToolResult crates links carried message).2.map (stampedMark stamp) =
      (answer none (piResultTool carried message) (Pi.toolResultText crates message)).map
        (EntryBlock.mark (filedUnder stamp) links.eventId) := by
  simp only [Pi.draftToolResult]
  apply emitText_marks stamp
  · rfl
  · split <;> cases links.eventId <;> rfl
  · split <;> exact hoffset

theorem piBashExecution_marks (hoffset : links.sourceRecordOffset = none) (carried : Carried)
    (message : Json) :
    (Pi.draftBashExecution links carried message).2.map (stampedMark stamp) =
      (if Pi.excludedFromContext message then []
        else answer none (some "Bash") (Pi.bashExecutionText message)).map
          (EntryBlock.mark (filedUnder stamp) links.eventId) := by
  simp only [Pi.draftBashExecution]
  split
  · rfl
  · apply emitText_marks stamp
    · rfl
    · cases links.eventId <;> rfl
    · exact hoffset

theorem messageLinks_event (value : Json) (role : String) :
    (Pi.messageLinks value role).eventId = value.getStr "id" ∧
      (Pi.messageLinks value role).sourceRecordOffset = none := by
  simp only [Pi.messageLinks]
  split <;> exact ⟨rfl, rfl⟩

theorem piMessage_marks (carried : Carried) (value message : Json) :
    (Pi.draftMessage crates file stamp carried value message).2.map (stampedMark stamp) =
      (piMessage crates file carried { session := filedUnder stamp, id := value.getStr "id" }
        message).marks := by
  obtain ⟨hevent, hoffset⟩ := messageLinks_event value ((message.getStr "role").getD "")
  rw [Pi.draftMessage, piMessage, ← hevent]
  generalize (message.getStr "role").getD "" = role at hoffset ⊢
  by_cases huser : role = "user"
  · subst huser
    have hmarks := @piConversation_marks crates file stamp _ hoffset carried .user
      (message.get "content")
    rw [Speaker.role, if_neg (by decide), List.filterMap_nil] at hmarks
    simp only [hmarks, Entry.marks]
  by_cases hassistant : role = "assistant"
  · subst hassistant
    have hmarks := @piConversation_marks crates file stamp _ hoffset carried .assistant
      (message.get "content")
    rw [Speaker.role, if_pos rfl] at hmarks
    simp only [hmarks, Entry.marks]
  by_cases hresult : role = "toolResult"
  · subst hresult
    simp only [piToolResult_marks hoffset, Entry.marks, Option.toList_none, List.map_nil,
      List.append_nil]
  by_cases htool : role = "tool"
  · subst htool
    simp only [piToolResult_marks hoffset, Entry.marks, Option.toList_none, List.map_nil,
      List.append_nil]
  by_cases hbash : role = "bashExecution"
  · subst hbash
    simp only [piBashExecution_marks hoffset, Entry.marks]
    split
    · rfl
    · simp only [Option.toList_none, List.map_nil, List.append_nil]
  simp only
  have htext := @draftText_marks stamp _ hoffset carried .assistant
    (Pi.summaryMessageText crates message role)
    (role ++ ": " ++ Pi.summaryMessageText crates message role)
  rw [Speaker.role] at htext
  split
  · rw [htext, Entry.marks, List.map_nil, List.nil_append]
  · rfl

theorem piRow_marks (carried : Carried) (value : Json) :
    (Pi.draftRow crates file stamp carried value).2.map (stampedMark stamp) =
      (piEntries crates file (filedUnder stamp) carried value).flatMap Entry.marks := by
  rw [Pi.draftRow, piEntries]
  cases hobject : value.isObject with
  | false => rfl
  | true =>
      simp only [Bool.not_true, Bool.false_eq_true, if_false]
      have htext (links : RecordLinks) (hevent : links.eventId = value.getStr "id")
          (hoffset : links.sourceRecordOffset = none) (text shown : String) :
          (Pi.draftText carried text
              { role := "assistant", text := shown, links }).2.map (stampedMark stamp) =
            [({ session := filedUnder stamp, id := value.getStr "id"
                text := spoken .assistant text } : Entry)].flatMap Entry.marks := by
        rw [List.flatMap_singleton, Entry.marks, List.map_nil, List.nil_append]
        dsimp only
        rw [← hevent]
        exact draftText_marks hoffset carried .assistant text shown
      generalize Pi.entryType value = kind
      by_cases hcompaction : kind = "compaction"
      · subst hcompaction
        exact htext _ rfl rfl _ _
      by_cases hbranch : kind = "branch_summary"
      · subst hbranch
        exact htext _ rfl rfl _ _
      by_cases hcustom : kind = "custom_message"
      · subst hcustom
        exact htext _ rfl rfl _ _
      by_cases hmessage : kind = "message"
      · subst hmessage
        simp only
        cases (value.get "message").filter Json.isObject with
        | none => rfl
        | some message =>
            rw [Option.map_some, Option.toList_some, List.flatMap_singleton]
            exact piMessage_marks carried value message
      simp only
      rfl

/-- The entries that one row of a run is. -/
def piStep (crates : Crates) (file : Pi.TranscriptFile) (state : Pi.Header × Carried)
    (row : Nat × Json) : (Pi.Header × Carried) × List Entry :=
  let stamp := Pi.rowStamp crates file (Pi.applySessionHeader crates state.1 row.2) row.2
  (((Pi.rowDrafts crates file).machine.step state row).1,
    piEntries crates file (filedUnder stamp) state.2 row.2)

/-- The entries of the transcript that one parse reads. -/
def piTranscript (crates : Crates) (reader : LineReader Json) (file : Pi.TranscriptFile)
    (bytes : Bytes) (state : IndexParseState Carried) : List Entry :=
  let start := resumeOffset bytes state.offset fun line => (reader.read line).isSome
  (scan reader (fun tail => (reader.read tail).isNone) (piStep crates file) bytes.length start
    (bytes.drop start) (Pi.recoverHeader crates reader file bytes start, state.carried)).emitted

theorem piStep_marks (state : Pi.Header × Carried) (row : Nat × Json) :
    ((Pi.rowDrafts crates file).machine.step state row).2.map mark =
      (piStep crates file state row).2.flatMap Entry.marks := by
  rw [piStep]
  dsimp only
  rw [← piRow_marks]
  exact List.map_map

theorem shownOffset_piMessage (session : String) (id : Option String) (carried : Carried)
    (message : Json) :
    (piMessage crates file carried { session, id } message).shownOffset = none := by
  simp only [piMessage]
  split
  · exact shownOffset_spoken _ _ _ _ _
  · exact shownOffset_spoken _ _ _ _ _
  · rfl
  · rfl
  · split <;> rfl
  · split
    · exact shownOffset_spoken _ _ _ _ _
    · rfl

theorem shownOffset_piEntries (session : String) (carried : Carried) (value : Json) :
    ∀ entry ∈ piEntries crates file session carried value, entry.shownOffset = none := by
  intro entry hentry
  simp only [piEntries] at hentry
  split at hentry
  · exact absurd hentry List.not_mem_nil
  · split at hentry
    · rw [List.mem_singleton.mp hentry]
      exact shownOffset_spoken _ _ _ _ _
    · rw [List.mem_singleton.mp hentry]
      exact shownOffset_spoken _ _ _ _ _
    · rw [List.mem_singleton.mp hentry]
      exact shownOffset_spoken _ _ _ _ _
    · obtain ⟨message, -, rfl⟩ := Option.map_eq_some_iff.mp (Option.mem_toList.mp hentry)
      exact shownOffset_piMessage _ _ carried message
    · exact absurd hentry List.not_mem_nil

theorem piTranscript_madeOf (crates : Crates) (reader : LineReader Json)
    (file : Pi.TranscriptFile) (bytes : Bytes) (state : IndexParseState Carried) :
    MadeOf file.source file.path (Pi.parseIndexRecordsFor crates reader file bytes state).records
      (piTranscript crates reader file bytes state) := by
  let start := resumeOffset bytes state.offset fun line => (reader.read line).isSome
  obtain ⟨rows, -, -, hrun⟩ := exists_scan_rows reader (fun tail => (reader.read tail).isNone)
    bytes.length start (bytes.drop start)
  let header := Pi.recoverHeader crates reader file bytes start
  have hrecords : (Pi.parseIndexRecordsFor crates reader file bytes state).records =
      (HeaderMachine.run (Pi.rowDrafts crates file).machine.step (header, state.carried) rows).2 :=
    congrArg Prod.snd (hrun _ _ (Pi.rowDrafts crates file).machine.step (header, state.carried))
  have hentries : piTranscript crates reader file bytes state =
      (HeaderMachine.run (piStep crates file) (header, state.carried) rows).2 :=
    congrArg Prod.snd (hrun _ _ (piStep crates file) (header, state.carried))
  have hplace : ∀ record ∈ (Pi.parseIndexRecordsFor crates reader file bytes state).records,
      record.source = file.source ∧ record.sourcePath = file.path := by
    rw [hrecords]
    apply HeaderMachine.forall_mem_run
    intro state row record hrecord
    obtain ⟨draft, -, rfl⟩ := List.mem_map.mp hrecord
    exact ⟨rfl, rfl⟩
  apply MadeOf.of_spoken
  · have hstate (state : Pi.Header × Carried) (row : Nat × Json) :
        (piStep crates file state row).1 = ((Pi.rowDrafts crates file).machine.step state row).1 :=
      rfl
    rw [hrecords, hentries]
    exact HeaderMachine.run_map_eq_flatMap hstate piStep_marks _ _
  · exact fun record hrecord => (hplace record hrecord).1
  · exact fun record hrecord => (hplace record hrecord).2
  · rw [hentries]
    apply HeaderMachine.forall_mem_run
    intro state row
    exact shownOffset_piEntries _ _ _

end Pi

/-! ## Jcode -/

/-- A tool result of a user message. -/
def jcodeResult (carried : Carried) (block : Json) : List EntryBlock :=
  if Jcode.isToolResult block then
    answer none (Jcode.answeredTool carried block) (Jcode.toolResultText block)
  else []

def jcodeResultStep (carried : Carried) (block : Json) : Carried × List EntryBlock :=
  ((Jcode.draftUserBlock {} carried block).1, jcodeResult carried block)

def jcodeBlock (file : Jcode.TranscriptFile) (block : Json) : Option EntryBlock :=
  if !block.isObject then none
  else match Jcode.blockType block with
    | "tool_use" =>
        let tool := (block.getStr "name").getD ""
        some (match block.getStr "id" with
          | some id => .namedCall id tool
          | none => .call tool)
    | "thinking" =>
        if file.includeReasoning && (Jcode.thinkingText block).isSome then some (.reasoning none)
        else none
    | _ => none

/-- The entry that a message is. The tools of its results are the ones outstanding when they are
read. -/
def jcodeEntries (file : Jcode.TranscriptFile) (session : String) (carried : Carried)
    (message : Json) : List Entry :=
  let entry : Entry := { session, id := message.getStr "id" }
  let content := message.get "content"
  let blocks := (content.bind Json.asArray).getD []
  if !message.isObject then []
  else match (message.getStr "role").getD "" with
    | "user" =>
        let text := Jcode.messageText Jcode.userPart content
        [{ entry with
            blocks := (HeaderMachine.run jcodeResultStep carried blocks).2
            text := if Analytics.sanitizeLabel text = "" then none else some (.spoken .user) }]
    | "assistant" =>
        [{ entry with
            blocks := blocks.filterMap (jcodeBlock file)
            text := spoken .assistant (Jcode.messageText Jcode.assistantPart content) }]
    | _ => []

section Jcode

variable {crates : Crates} {lookups : Analytics.SessionLookups} {file : Jcode.TranscriptFile}
  {stamp : Stamp} {links : RecordLinks}

theorem jcodeResult_marks (hoffset : links.sourceRecordOffset = none) (carried : Carried)
    (block : Json) :
    (Jcode.draftUserBlock links carried block).2.map (stampedMark stamp) =
      (jcodeResult carried block).map (EntryBlock.mark (filedUnder stamp) links.eventId) := by
  simp only [Jcode.draftUserBlock, jcodeResult]
  split
  · apply emitText_marks stamp
    · rfl
    · split <;> cases links.eventId <;> rfl
    · split <;> exact hoffset
  · rfl

theorem jcodeBlock_marks (hoffset : links.sourceRecordOffset = none) (carried : Carried)
    (block : Json) :
    (Jcode.draftAssistantBlock crates file stamp links carried block).2.map (stampedMark stamp) =
      (jcodeBlock file block).toList.map (EntryBlock.mark (filedUnder stamp) links.eventId) := by
  rw [Jcode.draftAssistantBlock, jcodeBlock]
  cases hobject : block.isObject with
  | false => rfl
  | true =>
      simp only [Bool.not_true, Bool.false_eq_true, if_false]
      generalize Jcode.blockType block = kind
      by_cases hcall : kind = "tool_use"
      · subst hcall
        simp only
        cases block.getStr "id" with
        | none =>
            simp only [stampedMark_emit, hoffset]
            rfl
        | some id =>
            simp only [stampedMark_emit, hoffset]
            rfl
      by_cases hthinking : kind = "thinking"
      · subst hthinking
        simp only
        cases Jcode.thinkingText block with
        | none => simp [stampedMark_silent]
        | some thinking =>
            cases file.includeReasoning with
            | false => simp [stampedMark_silent]
            | true =>
                simp only [if_true, stampedMark_emit, hoffset]
                rfl
      simp only
      rfl

theorem jcodeResultStep_state (links : RecordLinks) (carried : Carried) (block : Json) :
    (jcodeResultStep carried block).1 = (Jcode.draftUserBlock links carried block).1 := by
  simp only [jcodeResultStep, Jcode.draftUserBlock, Carried.emitText, Carried.emit, Carried.silent]
  split
  · split <;> rfl
  · rfl

theorem jcodeUser_marks (hoffset : links.sourceRecordOffset = none) (carried : Carried)
    (content : Option Json) :
    (Jcode.draftUser links carried content).2.map (stampedMark stamp) =
      Entry.marks
        { session := filedUnder stamp
          id := links.eventId
          blocks := (HeaderMachine.run jcodeResultStep carried
            ((content.bind Json.asArray).getD [])).2
          text := if Analytics.sanitizeLabel (Jcode.messageText Jcode.userPart content) = "" then
              none
            else some (.spoken .user) } := by
  simp only [Jcode.draftUser, Entry.marks]
  rw [List.map_append]
  apply congrArg₂
  · have hviews (carried : Carried) (block : Json) :
        (Jcode.draftUserBlock links carried block).2.map (stampedMark stamp) =
          (jcodeResultStep carried block).2.flatMap fun part =>
            [part.mark (filedUnder stamp) links.eventId] := by
      rw [jcodeResult_marks hoffset, List.map_eq_flatMap]
      rfl
    rw [HeaderMachine.run_map_eq_flatMap (jcodeResultStep_state links) hviews, List.map_eq_flatMap]
  · generalize Jcode.messageText Jcode.userPart content = text
    by_cases hempty : Analytics.sanitizeLabel text = ""
    · rw [if_pos hempty, if_pos hempty]
      rfl
    · rw [if_neg hempty, if_neg hempty, stampedMark_emit, hoffset]
      rfl

theorem jcodeAssistant_marks (hoffset : links.sourceRecordOffset = none) (carried : Carried)
    (content : Option Json) :
    (Jcode.draftAssistant crates file stamp links carried content).2.map (stampedMark stamp) =
      Entry.marks
        { session := filedUnder stamp
          id := links.eventId
          blocks := ((content.bind Json.asArray).getD []).filterMap (jcodeBlock file)
          text := spoken .assistant (Jcode.messageText Jcode.assistantPart content) } := by
  simp only [Jcode.draftAssistant, Entry.marks]
  rw [List.map_append]
  apply congrArg₂
  · rw [HeaderMachine.run_map_of_stateless (jcodeBlock_marks hoffset), flatMap_toList]
  · generalize Jcode.messageText Jcode.assistantPart content = text
    by_cases hempty : text = ""
    · rw [spoken, if_pos hempty, if_pos hempty]
      rfl
    · rw [spoken, if_neg hempty, if_neg hempty, stampedMark_emit, hoffset]
      rfl

theorem jcodeMessage_marks (value : Json) (carried : Carried) (message : Json) :
    (Jcode.messageRecords crates lookups file value carried message).2.map mark =
      (jcodeEntries file (filedUnder (Jcode.messageStamp crates file value message)) carried
        message).flatMap Entry.marks := by
  have hmap : (Jcode.messageRecords crates lookups file value carried message).2.map mark =
      (Jcode.draftMessage crates lookups file value carried message).2.map
        (stampedMark (Jcode.messageStamp crates file value message)) := List.map_map
  rw [hmap, Jcode.draftMessage, jcodeEntries]
  cases hobject : message.isObject with
  | false => rfl
  | true =>
      simp only [Bool.not_true, Bool.false_eq_true, if_false]
      generalize (message.getStr "role").getD "" = role
      by_cases huser : role = "user"
      · subst huser
        simp only [List.flatMap_singleton]
        exact jcodeUser_marks rfl carried _
      by_cases hassistant : role = "assistant"
      · subst hassistant
        simp only [List.flatMap_singleton]
        exact jcodeAssistant_marks rfl carried _
      simp only
      rfl

theorem shownOffset_jcodeEntries (session : String) (carried : Carried) (message : Json) :
    ∀ entry ∈ jcodeEntries file session carried message, entry.shownOffset = none := by
  intro entry hentry
  simp only [jcodeEntries] at hentry
  split at hentry
  · exact absurd hentry List.not_mem_nil
  · split at hentry
    · rw [List.mem_singleton.mp hentry]
      generalize Jcode.messageText Jcode.userPart (message.get "content") = text
      by_cases hempty : Analytics.sanitizeLabel text = ""
      · rw [if_pos hempty]
        rfl
      · rw [if_neg hempty]
        rfl
    · rw [List.mem_singleton.mp hentry]
      exact shownOffset_spoken _ _ _ _ _
    · exact absurd hentry List.not_mem_nil

def jcodeStep (crates : Crates) (lookups : Analytics.SessionLookups)
    (file : Jcode.TranscriptFile) (value : Json) (carried : Carried) (message : Json) :
    Carried × List Entry :=
  ((Jcode.messageRecords crates lookups file value carried message).1,
    jcodeEntries file (filedUnder (Jcode.messageStamp crates file value message)) carried message)

/-- The entries of the session that one parse reads. -/
def jcodeTranscript (crates : Crates) (lookups : Analytics.SessionLookups)
    (read : Bytes → Option Json) (file : Jcode.TranscriptFile) (bytes : Bytes)
    (carried : Carried) : List Entry :=
  ((read bytes).map fun value =>
    (HeaderMachine.run (jcodeStep crates lookups file value) carried
      (Jcode.messages value)).2).getD []

theorem jcodeTranscript_madeOf (crates : Crates) (lookups : Analytics.SessionLookups)
    (read : Bytes → Option Json) (file : Jcode.TranscriptFile) (bytes : Bytes)
    (carried : Carried) :
    MadeOf .jcode file.path
      (Jcode.parseIndexRecords crates lookups read file bytes carried).records
      (jcodeTranscript crates lookups read file bytes carried) := by
  rw [Jcode.parseIndexRecords, jcodeTranscript]
  cases read bytes with
  | none =>
      exact MadeOf.of_spoken rfl (fun _ h => absurd h List.not_mem_nil)
        (fun _ h => absurd h List.not_mem_nil) (fun _ h => absurd h List.not_mem_nil)
  | some value =>
      have hplace : ∀ record ∈ (HeaderMachine.run
          (Jcode.messageRecords crates lookups file value) carried (Jcode.messages value)).2,
          record.source = .jcode ∧ record.sourcePath = file.path := by
        apply HeaderMachine.forall_mem_run
        intro carried message record hrecord
        obtain ⟨draft, -, rfl⟩ := List.mem_map.mp hrecord
        exact ⟨rfl, rfl⟩
      have hstate (carried : Carried) (message : Json) :
          (jcodeStep crates lookups file value carried message).1 =
            (Jcode.messageRecords crates lookups file value carried message).1 := rfl
      apply MadeOf.of_spoken
      · exact HeaderMachine.run_map_eq_flatMap hstate (jcodeMessage_marks value) _ _
      · exact fun record hrecord => (hplace record hrecord).1
      · exact fun record hrecord => (hplace record hrecord).2
      · apply HeaderMachine.forall_mem_run
        intro carried message
        exact shownOffset_jcodeEntries _ _ _

end Jcode

/-! ## Claude -/

def claudeBlock (file : Claude.TranscriptFile) (block : Json × Nat) : Option EntryBlock :=
  match Claude.blockType block.1 with
  | "tool_use" =>
      let tool := (block.1.getStr "name").getD ""
      some (match block.1.getStr "id" with
        | some id => .namedCall id tool
        | none => .call tool)
  | "thinking" =>
      match ((block.1.getStr "thinking").map trim).filter (· ≠ "") with
      | some _ => if file.includeReasoning then some (.reasoning (some block.2)) else none
      | none => none
  | _ => none

/-- A tool result of a user entry. -/
def claudeResult (numbering : Claude.Numbering) (block : Json) : List EntryBlock :=
  if !block.isObject || Claude.blockType block ≠ "tool_result" then []
  else
    let toolUseId := block.getStr "tool_use_id"
    let pending := toolUseId.bind fun id => numbering.pendingToolCalls.lookup id
    [.result toolUseId ((pending.bind State.PendingToolCall.toolName).getD "")]

def claudeResultStep (crates : Crates) (file : Claude.TranscriptFile) (background : Bool)
    (value : Json) (numbering : Claude.Numbering) (block : Json) :
    Claude.Numbering × List EntryBlock :=
  ((Claude.parseToolResult crates file background value numbering block).1,
    claudeResult numbering block)

def claudeSpeaker (value : Json) : Speaker :=
  if Claude.entryType value = "user" then .user else .assistant

def claudeText (crates : Crates) (offset : Nat) (value : Json) (content : Option Json) :
    Option EntryText :=
  let text := trim (" ".intercalate (Claude.textParts content))
  if text ≠ "" || (Claude.sourceContent crates content).isSome then
    some (if text = "" then .shown (claudeSpeaker value) offset else .spoken (claudeSpeaker value))
  else none

/-- The entry that a row is. -/
def claudeEntries (crates : Crates) (file : Claude.TranscriptFile) (background : Bool)
    (numbering : Claude.Numbering) (row : Nat × Json) : List Entry :=
  let value := row.2
  let isEntry : Bool := value.isObject &&
    (Claude.entryType value = "user" || Claude.entryType value = "assistant")
  match (if isEntry then (value.get "message").filter Json.isObject else none) with
  | none => []
  | some message =>
      let content := message.get "content"
      let blocks := (content.bind Json.asArray).getD []
      let made := (blocks.filter Json.isObject).zipIdx
      let drafted := HeaderMachine.run (Claude.parseBlock crates file background value) numbering
        made
      [{ session := Claude.sessionIdFromPath file.path
         id := value.getStr "uuid"
         blocks := made.filterMap (claudeBlock file) ++
          (HeaderMachine.run (claudeResultStep crates file background value) drafted.1
            (if Claude.entryType value = "user" then blocks else [])).2
         text := claudeText crates row.1 value content }]

def claudeStep (crates : Crates) (file : Claude.TranscriptFile) (background : Bool)
    (numbering : Claude.Numbering) (row : Nat × Json) : Claude.Numbering × List Entry :=
  ((Claude.parseRow crates file background numbering row).1,
    claudeEntries crates file background numbering row)

section Claude

variable {crates : Crates} {file : Claude.TranscriptFile} {background : Bool} {value : Json}

theorem claude_sessionIdFromPath_ne (path : String) : Claude.sessionIdFromPath path ≠ "" := by
  rw [Claude.sessionIdFromPath]
  cases h : ((fileName (pathComponents path)).map fileStem).filter (· ≠ "") with
  | none => decide
  | some stem =>
      have hne := (Option.filter_eq_some_iff.mp h).2
      exact of_decide_eq_true hne

theorem map_mark_emit (numbering : Claude.Numbering) (record : Record) :
    (numbering.emit record).2.map mark = [mark record] := by
  rcases record with ⟨source, docId, ts, project, sessionId, turnId, role, body, toolName,
    toolInput, toolOutput, links, sourcePath⟩
  rcases links with ⟨legacyTurnId, offset⟩
  cases offset <;> rfl

theorem mark_emit (numbering : Claude.Numbering) (draft : Record) :
    (numbering.emit (Claude.entryRecord crates file value draft)).2.map mark =
      [⟨Claude.sessionIdFromPath file.path, draft.role, draft.toolName.getD "",
        draft.links.eventId, draft.links.sourceRecordOffset⟩] := by
  have hsession : (mark (Claude.entryRecord crates file value draft)).session =
      Claude.sessionIdFromPath file.path := if_neg (claude_sessionIdFromPath_ne file.path)
  rw [map_mark_emit, ← hsession]
  rfl

theorem claudeBlock_marks (numbering : Claude.Numbering) (block : Json × Nat) :
    (Claude.parseBlock crates file background value numbering block).2.map mark =
      (claudeBlock file block).toList.map
        (EntryBlock.mark (Claude.sessionIdFromPath file.path) (value.getStr "uuid")) := by
  rw [Claude.parseBlock, claudeBlock]
  generalize Claude.blockType block.1 = kind
  by_cases hcall : kind = "tool_use"
  · subst hcall
    simp only
    cases block.1.getStr "id" with
    | none =>
        simp only [mark_emit]
        rfl
    | some id =>
        simp only [mark_emit]
        rfl
  by_cases hthinking : kind = "thinking"
  · subst hthinking
    simp only
    cases ((block.1.getStr "thinking").map trim).filter (· ≠ "") with
    | none => rfl
    | some thinking =>
        cases file.includeReasoning with
        | false => rfl
        | true =>
            simp only [if_true, mark_emit]
            rfl
  simp only
  rfl

theorem claudeResult_marks (numbering : Claude.Numbering) (block : Json) :
    (Claude.parseToolResult crates file background value numbering block).2.map mark =
      (claudeResult numbering block).map
        (EntryBlock.mark (Claude.sessionIdFromPath file.path) (value.getStr "uuid")) := by
  simp only [Claude.parseToolResult, claudeResult]
  split
  · rfl
  · rw [mark_emit, List.map_singleton]
    cases block.getStr "tool_use_id" with
    | some id => rfl
    | none =>
        cases huuid : value.getStr "uuid" with
        | some uuid => simp [EntryBlock.mark, resultEvent, Claude.entryLinks, huuid]
        | none => simp [EntryBlock.mark, Claude.entryLinks, huuid]

theorem claudeText_marks (numbering : Claude.Numbering) (offset : Nat) (content : Option Json)
    (hspeaker : Claude.entryType value = (claudeSpeaker value).role) :
    (Claude.parseText crates file background offset value content numbering).2.map mark =
      (claudeText crates offset value content).toList.map
        (EntryText.mark (Claude.sessionIdFromPath file.path) (value.getStr "uuid")) := by
  simp only [Claude.parseText, claudeText]
  generalize trim (" ".intercalate (Claude.textParts content)) = text
  generalize Claude.sourceContent crates content = shown
  by_cases hmade : (text ≠ "" || shown.isSome) = true
  · rw [if_pos hmade, if_pos hmade, mark_emit]
    by_cases hempty : text = ""
    · rw [if_pos hempty, if_pos hempty, hspeaker]
      rfl
    · rw [if_neg hempty, if_neg hempty, hspeaker]
      rfl
  · rw [if_neg hmade, if_neg hmade]
    rfl

theorem claudeRow_marks (numbering : Claude.Numbering) (row : Nat × Json) :
    (Claude.parseRow crates file background numbering row).2.map mark =
      (claudeEntries crates file background numbering row).flatMap Entry.marks := by
  simp only [Claude.parseRow, claudeEntries]
  generalize hmessage : (if (row.2.isObject && (decide (Claude.entryType row.2 = "user") ||
      decide (Claude.entryType row.2 = "assistant"))) = true then
    (row.2.get "message").filter Json.isObject else none) = found
  cases found with
  | none => rfl
  | some message =>
    have hspeaker : Claude.entryType row.2 = (claudeSpeaker row.2).role := by
      split at hmessage
      · next hentry =>
        rw [Bool.and_eq_true, Bool.or_eq_true, decide_eq_true_eq, decide_eq_true_eq] at hentry
        rw [claudeSpeaker]
        rcases hentry.2 with huser | hassistant
        · rw [if_pos huser, huser]
          rfl
        · rw [hassistant]
          rfl
      · cases hmessage
    have hstate (numbering : Claude.Numbering) (block : Json) :
        (claudeResultStep crates file background row.2 numbering block).1 =
          (Claude.parseToolResult crates file background row.2 numbering block).1 := rfl
    have hviews (numbering : Claude.Numbering) (block : Json) :
        (Claude.parseToolResult crates file background row.2 numbering block).2.map mark =
          (claudeResultStep crates file background row.2 numbering block).2.flatMap fun part =>
            [part.mark (Claude.sessionIdFromPath file.path) (row.2.getStr "uuid")] := by
      rw [claudeResult_marks, List.map_eq_flatMap]
      rfl
    rw [List.flatMap_singleton, Entry.marks, List.map_append, List.map_append, List.map_append,
      HeaderMachine.run_map_of_stateless claudeBlock_marks, flatMap_toList,
      HeaderMachine.run_map_eq_flatMap hstate hviews, ← List.map_eq_flatMap,
      claudeText_marks _ _ _ hspeaker]

/-- The record names the file and stands under its session. -/
structure FiledIn (file : Claude.TranscriptFile) (record : Record) : Prop where
  source : record.source = .claude
  path : record.sourcePath = file.path
  session : record.sessionId = Claude.sessionIdFromPath file.path

theorem filedIn_emit (numbering : Claude.Numbering) (value : Json) (draft : Record) :
    ∀ record ∈ (numbering.emit (Claude.entryRecord crates file value draft)).2,
      FiledIn file record := by
  intro record hrecord
  rw [List.mem_singleton.mp hrecord]
  exact ⟨rfl, rfl, rfl⟩

theorem filedIn_parseRow (numbering : Claude.Numbering) (row : Nat × Json) :
    ∀ record ∈ (Claude.parseRow crates file background numbering row).2,
      FiledIn file record := by
  have hnone : ∀ record ∈ ([] : List Record), FiledIn file record :=
    fun _ h => absurd h List.not_mem_nil
  simp only [Claude.parseRow]
  split
  · exact hnone
  · dsimp only
    refine List.forall_mem_append.mpr ⟨List.forall_mem_append.mpr ⟨?_, ?_⟩, ?_⟩
    · apply HeaderMachine.forall_mem_run
      intro numbering block
      simp only [Claude.parseBlock]
      split
      · exact filedIn_emit _ _ _
      · split
        · split
          · exact filedIn_emit _ _ _
          · exact hnone
        · exact hnone
      · exact hnone
    · apply HeaderMachine.forall_mem_run
      intro numbering block
      simp only [Claude.parseToolResult]
      split
      · exact hnone
      · exact filedIn_emit _ _ _
    · simp only [Claude.parseText]
      split
      · exact filedIn_emit _ _ _
      · exact hnone

/-- The entries of the transcript that one parse reads. -/
def claudeTranscript (crates : Crates) (reader : Claude.TranscriptReader)
    (file : Claude.TranscriptFile) (bytes : Bytes) (offset : Nat) (numbering : Claude.Numbering)
    (knownBackground : Option Bool) (byteBoundary : Nat) : List Entry :=
  let mapped := bytes.take byteBoundary
  let background := knownBackground.getD (Claude.hasBackgroundLine reader.toLineReader mapped)
  (scan reader.toLineReader (Claude.leavesTail reader bytes byteBoundary)
    (claudeStep crates file background) mapped.length offset (mapped.drop offset)
      numbering).emitted

theorem shownOffset_claudeEntries (numbering : Claude.Numbering) (row : Nat × Json) :
    ∀ entry ∈ claudeEntries crates file background numbering row,
      ∀ offset ∈ entry.shownOffset, offset = row.1 := by
  intro entry hentry offset hoffset
  simp only [claudeEntries] at hentry
  split at hentry
  · exact absurd hentry List.not_mem_nil
  · rw [List.mem_singleton.mp hentry, Entry.shownOffset] at hoffset
    dsimp only [claudeText] at hoffset
    split at hoffset
    · next speaker shown htext =>
      obtain rfl := Option.some.inj hoffset
      split at htext
      · split at htext
        · cases htext
          rfl
        · cases htext
      · cases htext
    · cases hoffset

theorem length_claudeEntries_le (numbering : Claude.Numbering) (row : Nat × Json) :
    (claudeEntries crates file background numbering row).length ≤ 1 := by
  simp only [claudeEntries]
  split
  · exact Nat.zero_le 1
  · exact le_refl 1

/-- Rows on different lines show their attachments under different offsets. -/
theorem nodup_shownOffsets {rows : List (Nat × Json)}
    (hrows : rows.Pairwise fun row later => row.1 < later.1) (numbering : Claude.Numbering) :
    ((HeaderMachine.run (claudeStep crates file background) numbering rows).2.filterMap
      Entry.shownOffset).Nodup := by
  have hbound (rows : List (Nat × Json)) (numbering : Claude.Numbering) :
      ∀ entry ∈ (HeaderMachine.run (claudeStep crates file background) numbering rows).2,
        ∀ offset ∈ entry.shownOffset, offset ∈ rows.map Prod.fst := by
    induction rows generalizing numbering with
    | nil => exact fun _ h => absurd h List.not_mem_nil
    | cons row rest ih =>
        rw [HeaderMachine.run_cons, List.map_cons]
        intro entry hentry offset hoffset
        rcases List.mem_append.mp hentry with hfirst | hlater
        · rw [shownOffset_claudeEntries numbering row entry hfirst offset hoffset]
          exact List.mem_cons_self
        · exact List.mem_cons_of_mem _ (ih _ entry hlater offset hoffset)
  induction rows generalizing numbering with
  | nil => exact List.nodup_nil
  | cons row rest ih =>
      obtain ⟨hrow, hrest⟩ := List.pairwise_cons.mp hrows
      rw [HeaderMachine.run_cons, List.filterMap_append]
      apply List.Nodup.append _ (ih hrest _)
      · intro offset hoffset hoffset'
        obtain ⟨entry, hentry, hshown⟩ := List.mem_filterMap.mp hoffset
        obtain ⟨entry', hentry', hshown'⟩ := List.mem_filterMap.mp hoffset'
        have hbehind := hbound _ _ entry' hentry' offset hshown'
        obtain ⟨later, hlater, rfl⟩ := List.mem_map.mp hbehind
        have hsame := shownOffset_claudeEntries numbering row entry hentry later.1 hshown
        have hless := hrow later hlater
        omega
      · have hlength := @length_claudeEntries_le crates file background numbering row
        change (List.filterMap Entry.shownOffset (claudeEntries crates file background numbering
          row)).Nodup
        generalize claudeEntries crates file background numbering row = entries at hlength
        match entries, hlength with
        | [], _ => exact List.nodup_nil
        | [entry], _ =>
            rw [List.filterMap_cons, List.filterMap_nil]
            cases entry.shownOffset with
            | none => exact List.nodup_nil
            | some offset => exact List.nodup_singleton offset

theorem claudeTranscript_madeOf (crates : Crates) (reader : Claude.TranscriptReader)
    (file : Claude.TranscriptFile) (bytes : Bytes) (offset : Nat) (numbering : Claude.Numbering)
    (knownBackground : Option Bool) (byteBoundary : Nat) :
    MadeOf .claude file.path
      (Claude.parseIndexRecordsWithBackground crates reader file bytes offset numbering
        knownBackground byteBoundary).records
      (claudeTranscript crates reader file bytes offset numbering knownBackground
        byteBoundary) := by
  let mapped := bytes.take byteBoundary
  let background := knownBackground.getD (Claude.hasBackgroundLine reader.toLineReader mapped)
  obtain ⟨rows, hrows, -, hrun⟩ := exists_scan_rows reader.toLineReader
    (Claude.leavesTail reader bytes byteBoundary) mapped.length offset (mapped.drop offset)
  have hrecords : (Claude.parseIndexRecordsWithBackground crates reader file bytes offset numbering
      knownBackground byteBoundary).records =
        (HeaderMachine.run (Claude.parseRow crates file background) numbering rows).2 :=
    congrArg Prod.snd (hrun _ _ (Claude.parseRow crates file background) numbering)
  have hentries : claudeTranscript crates reader file bytes offset numbering knownBackground
      byteBoundary = (HeaderMachine.run (claudeStep crates file background) numbering rows).2 :=
    congrArg Prod.snd (hrun _ _ (claudeStep crates file background) numbering)
  have hstate (numbering : Claude.Numbering) (row : Nat × Json) :
      (claudeStep crates file background numbering row).1 =
        (Claude.parseRow crates file background numbering row).1 := rfl
  have hplace : ∀ record ∈
      (HeaderMachine.run (Claude.parseRow crates file background) numbering rows).2,
      FiledIn file record := HeaderMachine.forall_mem_run filedIn_parseRow _ _
  constructor
  · rw [hrecords, hentries]
    exact HeaderMachine.run_map_eq_flatMap hstate claudeRow_marks _ _
  · rw [hrecords]
    exact fun record hrecord => (hplace record hrecord).source
  · rw [hrecords]
    exact fun record hrecord => (hplace record hrecord).path
  · rw [hrecords]
    intro record hrecord _
    rw [(hplace record hrecord).session]
    exact claude_sessionIdFromPath_ne file.path
  · rw [hentries]
    exact nodup_shownOffsets hrows numbering

end Claude

/-! ## One parse -/

/-- One parse of a transcript, from any state a run before it has left. -/
inductive TranscriptParse where
  | pi (crates : Crates) (reader : LineReader Json) (file : Pi.TranscriptFile) (bytes : Bytes)
      (state : IndexParseState Carried)
  | claude (crates : Crates) (reader : Claude.TranscriptReader) (file : Claude.TranscriptFile)
      (bytes : Bytes) (offset : Nat) (numbering : Claude.Numbering)
      (knownBackground : Option Bool) (byteBoundary : Nat)
  | jcode (crates : Crates) (lookups : Analytics.SessionLookups) (read : Bytes → Option Json)
      (file : Jcode.TranscriptFile) (bytes : Bytes) (carried : Carried)

namespace TranscriptParse

def records : TranscriptParse → List Record
  | pi crates reader file bytes state =>
      (Pi.parseIndexRecordsFor crates reader file bytes state).records
  | claude crates reader file bytes offset numbering knownBackground byteBoundary =>
      (Claude.parseIndexRecordsWithBackground crates reader file bytes offset numbering
        knownBackground byteBoundary).records
  | jcode crates lookups read file bytes carried =>
      (Jcode.parseIndexRecords crates lookups read file bytes carried).records

def entries : TranscriptParse → List Entry
  | pi crates reader file bytes state => piTranscript crates reader file bytes state
  | claude crates reader file bytes offset numbering knownBackground byteBoundary =>
      claudeTranscript crates reader file bytes offset numbering knownBackground byteBoundary
  | jcode crates lookups read file bytes carried =>
      jcodeTranscript crates lookups read file bytes carried

theorem madeOf (parse : TranscriptParse) :
    ∃ source path, MadeOf source path parse.records parse.entries := by
  cases parse with
  | pi crates reader file bytes state =>
      exact ⟨file.source, file.path, piTranscript_madeOf crates reader file bytes state⟩
  | claude crates reader file bytes offset numbering knownBackground byteBoundary =>
      exact ⟨.claude, file.path, claudeTranscript_madeOf crates reader file bytes offset numbering
        knownBackground byteBoundary⟩
  | jcode crates lookups read file bytes carried =>
      exact ⟨.jcode, file.path, jcodeTranscript_madeOf crates lookups read file bytes carried⟩

end TranscriptParse

/-- A Pi transcript of one assistant message. -/
def assistantMessage (blocks : List Json) : Json :=
  .object [("type", .string "message"), ("id", .string "m1"),
    ("message", .object [("role", .string "assistant"), ("content", .array blocks)])]

def thinkingBlock (text : String) : Json :=
  .object [("type", .string "thinking"), ("thinking", .string text)]

def messageParse (blocks : List Json) : TranscriptParse :=
  .pi plainCrates (listedReader [assistantMessage blocks]) ⟨"/s/x.jsonl", .pi, true⟩
    (valueLines [assistantMessage blocks]).flatten { carried := {} }

/-- A digest that writes the bytes out. -/
def plainDigest (bytes : Bytes) : String :=
  String.ofList (bytes.map fun byte => Char.ofNat byte.toNat)

theorem plainDigest_injective : Function.Injective plainDigest := by
  intro left right h
  have hchars := String.ofList_injective h
  apply List.map_injective_iff.mpr _ hchars
  have hback : ∀ value < 256, (Char.ofNat value).toNat = value := by decide +kernel
  intro byte byte' hbyte
  have hnat := congrArg Char.toNat hbyte
  rw [hback _ byte.toNat_lt, hback _ byte'.toNat_lt] at hnat
  exact UInt8.toNat_inj.mp hnat

end Memex.Retrieval
