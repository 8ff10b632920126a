import Memex.Lib.FirstByKey
import Memex.Sources.Bob

/-! # Rewrites of a task's rows

Bob deletes the rows of a task and inserts them again, under other row ids and creation times and in
another order. Records and usage survive this if the messages' own times order them. -/

namespace Memex.Sources.Bob

open Overlay State Usage LineStream FirstByKey

/-- The rows of a task are written anew; all else stays. -/
structure Rewrite (taskId : String) (before after : Database) : Prop where
  tasks : after.tasks = before.tasks
  others : (after.messages.filter fun row => row.taskId ≠ taskId) =
    before.messages.filter fun row => row.taskId ≠ taskId
  own : ((after.rowsOf taskId).map MessageRow.toStored).Perm
    ((before.rowsOf taskId).map MessageRow.toStored)

section Conditions

variable (read : String → Option Json) (lossy : Bytes → String)

/-- The row is an object with a time of its own. -/
def CarriesTimestamp (row : Stored) : Prop :=
  ∃ data ∈ read row.data, data.isObject = true ∧ (ownTimestamp data).isSome = true

/-- A message that leaves no trace among the records. -/
def isSilent (message : Message) : Bool :=
  match message.role with
  | "user" => isBlankText (TaskParser.userText message.data)
  | "assistant" =>
      (TaskParser.isHidden message.data || isBlankText (contentText message.data)) &&
        (TaskParser.toolCalls message.data).isEmpty
  | "tool" =>
      isBlankText (TaskParser.resultText message.data) &&
        (TaskParser.answeredCall message.data).isNone && (transcript message.data).isNone
  | _ => true

/-- A row's message as it is ordered by its own time. -/
def ownMessage (row : Stored) : Option Message :=
  (read row.data).bind fun data =>
    if data.isObject then
      (ownTimestamp data).map fun ts => { ts, id := row.id, role := row.role, data }
    else none

/-- The messages of a task that are not silent. -/
def spokenMessages (database : Database) (taskId : String) : List Message :=
  (((database.rowsOf taskId).map MessageRow.toStored).filterMap (ownMessage read)).filter
    fun message => !isSilent message

/-- Usage under an id that a row of the task shares with another row is the same in both. -/
def SharedUsageAgrees (database : Database) (sourcePath taskId : String) : Prop :=
  ∀ row ∈ database.rowsOf taskId, ∀ other ∈ database.messages, ∀ messageId : String,
    ∀ spend ∈ (rowSpends read lossy database sourcePath row).find?
      (fun spend => spend.messageId = messageId),
    ∀ spend' ∈ (rowSpends read lossy database sourcePath other).find?
      (fun spend => spend.messageId = messageId), spend.event = spend'.event

end Conditions

/-! ## Records -/

section Records

variable {read : String → Option Json} {crates : Crates} {lossy : Bytes → String}
  {taskId : String} {before after : Database}

/-- A silent message changes nothing. -/
theorem emitMessage_of_silent (parser : TaskParser) {message : Message}
    (h : isSilent message = true) (remaining : Nat) (scope : SessionScope) (carried : Carried) :
    parser.emitMessage crates remaining scope carried message = carried.silent := by
  by_cases huser : message.role = "user"
  · have hblank : isBlankText (TaskParser.userText message.data) = true := by
      simpa only [isSilent, huser] using h
    simp only [TaskParser.emitMessage, huser, TaskParser.emitUser, if_pos hblank]
  by_cases hassistant : message.role = "assistant"
  · simp only [isSilent, hassistant, Bool.and_eq_true, List.isEmpty_iff] at h
    obtain ⟨hsaid, hcalls⟩ := h
    simp only [TaskParser.emitMessage, hassistant, TaskParser.emitAssistant, if_pos hsaid, hcalls,
      List.zipIdx_nil, HeaderMachine.run_nil, List.append_nil]
  by_cases htool : message.role = "tool"
  · simp only [isSilent, htool, Bool.and_eq_true, Option.isNone_iff_eq_none] at h
    obtain ⟨⟨htext, hcall⟩, htranscript⟩ := h
    have hanswered : parser.emitTool scope message carried = carried.silent := by
      simp only [TaskParser.emitTool, if_pos htext, hcall]
      rfl
    simp only [TaskParser.emitMessage, htool, htranscript, hanswered]
  · rw [TaskParser.emitMessage]
    split
    next hrole => exact absurd hrole huser
    next hrole => exact absurd hrole hassistant
    next hrole => exact absurd hrole htool
    next => rfl

/-- Steps that change nothing may be left out of a run. -/
theorem run_filter {σ α ρ : Type*} {step : σ → α → σ × List ρ} {idle : α → Bool}
    (h : ∀ state input, idle input = true → step state input = (state, [])) (state : σ)
    (inputs : List α) :
    HeaderMachine.run step state (inputs.filter fun input => !idle input) =
      HeaderMachine.run step state inputs := by
  induction inputs generalizing state with
  | nil => rfl
  | cons input rest ih =>
      rw [HeaderMachine.run_cons]
      by_cases hidle : idle input = true
      · rw [List.filter_cons_of_neg (by simpa using hidle), ih, h state input hidle]
        rfl
      · rw [List.filter_cons_of_pos (by simpa using hidle), HeaderMachine.run_cons, ih]

theorem Before.ts_le {message other : PlacedMessage} (h : message.Before other) :
    message.ts ≤ other.ts := by
  obtain hlt | ⟨heq, -⟩ := h
  · exact hlt.le
  · exact heq.le

instance : Std.Total PlacedMessage.Before where
  total message other := by
    simp only [PlacedMessage.Before]
    omega

instance : IsTrans PlacedMessage PlacedMessage.Before where
  trans first second third hfirst hsecond := by
    simp only [PlacedMessage.Before] at hfirst hsecond ⊢
    omega

theorem inOrder_perm (messages : List PlacedMessage) :
    (inOrder messages).Perm (messages.map PlacedMessage.toMessage) :=
  (List.perm_insertionSort _ messages).map _

theorem pairwise_inOrder (messages : List PlacedMessage) :
    (inOrder messages).Pairwise fun message other => message.ts ≤ other.ts := by
  rw [inOrder, List.pairwise_map]
  exact (List.pairwise_insertionSort PlacedMessage.Before messages).imp Before.ts_le

/-- Of messages at different times the order is known. -/
theorem pairwise_lt {messages : List Message}
    (h : messages.Pairwise fun message other => message.ts ≤ other.ts)
    (hnodup : (messages.map Message.ts).Nodup) :
    messages.Pairwise fun message other => message.ts < other.ts := by
  rw [List.Nodup, List.pairwise_map] at hnodup
  exact (h.and hnodup).imp fun ⟨hle, hne⟩ => lt_of_le_of_ne hle hne

/-- What is said is in one order, wherever it was stored. -/
theorem inOrder_filter_eq {messages messages' : List PlacedMessage}
    (hperm : (messages'.map PlacedMessage.toMessage).Perm
      (messages.map PlacedMessage.toMessage))
    (hnodup : (((messages.map PlacedMessage.toMessage).filter fun message =>
      !isSilent message).map Message.ts).Nodup) :
    ((inOrder messages').filter fun message => !isSilent message) =
      (inOrder messages).filter fun message => !isSilent message := by
  have hspoken := ((inOrder_perm messages).filter fun message => !isSilent message)
  have hspoken' := ((inOrder_perm messages').filter fun message => !isSilent message)
  have hall := hspoken'.trans ((hperm.filter fun message => !isSilent message).trans hspoken.symm)
  have hdistinct := (hspoken.map Message.ts).nodup_iff.mpr hnodup
  have hdistinct' := (hall.map Message.ts).nodup_iff.mpr hdistinct
  apply List.Perm.eq_of_pairwise _ _ _ hall
  · exact fun message other => message.ts < other.ts
  · intro message other _ _ hlt hgt
    omega
  · exact pairwise_lt ((pairwise_inOrder messages').filter _) hdistinct'
  · exact pairwise_lt ((pairwise_inOrder messages).filter _) hdistinct

/-- A message with a time of its own does not know where it is stored. -/
theorem placedMessage_toMessage {row : MessageRow} (h : CarriesTimestamp read row.toStored) :
    (placedMessage read row).map PlacedMessage.toMessage = ownMessage read row.toStored := by
  obtain ⟨data, hdata, hobject, htime⟩ := h
  obtain ⟨ts, hts⟩ := Option.isSome_iff_exists.mp htime
  simp only [placedMessage, ownMessage, Option.mem_def.mp hdata, Option.bind_some, hobject, hts,
    messageTimestamp, if_true, Option.map_some, Option.getD_some]

theorem placedMessages_toMessage {rows : List MessageRow}
    (h : ∀ row ∈ rows, CarriesTimestamp read row.toStored) :
    (rows.filterMap (placedMessage read)).map PlacedMessage.toMessage =
      (rows.map MessageRow.toStored).filterMap (ownMessage read) := by
  rw [List.map_filterMap, List.filterMap_map]
  apply List.filterMap_congr
  exact fun row hrow => placedMessage_toMessage (h row hrow)

theorem Rewrite.carries (h : Rewrite taskId before after)
    (hcarries : ∀ row ∈ before.rowsOf taskId, CarriesTimestamp read row.toStored) :
    ∀ row ∈ after.rowsOf taskId, CarriesTimestamp read row.toStored := by
  intro row hrow
  have hstored := h.own.mem_iff.mp (List.mem_map_of_mem hrow)
  obtain ⟨old, hold, heq⟩ := List.mem_map.mp hstored
  exact heq ▸ hcarries old hold

theorem Rewrite.lookupTask (h : Rewrite taskId before after) (other : String) :
    after.lookupTask other = before.lookupTask other := by
  rw [Database.lookupTask, Database.lookupTask, h.tasks]

theorem Rewrite.rowsOf_of_ne (h : Rewrite taskId before after) {other : String}
    (hne : other ≠ taskId) : after.rowsOf other = before.rowsOf other := by
  have hkept : ∀ database : Database, database.rowsOf other =
      (database.messages.filter fun row => row.taskId ≠ taskId).filter fun row =>
        row.taskId = other := by
    intro database
    rw [List.filter_filter]
    apply List.filter_congr
    intro row _
    by_cases heq : row.taskId = other
    · simp [heq, hne]
    · simp [heq]
  rw [hkept, hkept, h.others]

/-- The parser hands on the same. -/
theorem parseIndexRecords_rewrite (h : Rewrite taskId before after)
    (hcarries : ∀ row ∈ before.rowsOf taskId, CarriesTimestamp read row.toStored)
    (hdistinct : ((spokenMessages read before taskId).map Message.ts).Nodup)
    (sourcePath other : String) (state : Carried) :
    parseIndexRecords read crates lossy after sourcePath other state =
      parseIndexRecords read crates lossy before sourcePath other state := by
  simp only [parseIndexRecords, h.lookupTask]
  cases before.lookupTask other with
  | none => rfl
  | some task =>
      by_cases hother : other = taskId
      · subst hother
        have hlength : (after.rowsOf other).length = (before.rowsOf other).length := by
          have hperm := h.own.length_eq
          rwa [List.length_map, List.length_map] at hperm
        have hmessages := placedMessages_toMessage hcarries
        have hperm := h.own.filterMap (ownMessage read)
        rw [← placedMessages_toMessage (h.carries hcarries), ← hmessages] at hperm
        have hnodup := hdistinct
        rw [spokenMessages, ← hmessages] at hnodup
        have horder := inOrder_filter_eq hperm hnodup
        have hrun : ∀ (parser : TaskParser) (messages : List Message), HeaderMachine.run
            (parser.emitMessage crates maxSubagentDepth (taskScope task)) state
              (messages.filter fun message => !isSilent message) =
            HeaderMachine.run (parser.emitMessage crates maxSubagentDepth (taskScope task)) state
              messages := by
          intro parser messages
          apply run_filter
          intro carried message hsilent
          exact emitMessage_of_silent parser hsilent maxSubagentDepth (taskScope task) carried
        simp only [← hrun _ (inOrder _), horder, hlength]
      · simp only [h.rowsOf_of_ne hother]

end Records

/-! ## Usage -/

/-- The event without its order number. -/
def unordered (event : UsageEvent) : UsageEvent :=
  { event with sourceOrder := 0 }

/-- What is collected are the events of the first spends under every id. -/
theorem foldl_offer (spends : List Spend) (collected : Collected) :
    (spends.foldl Collected.offer collected).events.map unordered =
      collected.events.map unordered ++
        (firsts Spend.messageId collected.seen spends).filterMap fun spend =>
          spend.event.map unordered := by
  induction spends generalizing collected with
  | nil => simp [firsts]
  | cons spend rest ih =>
      rw [List.foldl_cons, ih, firsts, Collected.offer]
      by_cases hseen : spend.messageId ∈ collected.seen
      · rw [if_pos hseen, if_pos hseen]
      · rw [if_neg hseen, if_neg hseen, List.map_append, List.append_assoc]
        congr 1
        cases hevent : spend.event with
        | none =>
            rw [List.filterMap_cons_none (by rw [hevent]; rfl)]
            rfl
        | some event =>
            rw [List.filterMap_cons_some (b := unordered event) (by rw [hevent]; rfl)]
            rfl

section Spends

variable {read : String → Option Json} {lossy : Bytes → String} {taskId sourcePath : String}
  {before after : Database}

/-- A row of the task without what a rewrite changes; another row as it is. -/
def settled (taskId : String) (row : MessageRow) : MessageRow :=
  if row.taskId = taskId then { toStored := row.toStored, rowid := 0, createdAt := 0 } else row

theorem settled_taskId (row : MessageRow) : (settled taskId row).taskId = row.taskId := by
  rw [settled]
  split
  · rfl
  · rfl

theorem rowSpends_settled {database : Database} {row : MessageRow}
    (h : row.taskId = taskId → CarriesTimestamp read row.toStored) :
    rowSpends read lossy database sourcePath (settled taskId row) =
      rowSpends read lossy database sourcePath row := by
  rw [settled]
  split
  next htask =>
    obtain ⟨data, hdata, -, htime⟩ := h htask
    obtain ⟨ts, hts⟩ := Option.isSome_iff_exists.mp htime
    simp only [rowSpends, Option.mem_def.mp hdata]
    cases database.lookupTask row.taskId with
    | none => rfl
    | some task => simp only [messageTimestamp, hts, Option.getD_some]
  next => rfl

theorem filter_settled (moves : String → Bool) (rows : List MessageRow) :
    ((rows.map (settled taskId)).filter fun row => moves row.taskId) =
      (rows.filter fun row => moves row.taskId).map (settled taskId) := by
  rw [List.filter_map]
  congr 1
  apply List.filter_congr
  intro row _
  rw [Function.comp_apply, settled_taskId]

theorem map_settled_rowsOf (database : Database) :
    (database.rowsOf taskId).map (settled taskId) =
      ((database.rowsOf taskId).map MessageRow.toStored).map fun stored =>
        { toStored := stored, rowid := 0, createdAt := 0 } := by
  rw [List.map_map]
  apply List.map_congr_left
  intro row hrow
  exact if_pos (of_decide_eq_true (List.mem_filter.mp hrow).2)

theorem Rewrite.shuffled (h : Rewrite taskId before after) :
    Shuffled (fun row : MessageRow => row.taskId = taskId)
      (before.messages.map (settled taskId)) (after.messages.map (settled taskId)) where
  still := by
    rw [filter_settled fun task => decide ¬task = taskId,
      filter_settled fun task => decide ¬task = taskId]
    exact congrArg _ h.others
  moved := by
    rw [filter_settled fun task => decide (task = taskId),
      filter_settled fun task => decide (task = taskId)]
    have hown := h.own.map fun stored =>
      ({ toStored := stored, rowid := 0, createdAt := 0 } : MessageRow)
    rw [← map_settled_rowsOf, ← map_settled_rowsOf] at hown
    exact hown

/-- The usage of a database, from its settled rows. -/
theorem parseUsageFile_settled {database : Database}
    (h : ∀ row ∈ database.rowsOf taskId, CarriesTimestamp read row.toStored) :
    (parseUsageFile read lossy database sourcePath).map unordered =
      (firsts Spend.messageId [] ((database.messages.map (settled taskId)).flatMap
        (rowSpends read lossy database sourcePath))).filterMap fun spend =>
          spend.event.map unordered := by
  rw [parseUsageFile, foldl_offer, List.map_nil, List.nil_append, List.flatMap_map]
  congr 2
  apply List.flatMap_congr
  intro row hrow
  apply Eq.symm
  apply rowSpends_settled
  intro htask
  exact h row (List.mem_filter.mpr ⟨hrow, decide_eq_true htask⟩)

/-- The same usage is collected, in another order. -/
theorem parseUsageFile_rewrite (h : Rewrite taskId before after)
    (hcarries : ∀ row ∈ before.rowsOf taskId, CarriesTimestamp read row.toStored)
    (hagrees : SharedUsageAgrees read lossy before sourcePath taskId) :
    ((parseUsageFile read lossy after sourcePath).map unordered).Perm
      ((parseUsageFile read lossy before sourcePath).map unordered) := by
  rw [parseUsageFile_settled hcarries, parseUsageFile_settled (h.carries hcarries)]
  have hspends : rowSpends read lossy after sourcePath =
      rowSpends read lossy before sourcePath := by
    funext row
    simp only [rowSpends, h.lookupTask]
  rw [hspends]
  apply filterMap_firsts_perm
  intro messageId
  rw [List.find?_flatMap, List.find?_flatMap]
  apply h.shuffled.findSome?_map_eq
  intro settledRow hsettled hmoves settledOther hsettledOther spend hspend spend' hspend'
  obtain ⟨row, hrow, rfl⟩ := List.mem_map.mp hsettled
  obtain ⟨other, hother, rfl⟩ := List.mem_map.mp hsettledOther
  have hcarried : ∀ row ∈ before.messages, row.taskId = taskId →
      CarriesTimestamp read row.toStored := by
    intro row hrow htask
    exact hcarries row (List.mem_filter.mpr ⟨hrow, decide_eq_true htask⟩)
  rw [settled_taskId] at hmoves
  rw [rowSpends_settled (hcarried row hrow)] at hspend
  rw [rowSpends_settled (hcarried other hother)] at hspend'
  have hmem : row ∈ before.rowsOf taskId :=
    List.mem_filter.mpr ⟨hrow, decide_eq_true hmoves⟩
  rw [hagrees row hmem other hother messageId spend hspend spend' hspend']

end Spends

/-! ## Replays -/

/-- Bob rewrites a task whose messages carry their times. If no two messages that leave a trace
carry the same time and shared ids stand for the same usage, the replays are the same. -/
theorem replay_rewrite (read : String → Option Json) (crates : Crates) (lossy : Bytes → String)
    {taskId : String} {before after : Database} (sourcePath : String)
    (hrewrite : Rewrite taskId before after)
    (hcarries : ∀ row ∈ before.rowsOf taskId, CarriesTimestamp read row.toStored)
    (hdistinct : ((spokenMessages read before taskId).map Message.ts).Nodup)
    (hagrees : SharedUsageAgrees read lossy before sourcePath taskId) :
    (∀ (virtualPath other : String) (state : Carried),
      parseIndexRecords read crates lossy after virtualPath other state =
        parseIndexRecords read crates lossy before virtualPath other state) ∧
      ((parseUsageFile read lossy after sourcePath).map unordered).Perm
        ((parseUsageFile read lossy before sourcePath).map unordered) := by
  constructor
  · intro virtualPath other state
    exact parseIndexRecords_rewrite hrewrite hcarries hdistinct virtualPath other state
  · exact parseUsageFile_rewrite hrewrite hcarries hagrees

/-! A question, an answer with its usage, and a question asked at the time of the first. -/

private def question (ts : Int) : Json :=
  .object [("_meta", .object [("timestamp", .int ts)]), ("content", .string "why")]

private def answer : Json :=
  .object [("_meta", .object [("spend", .object [("input", .int 3), ("output", .int 1)]),
    ("timestamp", .int 2)]), ("content", .string "because")]

private def questionText : String :=
  "\x7b\"_meta\":\x7b\"timestamp\":1\x7d,\"content\":\"why\"\x7d"

private def answerText : String :=
  "\x7b\"_meta\":\x7b\"spend\":\x7b\"input\":3,\"output\":1\x7d,\"timestamp\":2\x7d," ++
    "\"content\":\"because\"\x7d"

private def readText (text : String) : Option Json :=
  if text = questionText then some (question 1)
  else if text = answerText then some answer
  else none

private def asciiText (bytes : Bytes) : String :=
  String.ofList (bytes.map fun byte => Char.ofNat byte.toNat)

private def onlyTask : BobTask where
  id := "task"
  parentId := none
  taskType := some "normal"
  projectId := none

private def askRow (id : String) (rowid createdAt : Int) : MessageRow where
  id := id
  taskId := "task"
  role := "user"
  data := questionText
  rowid := rowid
  createdAt := createdAt

private def answerRow (rowid createdAt : Int) : MessageRow where
  id := "answer"
  taskId := "task"
  role := "assistant"
  data := answerText
  rowid := rowid
  createdAt := createdAt

private def answered : Database where
  tasks := [onlyTask]
  messages := [askRow "ask" 1 10, answerRow 2 20]
  taskIds := by decide
  ordered := by decide

private def answeredAgain : Database where
  tasks := [onlyTask]
  messages := [answerRow 7 70, askRow "ask" 8 70]
  taskIds := by decide
  ordered := by decide

private theorem askRow_carries (id : String) (rowid createdAt : Int) :
    CarriesTimestamp readText (askRow id rowid createdAt).toStored := by
  refine ⟨question 1, ?_, rfl, rfl⟩
  exact if_pos rfl

private theorem answerRow_carries (rowid createdAt : Int) :
    CarriesTimestamp readText (answerRow rowid createdAt).toStored := by
  refine ⟨answer, ?_, rfl, rfl⟩
  have hne : answerText ≠ questionText := by decide +kernel
  exact (if_neg hne).trans (if_pos rfl)

private theorem answered_agrees :
    SharedUsageAgrees readText asciiText answered "bob.db" "task" := by
  have hask : rowSpends readText asciiText answered "bob.db" (askRow "ask" 1 10) = [] := by
    have hselected : isSelected (askRow "ask" 1 10).toStored = false := by decide +kernel
    simp only [rowSpends, hselected]
    split
    · rfl
    · rfl
  intro row hrow other hother messageId spend hspend spend' hspend'
  have hcases : ∀ row ∈ answered.messages, row = askRow "ask" 1 10 ∨ row = answerRow 2 20 := by
    intro row hrow
    simpa [answered] using hrow
  obtain rfl | rfl := hcases row (List.mem_filter.mp hrow).1
  · rw [hask] at hspend
    cases hspend
  · obtain rfl | rfl := hcases other hother
    · rw [hask] at hspend'
      cases hspend'
    · rw [Option.some.inj (hspend.symm.trans hspend')]

theorem replay_rewrite_answered :
    ((parseUsageFile readText asciiText answeredAgain "bob.db").map unordered).Perm
        ((parseUsageFile readText asciiText answered "bob.db").map unordered) ∧
      parseIndexRecords readText plainCrates asciiText answeredAgain "bob.db/task" "task" {} =
        parseIndexRecords readText plainCrates asciiText answered "bob.db/task" "task" {} := by
  have hrewrite : Rewrite "task" answered answeredAgain :=
    ⟨rfl, by decide, by decide⟩
  have hcarries : ∀ row ∈ answered.rowsOf "task", CarriesTimestamp readText row.toStored := by
    intro row hrow
    have hcases : row = askRow "ask" 1 10 ∨ row = answerRow 2 20 := by
      simpa [answered] using (List.mem_filter.mp hrow).1
    obtain rfl | rfl := hcases
    · exact askRow_carries "ask" 1 10
    · exact answerRow_carries 2 20
  have hreplay := replay_rewrite readText plainCrates asciiText "bob.db" hrewrite hcarries
    (by decide +kernel) answered_agrees
  exact ⟨hreplay.2, hreplay.1 "bob.db/task" "task" {}⟩

private def asked : Database where
  tasks := [onlyTask]
  messages := [askRow "first" 1 10, askRow "second" 2 10]
  taskIds := by decide
  ordered := by decide

private def askedAgain : Database where
  tasks := [onlyTask]
  messages := [askRow "second" 3 30, askRow "first" 4 30]
  taskIds := by decide
  ordered := by decide

/-- Two questions asked at one time change places with their rows. -/
theorem equal_times_follow_rows :
    ¬∀ before after : Database, Rewrite "task" before after →
      (∀ row ∈ before.messages, CarriesTimestamp readText row.toStored) →
      (parseIndexRecords readText plainCrates asciiText after "bob.db/task" "task" {}).records =
        (parseIndexRecords readText plainCrates asciiText before "bob.db/task" "task"
          {}).records := by
  intro h
  have hcarries : ∀ row ∈ asked.messages, CarriesTimestamp readText row.toStored := by
    intro row hrow
    have hcases : row = askRow "first" 1 10 ∨ row = askRow "second" 2 10 := by
      simpa [asked] using hrow
    obtain rfl | rfl := hcases
    · exact askRow_carries "first" 1 10
    · exact askRow_carries "second" 2 10
  have hsame := h asked askedAgain ⟨rfl, by decide, by decide⟩ hcarries
  revert hsame
  decide +kernel

end Memex.Sources.Bob
