import Memex.Lib.BooleanQuery
import Memex.Machine.HybridSearch
import Memex.Resume.LastSession
import Memex.Retrieval.CanonicalId

/-! # Filters of the index and of a record

`build_query` of `index.rs` filters stored documents by terms, `matches_filters` of `machine.rs`
the records that are read of them. -/

namespace Memex

/-- `SourceKind::from_label`. -/
def SourceKind.fromLabel (label : String) : Option SourceKind :=
  match label with
  | "claude" => some .claude
  | "codex" | "codex-session" | "codex-history" => some .codex
  | "opencode" => some .opencode
  | "cursor" => some .cursor
  | "pi" => some .pi
  | "openclaw" => some .openClaw
  | "copilot" => some .copilot
  | "omp" => some .omp
  | "grok" => some .grok
  | "hermes" => some .hermes
  | "jcode" => some .jcode
  | "muse" => some .muse
  | "antigravity" => some .antigravity
  | "bob" => some .bob
  | _ => none

/-- A label names a source exactly if it is one of those that the filter of the source asks
for. -/
theorem SourceKind.fromLabel_eq_some_iff {label : String} {source : SourceKind} :
    SourceKind.fromLabel label = some source ↔ label ∈ Resume.storageLabels source := by
  constructor
  · intro h
    unfold SourceKind.fromLabel at h
    split at h <;> first
      | (obtain rfl := Option.some.inj h
         simp [Resume.storageLabels, SourceKind.storageLabel])
      | cases h
  · intro hmem
    cases source <;>
      simp only [Resume.storageLabels, SourceKind.storageLabel, List.mem_cons,
        List.not_mem_nil, or_false] at hmem
    case codex =>
      obtain rfl | rfl | rfl := hmem <;> rfl
    all_goals
      subst hmem
      rfl

theorem SourceKind.fromLabel_storageLabel (source : SourceKind) :
    SourceKind.fromLabel source.storageLabel = some source := by
  cases source <;> rfl

end Memex

namespace Memex.Index.Filters

open BooleanQuery Machine

/-- The fields of a document. -/
inductive Field where
  | readerMetadata
  | canonicalRecordId
  | docId
  | ts
  | project
  | sessionId
  | turnId
  | role
  | text
  | source
  | toolName
  | toolInput
  | toolOutput
  | eventId
  | parentEventId
  | logicalParentEventId
  | parentSessionId
  | threadSource
  | conversationKind
  | parentToolUseId
  | sourceToolUseId
  | sourceToolAssistantUuid
  | sourcePath
  deriving DecidableEq, Repr

/-- `IndexFields`: which of the fields that older schemas lack there are. -/
structure IndexFields where
  readerMetadata : Option Field := some .readerMetadata
  canonicalRecordId : Option Field := some .canonicalRecordId
  source : Option Field := some .source
  deriving DecidableEq, Repr

inductive Value where
  | str (text : String)
  | u64 (number : Nat)
  deriving DecidableEq, Repr

/-- `TantivyDocument`: the values in the order in which they were added. -/
abbrev Document := List (Field × Value)

/-- What is not read of the index: classifying a path, and the JSON of the links. -/
structure Readers where
  fromPath : String → SourceKind
  linksOfJson : String → Option RecordLinks
  jsonOfLinks : RecordLinks → String
  digest : LineStream.Bytes → String

namespace Document

def getStr (doc : Document) (field : Field) : Option String :=
  match doc.lookup field with
  | some (.str text) => some text
  | _ => none

def getU64 (doc : Document) (field : Field) : Nat :=
  match doc.lookup field with
  | some (.u64 number) => number
  | _ => 0

/-- The values of a field. -/
def valuesOf (doc : Document) (field : Field) : List Value :=
  (doc.filter fun entry => entry.1 = field).map Prod.snd

end Document

/-- `add_record_owned`. -/
def addRecordOwned (readers : Readers) (fields : IndexFields) (record : Record) : Document :=
  let optional (field : Field) (value : Option String) : Document :=
    (value.map fun value => (field, Value.str value)).toList
  (fields.canonicalRecordId.map fun field =>
      (field, Value.str (Retrieval.canonicalRecordId readers.digest record))).toList ++
    ([(.docId, .u64 record.docId), (.ts, .u64 record.ts), (.turnId, .u64 record.turnId)] :
      Document) ++
    (fields.source.map fun field => (field, Value.str record.source.storageLabel)).toList ++
    ([(.project, .str record.project), (.sessionId, .str record.sessionId),
      (.role, .str record.role), (.text, .str record.text)] : Document) ++
    optional .toolName record.toolName ++
    optional .toolInput record.toolInput ++
    optional .toolOutput record.toolOutput ++
    optional .eventId record.links.eventId ++
    optional .parentEventId record.links.parentEventId ++
    optional .logicalParentEventId record.links.logicalParentEventId ++
    optional .parentSessionId record.links.parentSessionId ++
    optional .threadSource record.links.threadSource ++
    optional .conversationKind record.links.conversationKind ++
    optional .parentToolUseId record.links.parentToolUseId ++
    optional .sourceToolUseId record.links.sourceToolUseId ++
    optional .sourceToolAssistantUuid record.links.sourceToolAssistantUuid ++
    (fields.readerMetadata.map fun field =>
      (field, Value.str (readers.jsonOfLinks record.links))).toList ++
    [(.sourcePath, .str record.sourcePath)]

/-- `record_from_doc`. -/
def recordFromDoc (readers : Readers) (fields : IndexFields) (doc : Document) : Record :=
  let sourcePath := (doc.getStr .sourcePath).getD ""
  { source := ((fields.source.bind doc.getStr).bind SourceKind.fromLabel).getD
      (readers.fromPath sourcePath)
    docId := doc.getU64 .docId
    ts := doc.getU64 .ts
    project := (doc.getStr .project).getD ""
    sessionId := (doc.getStr .sessionId).getD ""
    turnId := doc.getU64 .turnId % 2 ^ 32
    role := (doc.getStr .role).getD ""
    text := (doc.getStr .text).getD ""
    toolName := doc.getStr .toolName
    toolInput := doc.getStr .toolInput
    toolOutput := doc.getStr .toolOutput
    links :=
      { ((fields.readerMetadata.bind doc.getStr).bind readers.linksOfJson).getD {} with
        eventId := doc.getStr .eventId
        parentEventId := doc.getStr .parentEventId
        logicalParentEventId := doc.getStr .logicalParentEventId
        parentSessionId := doc.getStr .parentSessionId
        threadSource := doc.getStr .threadSource
        conversationKind := doc.getStr .conversationKind
        parentToolUseId := doc.getStr .parentToolUseId
        sourceToolUseId := doc.getStr .sourceToolUseId
        sourceToolAssistantUuid := doc.getStr .sourceToolAssistantUuid }
    sourcePath }

/-- `Bound` of a range. -/
inductive Bound where
  | unbounded
  | included (number : Nat)
  | excluded (number : Nat)
  deriving DecidableEq, Repr

def Bound.isBelow (bound : Bound) (number : Nat) : Bool :=
  match bound with
  | .unbounded => true
  | .included least => least ≤ number
  | .excluded least => least < number

def Bound.isAbove (bound : Bound) (number : Nat) : Bool :=
  match bound with
  | .unbounded => true
  | .included most => number ≤ most
  | .excluded most => number < most

/-- `TermQuery` of a text or a number, and `RangeQuery`. -/
inductive Term where
  | text (field : Field) (value : String)
  | u64 (field : Field) (value : Nat)
  | range (field : Field) (lower upper : Bound)
  deriving DecidableEq, Repr

/-- Terms and ranges match the values exactly. -/
def Document.holds (doc : Document) : Term → Bool
  | .text field value => .str value ∈ doc.valuesOf field
  | .u64 field value => .u64 value ∈ doc.valuesOf field
  | .range field lower upper => (doc.valuesOf field).any fun value =>
      match value with
      | .u64 number => lower.isBelow number && upper.isAbove number
      | .str _ => false

/-- `Box<dyn Query>`. -/
abbrev DocQuery := Query Term

def termQuery (field : Field) (value : String) : DocQuery :=
  .term (.text field value)

/-- The stored labels of a source filter. -/
def labelsQuery (field : Field) (labels : List String) : DocQuery :=
  .should (labels.map (termQuery field))

/-- One session of a scope. -/
def scopeQuery (fields : IndexFields) (key : SessionScopeKey) : DocQuery :=
  .must ([termQuery .sessionId key.sessionId, termQuery .sourcePath key.sourcePath] ++
    (fields.source.map fun field => termQuery field key.source.storageLabel).toList)

def sourceClauses (fields : IndexFields) (source : Option SourceKind) : List DocQuery :=
  match source, fields.source with
  | some source, some field => [labelsQuery field (Resume.storageLabels source)]
  | _, _ => []

/-- An empty scope matches no document. -/
def scopeClauses (fields : IndexFields) (scope : Option (List SessionScopeKey)) :
    List DocQuery :=
  match scope with
  | none => []
  | some [] => [.empty]
  | some scope => [.should (scope.map (scopeQuery fields))]

def tsClauses (since upTo : Option Nat) : List DocQuery :=
  if since.isSome || upTo.isSome then
    [.term (.range .ts (.included (since.getD 0)) (.included (upTo.getD (2 ^ 64 - 1))))]
  else []

/-- The clauses that `build_query` adds to the one of the text. -/
def filterClauses (fields : IndexFields) (options : QueryOptions) : List DocQuery :=
  (options.project.map (termQuery .project)).toList ++
    (options.role.map (termQuery .role)).toList ++
    (options.tool.map (termQuery .toolName)).toList ++
    sourceClauses fields options.source ++
    (options.sessionId.map (termQuery .sessionId)).toList ++
    scopeClauses fields options.sessionScope ++
    tsClauses options.since options.upTo

/-- `build_query`, with the query of the text. -/
def buildQuery (fields : IndexFields) (text : DocQuery) (options : QueryOptions) : DocQuery :=
  .must (text :: filterClauses fields options)

/-- Whether a document satisfies the filter clauses. -/
def satisfiesFilters (fields : IndexFields) (options : QueryOptions) (doc : Document) : Bool :=
  (filterClauses fields options).all (accepts doc.holds)

/-! ## What a stored document holds -/

/-- A document of the index has one number in each numeric field, one text in each of the fields
that sessions are told apart by, and at most one tool. -/
structure Stored (fields : IndexFields) (doc : Document) : Prop where
  numbers : ∀ field ∈ [.docId, .ts, .turnId], ∃ number < 2 ^ 64,
    doc.valuesOf field = [.u64 number]
  turnId : ∀ number, .u64 number ∈ doc.valuesOf .turnId → number < 2 ^ 32
  texts : ∀ field ∈ [.project, .role, .sessionId, .sourcePath] ++ fields.source.toList,
    ∃ text, doc.valuesOf field = [.str text]
  toolName : doc.valuesOf .toolName = [] ∨ ∃ tool, doc.valuesOf .toolName = [.str tool]

section Values

variable {doc : Document} {field : Field} {text : String}

theorem lookup_eq_head? (doc : Document) (field : Field) :
    doc.lookup field = (doc.valuesOf field).head? := by
  induction doc with
  | nil => rfl
  | cons entry rest ih =>
      obtain ⟨other, value⟩ := entry
      by_cases hsame : other = field
      · subst hsame
        simp [Document.valuesOf]
      · have hne : (field == other) = false := beq_eq_false_iff_ne.mpr (Ne.symm hsame)
        rw [List.lookup_cons, hne, ih, Document.valuesOf, Document.valuesOf, List.filter_cons,
          decide_eq_false hsame]
        rfl

theorem getStr_of_valuesOf (h : doc.valuesOf field = [.str text]) :
    doc.getStr field = some text := by
  rw [Document.getStr, lookup_eq_head?, h]
  rfl

theorem holds_text_of_valuesOf {value : String} (h : doc.valuesOf field = [.str text]) :
    doc.holds (.text field value) = true ↔ text = value := by
  rw [Document.holds, h, decide_eq_true_iff, List.mem_singleton, Value.str.injEq]
  exact eq_comm

theorem holds_u64_of_valuesOf {number value : Nat} (h : doc.valuesOf field = [.u64 number]) :
    doc.holds (.u64 field value) = true ↔ number = value := by
  rw [Document.holds, h, decide_eq_true_iff, List.mem_singleton, Value.u64.injEq]
  exact eq_comm

theorem holds_range_of_valuesOf {number : Nat} {lower upper : Bound}
    (h : doc.valuesOf field = [.u64 number]) :
    doc.holds (.range field lower upper) = true ↔
      lower.isBelow number = true ∧ upper.isAbove number = true := by
  rw [Document.holds, h, List.any_cons, List.any_nil, Bool.or_false, Bool.and_eq_true]

end Values

/-! ## What the filters ask for -/

/-- What the filters besides the scope ask of a record. -/
structure Wanted (options : QueryOptions) (record : Record) : Prop where
  project : ∀ project ∈ options.project, record.project = project
  role : ∀ role ∈ options.role, record.role = role
  tool : ∀ tool ∈ options.tool, record.toolName = some tool
  sessionId : ∀ session ∈ options.sessionId, record.sessionId = session
  source : ∀ source ∈ options.source, record.source = source
  since : ∀ since ∈ options.since, since ≤ record.ts
  upTo : ∀ upTo ∈ options.upTo, record.ts ≤ upTo

/-- The session of a record, as a scope names it. -/
def identity (record : Record) : SessionScopeKey :=
  { source := record.source, sessionId := record.sessionId, sourcePath := record.sourcePath }

theorem option_all_iff {α : Type*} {option : Option α} {holds : α → Bool} :
    option.all holds = true ↔ ∀ value ∈ option, holds value = true := by
  cases option <;> simp

/-- A record passes if it is wanted and the scope lists its session. -/
theorem matchesFilters_iff {options : QueryOptions} {record : Record} :
    matchesFilters record options = true ↔
      Wanted options record ∧ ∀ scope ∈ options.sessionScope, identity record ∈ scope := by
  have hscope : ∀ scope : List SessionScopeKey,
      (scope.any fun key => key.source = record.source && key.sessionId = record.sessionId &&
        key.sourcePath = record.sourcePath) = true ↔ identity record ∈ scope := by
    intro scope
    rw [List.any_eq_true]
    constructor
    · rintro ⟨⟨source, session, path⟩, hmem, hkey⟩
      simp only [Bool.and_eq_true, decide_eq_true_iff] at hkey
      obtain ⟨⟨rfl, rfl⟩, rfl⟩ := hkey
      exact hmem
    · intro hmem
      exact ⟨_, hmem, by simp [identity]⟩
  simp only [matchesFilters, Bool.and_eq_true, option_all_iff, decide_eq_true_iff, hscope]
  constructor
  · rintro ⟨⟨⟨⟨⟨⟨⟨project, role⟩, tool⟩, session⟩, scope⟩, source⟩, since⟩, upTo⟩
    exact ⟨⟨project, role, tool, session, source, since, upTo⟩, scope⟩
  · rintro ⟨⟨project, role, tool, session, source, since, upTo⟩, scope⟩
    exact ⟨⟨⟨⟨⟨⟨⟨project, role⟩, tool⟩, session⟩, scope⟩, source⟩, since⟩, upTo⟩

section Clauses

variable {fields : IndexFields} {options : QueryOptions} {doc : Document}

theorem all_term_iff {field : Field} {value : Option String} :
    ((value.map (termQuery field)).toList.all (accepts doc.holds)) = true ↔
      ∀ text ∈ value, doc.holds (.text field text) = true := by
  cases value <;> simp [termQuery]

/-- The clause of a source asks for one of its labels. -/
theorem accepts_labelsQuery_iff {field : Field} {label : String} {source : SourceKind}
    (hlabel : doc.valuesOf field = [.str label]) :
    accepts doc.holds (labelsQuery field (Resume.storageLabels source)) = true ↔
      SourceKind.fromLabel label = some source := by
  rw [labelsQuery, accepts_should, List.any_map, List.any_eq_true,
    SourceKind.fromLabel_eq_some_iff]
  constructor
  · rintro ⟨other, hmem, hholds⟩
    rw [Function.comp_apply, termQuery, accepts_term, holds_text_of_valuesOf hlabel] at hholds
    rw [hholds]
    exact hmem
  · intro hmem
    refine ⟨label, hmem, ?_⟩
    rw [Function.comp_apply, termQuery, accepts_term, holds_text_of_valuesOf hlabel]

/-- The clauses of a session ask for the label under which the source is stored now. -/
theorem accepts_scopeQuery_iff {field : Field} {label session path : String}
    {key : SessionScopeKey} (hfield : fields.source = some field)
    (hlabel : doc.valuesOf field = [.str label])
    (hsession : doc.valuesOf .sessionId = [.str session])
    (hpath : doc.valuesOf .sourcePath = [.str path]) :
    accepts doc.holds (scopeQuery fields key) = true ↔
      session = key.sessionId ∧ path = key.sourcePath ∧ label = key.source.storageLabel := by
  rw [scopeQuery, hfield, accepts_must _ (by simp)]
  simp [termQuery, holds_text_of_valuesOf hlabel, holds_text_of_valuesOf hsession,
    holds_text_of_valuesOf hpath]

theorem all_sourceClauses_iff {field : Field} {label : String} {source : Option SourceKind}
    (hfield : fields.source = some field) (hlabel : doc.valuesOf field = [.str label]) :
    (sourceClauses fields source).all (accepts doc.holds) = true ↔
      ∀ kind ∈ source, SourceKind.fromLabel label = some kind := by
  cases source with
  | none => simp [sourceClauses]
  | some source => simp [sourceClauses, hfield, accepts_labelsQuery_iff hlabel]

theorem all_scopeClauses_iff {field : Field} {label session path : String}
    {scope : Option (List SessionScopeKey)} (hfield : fields.source = some field)
    (hlabel : doc.valuesOf field = [.str label])
    (hsession : doc.valuesOf .sessionId = [.str session])
    (hpath : doc.valuesOf .sourcePath = [.str path]) :
    (scopeClauses fields scope).all (accepts doc.holds) = true ↔
      ∀ keys ∈ scope, ∃ key ∈ keys,
        session = key.sessionId ∧ path = key.sourcePath ∧ label = key.source.storageLabel := by
  have hany : ∀ keys : List SessionScopeKey,
    accepts doc.holds (.should (keys.map (scopeQuery fields))) = true ↔
      ∃ key ∈ keys, session = key.sessionId ∧ path = key.sourcePath ∧
        label = key.source.storageLabel := by
    intro keys
    rw [accepts_should, List.any_map, List.any_eq_true]
    simp only [Function.comp_apply, accepts_scopeQuery_iff hfield hlabel hsession hpath]
  match scope with
  | none => simp [scopeClauses]
  | some [] => simp [scopeClauses]
  | some (key :: rest) =>
      have hsome := hany (key :: rest)
      simp only [scopeClauses, List.all_cons, List.all_nil, Bool.and_true, hsome]
      simp

theorem all_tsClauses_iff {ts : Nat} {since upTo : Option Nat}
    (hts : doc.valuesOf .ts = [.u64 ts]) (hbound : ts < 2 ^ 64) :
    (tsClauses since upTo).all (accepts doc.holds) = true ↔
      (∀ start ∈ since, start ≤ ts) ∧ ∀ stop ∈ upTo, ts ≤ stop := by
  have hholds : ∀ start stop,
      doc.holds (.range .ts (.included start) (.included stop)) = true ↔
        start ≤ ts ∧ ts ≤ stop := by
    intro start stop
    rw [holds_range_of_valuesOf hts, Bound.isBelow, Bound.isAbove, decide_eq_true_iff,
      decide_eq_true_iff]
  cases since with
  | none => cases upTo <;> simp [tsClauses, hholds]
  | some since =>
      cases upTo with
      | none =>
          have hlast : since ≤ ts → ts ≤ 2 ^ 64 - 1 := fun _ => by omega
          simpa [tsClauses, hholds] using hlast
      | some upTo => simp [tsClauses, hholds]

end Clauses

section Agreement

variable {readers : Readers} {fields : IndexFields} {options : QueryOptions} {doc : Document}
  {label : String} {source : SourceKind}

/-- The label under which a document is stored. -/
def sourceLabel (fields : IndexFields) (doc : Document) : Option String :=
  fields.source.bind doc.getStr

/-- A document satisfies the filter clauses if its record is wanted and the scope lists its
session, under the label that is stored now. -/
theorem satisfiesFilters_iff (hstored : Stored fields doc)
    (hlabel : sourceLabel fields doc = some label)
    (hsource : SourceKind.fromLabel label = some source) :
    satisfiesFilters fields options doc = true ↔
      Wanted options (recordFromDoc readers fields doc) ∧
        ∀ scope ∈ options.sessionScope,
          identity (recordFromDoc readers fields doc) ∈ scope ∧ label = source.storageLabel := by
  obtain ⟨field, hfield, hget⟩ := Option.bind_eq_some_iff.mp hlabel
  obtain ⟨ts, hbound, hts⟩ := hstored.numbers .ts (by simp)
  obtain ⟨project, hproject⟩ := hstored.texts .project (by simp)
  obtain ⟨role, hrole⟩ := hstored.texts .role (by simp)
  obtain ⟨session, hsession⟩ := hstored.texts .sessionId (by simp)
  obtain ⟨path, hpath⟩ := hstored.texts .sourcePath (by simp)
  obtain ⟨stored, hvalues⟩ := hstored.texts field (by simp [hfield])
  obtain rfl : stored = label := Option.some.inj ((getStr_of_valuesOf hvalues).symm.trans hget)
  have hkind : (recordFromDoc readers fields doc).source = source := by
    simp [recordFromDoc, hfield, hget, hsource]
  have hidentity : identity (recordFromDoc readers fields doc) = ⟨source, session, path⟩ := by
    rw [identity, hkind]
    simp [recordFromDoc, getStr_of_valuesOf hsession, getStr_of_valuesOf hpath]
  have htime : (recordFromDoc readers fields doc).ts = ts := by
    simp [recordFromDoc, Document.getU64, lookup_eq_head?, hts]
  have htool : ∀ tool, doc.holds (.text .toolName tool) = true ↔
      (recordFromDoc readers fields doc).toolName = some tool := by
    intro tool
    obtain hnone | ⟨name, hname⟩ := hstored.toolName
    · simp [Document.holds, hnone, recordFromDoc, Document.getStr, lookup_eq_head?]
    · simp [holds_text_of_valuesOf hname, recordFromDoc, getStr_of_valuesOf hname]
  have hlisted : ∀ scope : List SessionScopeKey,
      (∃ key ∈ scope, session = key.sessionId ∧ path = key.sourcePath ∧
        stored = key.source.storageLabel) ↔
      (⟨source, session, path⟩ : SessionScopeKey) ∈ scope ∧ stored = source.storageLabel := by
    intro scope
    constructor
    · rintro ⟨⟨other, session, path⟩, hmem, rfl, rfl, hsame⟩
      have hother : source = other := by
        rw [hsame, SourceKind.fromLabel_storageLabel] at hsource
        exact (Option.some.inj hsource).symm
      rw [hother]
      exact ⟨hmem, hsame⟩
    · rintro ⟨hmem, hsame⟩
      exact ⟨_, hmem, rfl, rfl, hsame⟩
  rw [hidentity, satisfiesFilters, filterClauses]
  simp only [List.all_append, Bool.and_eq_true, all_term_iff, and_assoc,
    all_sourceClauses_iff hfield hvalues, all_scopeClauses_iff hfield hvalues hsession hpath,
    all_tsClauses_iff hts hbound, holds_text_of_valuesOf hproject, holds_text_of_valuesOf hrole,
    holds_text_of_valuesOf hsession, htool, hlisted, hsource]
  constructor
  · rintro ⟨hwantedProject, hwantedRole, hwantedTool, hwantedSource, hwantedSession,
      hscope, hsince, hupTo⟩
    refine ⟨⟨?_, ?_, hwantedTool, ?_, ?_, ?_, ?_⟩, hscope⟩
    · simpa [recordFromDoc, getStr_of_valuesOf hproject] using hwantedProject
    · simpa [recordFromDoc, getStr_of_valuesOf hrole] using hwantedRole
    · simpa [recordFromDoc, getStr_of_valuesOf hsession] using hwantedSession
    · simpa [hkind] using hwantedSource
    · simpa [htime] using hsince
    · simpa [htime] using hupTo
  · rintro ⟨hwanted, hscope⟩
    refine ⟨?_, ?_, hwanted.tool, ?_, ?_, hscope, ?_, ?_⟩
    · simpa [recordFromDoc, getStr_of_valuesOf hproject] using hwanted.project
    · simpa [recordFromDoc, getStr_of_valuesOf hrole] using hwanted.role
    · simpa [hkind] using hwanted.source
    · simpa [recordFromDoc, getStr_of_valuesOf hsession] using hwanted.sessionId
    · simpa [htime] using hwanted.since
    · simpa [htime] using hwanted.upTo

/-- The filter clauses and `matches_filters` agree on a document if and only if it is stored
under the label of its source, the scope does not list its session, or some other filter
excludes it. -/
theorem filters_agree_iff (hstored : Stored fields doc)
    (hlabel : sourceLabel fields doc = some label)
    (hsource : SourceKind.fromLabel label = some source) :
    (satisfiesFilters fields options doc = true ↔
      matchesFilters (recordFromDoc readers fields doc) options = true) ↔
      label = source.storageLabel ∨
        (∀ scope ∈ options.sessionScope,
          identity (recordFromDoc readers fields doc) ∉ scope) ∨
        ¬ Wanted options (recordFromDoc readers fields doc) := by
  rw [@satisfiesFilters_iff readers fields options doc label source hstored hlabel hsource,
    matchesFilters_iff]
  cases options.sessionScope with
  | none => simp
  | some scope =>
      simp only [Option.mem_def, Option.some.injEq, forall_eq']
      tauto

end Agreement

/-! ## The documents of the index -/

/-- The optional fields have their own names. -/
structure IndexFields.Named (fields : IndexFields) : Prop where
  readerMetadata : fields.readerMetadata.all (· = .readerMetadata) = true
  canonicalRecordId : fields.canonicalRecordId.all (· = .canonicalRecordId) = true
  source : fields.source.all (· = .source) = true

@[simp] theorem valuesOf_append (left right : Document) (field : Field) :
    Document.valuesOf (left ++ right) field = left.valuesOf field ++ right.valuesOf field := by
  rw [Document.valuesOf, List.filter_append, List.map_append]
  rfl

@[simp] theorem valuesOf_cons (entry : Field × Value) (rest : Document) (field : Field) :
    Document.valuesOf (entry :: rest) field =
      if entry.1 = field then entry.2 :: rest.valuesOf field else rest.valuesOf field := by
  rw [Document.valuesOf, List.filter_cons]
  by_cases hsame : entry.1 = field
  · rw [decide_eq_true hsame, if_pos rfl, if_pos hsame, List.map_cons]
    rfl
  · rw [decide_eq_false hsame, if_neg Bool.false_ne_true, if_neg hsame]
    rfl

@[simp] theorem valuesOf_optional (field other : Field) (value : Option String) :
    Document.valuesOf (value.map fun value => (field, Value.str value)).toList other =
      if field = other then (value.map Value.str).toList else [] := by
  cases value with
  | none => simp [Document.valuesOf]
  | some text => rw [Option.map_some, Option.toList_some, valuesOf_cons]; rfl

@[simp] theorem valuesOf_nil (field : Field) : Document.valuesOf [] field = [] := rfl

theorem valuesOf_named {fields : Option Field} {name : Field} (h : fields.all (· = name) = true)
    (value : Value) (other : Field) :
    Document.valuesOf (fields.map fun field => (field, value)).toList other =
      if fields.isSome ∧ name = other then [value] else [] := by
  cases fields with
  | none => simp [valuesOf_nil]
  | some field =>
      obtain rfl := of_decide_eq_true h
      simp [valuesOf_cons, valuesOf_nil]

/-- What is written is stored. -/
theorem stored_addRecordOwned {readers : Readers} {fields : IndexFields} {record : Record}
    (hfields : fields.Named) (hdocId : record.docId < 2 ^ 64) (hts : record.ts < 2 ^ 64)
    (hturnId : record.turnId < 2 ^ 32) :
    Stored fields (addRecordOwned readers fields record) := by
  obtain ⟨hmetadata, hcanonical, hsource⟩ := hfields
  have hnamed := And.intro (valuesOf_named hmetadata)
    (And.intro (valuesOf_named hcanonical) (valuesOf_named hsource))
  delta addRecordOwned
  constructor
  · intro field hmem
    simp only [List.mem_cons, List.not_mem_nil, or_false] at hmem
    obtain rfl | rfl | rfl := hmem
    · exact ⟨record.docId, hdocId, by simp [hnamed]⟩
    · exact ⟨record.ts, hts, by simp [hnamed]⟩
    · exact ⟨record.turnId, by omega, by simp [hnamed]⟩
  · intro number hmem
    simp only [valuesOf_append, valuesOf_cons, valuesOf_nil, valuesOf_optional, hnamed,
      reduceCtorEq, and_false, if_false, if_true, List.nil_append, List.append_nil,
      List.mem_singleton] at hmem
    rw [Value.u64.inj hmem]
    exact hturnId
  · intro field hmem
    simp only [List.mem_append, List.mem_cons, List.not_mem_nil, or_false] at hmem
    obtain (rfl | rfl | rfl | rfl) | hmem := hmem
    · exact ⟨record.project, by simp [hnamed]⟩
    · exact ⟨record.role, by simp [hnamed]⟩
    · exact ⟨record.sessionId, by simp [hnamed]⟩
    · exact ⟨record.sourcePath, by simp [hnamed]⟩
    · cases hfield : fields.source with
      | none =>
          rw [hfield] at hmem
          cases hmem
      | some named =>
          rw [hfield] at hmem hsource
          rw [Option.toList_some, List.mem_singleton] at hmem
          obtain rfl : named = .source := of_decide_eq_true hsource
          subst hmem
          exact ⟨record.source.storageLabel, by simp [hnamed]⟩
  · cases record.toolName with
    | none => exact Or.inl (by simp [hnamed])
    | some tool => exact Or.inr ⟨tool, by simp [hnamed]⟩

/-! ## A document under an earlier label -/

/-- A document whose source is named as `label`. -/
def relabel (label : String) (doc : Document) : Document :=
  doc.map fun entry => if entry.1 = .source then (.source, .str label) else entry

/-- No path says what a source is, and no links are read. -/
def plainReaders : Readers where
  fromPath _ := .claude
  linksOfJson _ := none
  jsonOfLinks _ := ""
  digest _ := ""

def codexRecord : Record :=
  { source := .codex, sessionId := "session", sourcePath := "/sessions/rollout.jsonl" }

/-- A document of the time when Codex sessions were stored as `codex-session`. -/
def historicalDoc : Document :=
  relabel "codex-session" (addRecordOwned plainReaders {} codexRecord)

theorem stored_historicalDoc : Stored {} historicalDoc := by
  refine ⟨?_, ?_, ?_, Or.inl (by decide +kernel)⟩
  · intro field hmem
    refine ⟨0, by decide, ?_⟩
    simp only [List.mem_cons, List.not_mem_nil, or_false] at hmem
    obtain rfl | rfl | rfl := hmem <;> decide +kernel
  · intro number hmem
    have hvalues : historicalDoc.valuesOf .turnId = [.u64 0] := by decide +kernel
    rw [hvalues, List.mem_singleton] at hmem
    rw [Value.u64.inj hmem]
    decide
  intro field hmem
  simp only [List.mem_append, List.mem_cons, List.not_mem_nil, or_false, Option.toList_some]
    at hmem
  obtain (rfl | rfl | rfl | rfl) | rfl := hmem
  · exact ⟨"", by decide +kernel⟩
  · exact ⟨"", by decide +kernel⟩
  · exact ⟨"session", by decide +kernel⟩
  · exact ⟨"/sessions/rollout.jsonl", by decide +kernel⟩
  · exact ⟨"codex-session", by decide +kernel⟩

/-- The filter of the source finds a document of an earlier label. -/
theorem filters_agree_iff_by_source :
    let options : QueryOptions := { source := some .codex }
    satisfiesFilters {} options historicalDoc = true ↔
      matchesFilters (recordFromDoc plainReaders {} historicalDoc) options = true := by
  intro options
  apply (@filters_agree_iff plainReaders {} options historicalDoc "codex-session" .codex
    stored_historicalDoc (by decide +kernel) rfl).mpr
  refine Or.inr (Or.inl ?_)
  intro scope hscope
  cases hscope

/-- A scope that lists the session of such a document does not find it, and `matches_filters`
accepts its record. -/
theorem earlier_label_is_out_of_scope :
    let options : QueryOptions := { sessionScope := some [identity codexRecord] }
    sourceLabel {} historicalDoc = some "codex-session" ∧
      satisfiesFilters {} options historicalDoc = false ∧
        matchesFilters (recordFromDoc plainReaders {} historicalDoc) options = true := by
  decide +kernel

end Memex.Index.Filters
