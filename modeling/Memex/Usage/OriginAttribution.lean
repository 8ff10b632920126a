import Memex.Analytics.Batching
import Memex.Ingest.DocIds
import Memex.Retrieval.TranscriptIds
import Memex.Usage.OriginFilter

/-! # Usage of Claude transcripts by origin

The catalogue names a session after the file of its transcript; an event names the session its
line stands for. The reports of two origins are apart when the two names agree. -/

namespace Memex.Usage

open LineStream Analytics Sources Retrieval

/-- A transcript with its bytes. -/
structure Transcript where
  file : Claude.TranscriptFile
  bytes : Bytes

variable (crates : Crates) (reader : Claude.TranscriptReader)

/-- The records that an index of the transcripts holds. -/
def indexedRecords (transcripts : List Transcript) : List Record :=
  Ingest.drawIds 0 (transcripts.flatMap fun transcript =>
    (Claude.parseIndexRecordsWithBackground crates reader transcript.file transcript.bytes 0 {}
      none transcript.bytes.length).records)

/-- The events that a scan of the transcripts counts. -/
def scannedEvents (transcripts : List Transcript) : List UsageEvent :=
  Claude.reconcileUsage (transcripts.flatMap fun transcript =>
    Claude.parseUsageFile crates reader.toLineReader transcript.file.path transcript.bytes)

/-- The catalogue of the transcripts. -/
def transcriptCatalogue (lookups : SessionLookups) (transcripts : List Transcript) : Catalogue :=
  backfillFromIndex lookups (indexedRecords crates reader transcripts)

/-- The catalogue key of a transcript. -/
def transcriptKey (path : String) : SessionKey :=
  ⟨.claude, Claude.sessionIdFromPath path, path⟩

/-- The catalogue has the transcript under an origin. -/
def HasOrigin (catalogue : Catalogue) (path : String) (kind : SessionKindFilter) : Prop :=
  ∃ row, catalogue.lookup (transcriptKey path) = some row ∧
    kind.matchesKind row.conversationKind = true

/-- The reports by origin count the events of a transcript under its origin only, and are
disjoint parts of the regular report. -/
structure OriginsAttributed (catalogue : Catalogue) (report : SessionKindFilter → UsageReport) :
    Prop where
  subagent : ∀ event ∈ (report .regular).details,
    HasOrigin catalogue event.sourcePath .subagent →
      event ∈ (report .subagent).details ∧ event ∉ (report .primary).details
  primary : ∀ event ∈ (report .regular).details,
    HasOrigin catalogue event.sourcePath .primary →
      event ∈ (report .primary).details ∧ event ∉ (report .subagent).details
  parts : (report .primary).details.Sublist (report .regular).details ∧
    (report .subagent).details.Sublist (report .regular).details
  disjoint : (report .primary).details.Disjoint (report .subagent).details

/-- Every event names the file of a transcript of the origin of its own, and no file of both
origins. -/
structure SessionsNamed (catalogue : Catalogue) (transcripts : List Transcript)
    (events : List UsageEvent) : Prop where
  named : ∀ event ∈ events, ∀ kind, kind = .primary ∨ kind = .subagent →
    HasOrigin catalogue event.sourcePath kind →
      ∃ transcript ∈ transcripts,
        event.sessionId = some (Claude.sessionIdFromPath transcript.file.path) ∧
          HasOrigin catalogue transcript.file.path kind
  apart : ∀ event ∈ events, ∀ main ∈ transcripts, ∀ other ∈ transcripts,
    event.sessionId = some (Claude.sessionIdFromPath main.file.path) →
      event.sessionId = some (Claude.sessionIdFromPath other.file.path) →
        HasOrigin catalogue main.file.path .primary →
          ¬ HasOrigin catalogue other.file.path .subagent

/-! ## Reports and keys -/

variable {crates reader} {lookups : SessionLookups} {transcripts : List Transcript}
  {catalogue : Catalogue} {projectMatches : String → String → Bool} {spec : UsageSpec}
  {kind : SessionKindFilter}

theorem mem_usageSessionKeysForKind {source sessionId : String} :
    (source, sessionId) ∈ usageSessionKeysForKind catalogue kind ↔
      ∃ key row, catalogue.lookup key = some row ∧
        kind.matchesKind row.conversationKind = true ∧ key.source.label = source ∧
          key.sessionId = sessionId := by
  rw [usageSessionKeysForKind, Finset.mem_image]
  constructor
  · rintro ⟨key, hkey, hname⟩
    rw [querySessionsFiltered, Finset.mem_filter, Option.any_eq_true] at hkey
    obtain ⟨-, row, hrow, hkind⟩ := hkey
    obtain ⟨hsource, hsession⟩ := Prod.mk.inj hname
    exact ⟨key, row, hrow, hkind, hsource, hsession⟩
  · rintro ⟨key, row, hrow, hkind, rfl, rfl⟩
    refine ⟨key, ?_, rfl⟩
    rw [querySessionsFiltered, Finset.mem_filter, Option.any_eq_true]
    exact ⟨Finmap.mem_keys.mpr (Finmap.mem_of_lookup_eq_some hrow), row, hrow, hkind⟩

/-- The event names a session of the origin. -/
def namesKind (catalogue : Catalogue) (kind : SessionKindFilter) (event : UsageEvent) : Bool :=
  event.sessionId.any fun sessionId =>
    (event.source, sessionId) ∈ usageSessionKeysForKind catalogue kind

/-- An origin only adds that the session is one of its own. -/
theorem matchesPlan_kind (hkind : kind = .primary ∨ kind = .subagent) {event : UsageEvent}
    (hreview : event.permissionReview = false) :
    matchesPlan projectMatches (usageQuery catalogue { spec with kind := some kind }) event =
      (namesKind catalogue kind event &&
        matchesPlan projectMatches (usageQuery catalogue { spec with kind := some .regular })
          event) := by
  have hkeys : (usageQuery catalogue { spec with kind := some kind }).sessionKeys =
      some ((spec.sessionKeys.map (· ∩ usageSessionKeysForKind catalogue kind)).getD
        (usageSessionKeysForKind catalogue kind)) := by
    obtain rfl | rfl := hkind
    · cases spec.sessionKeys with
      | none => simp [usageQuery, applyKindToSessionKeys]
      | some keys => simp [usageQuery, applyKindToSessionKeys]
    · cases spec.sessionKeys with
      | none => simp [usageQuery, applyKindToSessionKeys]
      | some keys => simp [usageQuery, applyKindToSessionKeys]
  have hregular : (usageQuery catalogue { spec with kind := some .regular }).sessionKeys =
      spec.sessionKeys := rfl
  have hproject : ∀ other : SessionKindFilter,
      (usageQuery catalogue { spec with kind := some other }).project = spec.project :=
    fun _ => rfl
  simp only [matchesPlan, hkeys, hregular, hproject, hreview, Bool.not_false, Bool.or_true,
    Bool.true_and, Option.all_some, namesKind]
  cases hsession : event.sessionId with
  | none =>
      cases spec.sessionKeys with
      | none => simp
      | some keys => simp
  | some sessionId =>
      cases spec.sessionKeys with
      | none => simp [Bool.and_comm]
      | some keys => simp [Bool.and_comm, Bool.and_assoc, Bool.and_left_comm]

/-- The report of an origin is the part of the regular report that names it. -/
theorem details_kind (hkind : kind = .primary ∨ kind = .subagent) {events : List UsageEvent}
    (hreview : ∀ event ∈ events, event.permissionReview = false) :
    (usageLocal projectMatches catalogue events { spec with kind := some kind }).details =
      (usageLocal projectMatches catalogue events
        { spec with kind := some .regular }).details.filter (namesKind catalogue kind) := by
  simp only [usageLocal, scanSingle, filteredEvents]
  rw [List.filter_filter]
  apply List.filter_congr
  intro event hevent
  apply matchesPlan_kind hkind
  apply hreview
  exact LatestByKey.sorted_perm.mem_iff.mp (List.mem_of_mem_take (List.mem_of_mem_drop hevent))

theorem permissionReview_scannedEvents (crates : Crates) (reader : Claude.TranscriptReader)
    (transcripts : List Transcript) :
    ∀ event ∈ scannedEvents crates reader transcripts, event.permissionReview = false := by
  intro event hevent
  obtain ⟨transcript, -, hparsed⟩ :=
    List.mem_flatMap.mp ((Claude.reconcileUsage_sublist _).subset hevent)
  exact (Claude.mem_parseUsageFile hparsed).2.2.1

/-- A catalogue of transcripts has one row for each that emitted records. -/
theorem key_of_transcriptCatalogue {key : SessionKey} {row : CatalogueRow}
    (h : (transcriptCatalogue crates reader lookups transcripts).lookup key = some row) :
    ∃ transcript ∈ transcripts, key = transcriptKey transcript.file.path := by
  rw [transcriptCatalogue, backfillFromIndex, lookup_refresh] at h
  cases hown : ownRecords key (indexedRecords crates reader transcripts) with
  | nil =>
      rw [hown] at h
      cases h
  | cons record rest =>
      have hmem : record ∈ ownRecords key (indexedRecords crates reader transcripts) :=
        hown ▸ List.mem_cons_self
      obtain ⟨hindexed, hkey⟩ := List.mem_filter.mp hmem
      have hbody : record.body ∈ (indexedRecords crates reader transcripts).map Record.body :=
        List.mem_map_of_mem hindexed
      rw [indexedRecords, Ingest.drawIds_map_body] at hbody
      obtain ⟨parsed, hparsed, hsame⟩ := List.mem_map.mp hbody
      obtain ⟨transcript, htranscript, hrecord⟩ := List.mem_flatMap.mp hparsed
      refine ⟨transcript, htranscript, ?_⟩
      rw [Claude.records_parse_all] at hrecord
      obtain ⟨hsource, hpath, hsession⟩ :=
        HeaderMachine.forall_mem_run filedIn_parseRow _ _ _ hrecord
      have hrecordKey : sessionKey record.body = sessionKey parsed.body := by rw [hsame]
      have hparsedKey : sessionKey parsed = transcriptKey transcript.file.path := by
        rw [sessionKey, hsource, hpath, hsession]
        rfl
      calc key = sessionKey record := (of_decide_eq_true hkey).symm
        _ = sessionKey parsed := hrecordKey
        _ = transcriptKey transcript.file.path := hparsedKey

/-- Only the transcripts of an origin are named by it. -/
theorem namesKind_iff {event : UsageEvent} (hsource : event.source = "claude") :
    namesKind (transcriptCatalogue crates reader lookups transcripts) kind event = true ↔
      ∃ transcript ∈ transcripts,
        event.sessionId = some (Claude.sessionIdFromPath transcript.file.path) ∧
          HasOrigin (transcriptCatalogue crates reader lookups transcripts) transcript.file.path
            kind := by
  rw [namesKind, Option.any_eq_true]
  constructor
  · rintro ⟨sessionId, hsession, hmem⟩
    rw [decide_eq_true_eq, mem_usageSessionKeysForKind] at hmem
    obtain ⟨key, row, hrow, hkind, -, rfl⟩ := hmem
    obtain ⟨transcript, htranscript, rfl⟩ := key_of_transcriptCatalogue hrow
    exact ⟨transcript, htranscript, hsession, row, hrow, hkind⟩
  · rintro ⟨transcript, -, hsession, row, hrow, hkind⟩
    refine ⟨_, hsession, ?_⟩
    rw [decide_eq_true_eq, mem_usageSessionKeysForKind]
    exact ⟨_, row, hrow, hkind, hsource.symm, rfl⟩

/-! ## Origins -/

variable (projectMatches catalogue) in
/-- Without other filters the regular report has all events that are no review. -/
theorem mem_regular_details {events : List UsageEvent} {event : UsageEvent}
    (hevent : event ∈ events) (hreview : event.permissionReview = false) :
    event ∈ (usageLocal projectMatches catalogue events { kind := some .regular }).details := by
  have hbounds : (usageLocal projectMatches catalogue events { kind := some .regular }).details =
      (sortUsageEvents events).filter
        (matchesPlan projectMatches (usageQuery catalogue { kind := some .regular })) := by
    simp only [usageLocal, scanSingle, filteredEvents]
    rw [show (usageQuery catalogue { kind := some .regular }).sinceMs = none from rfl,
      show (usageQuery catalogue { kind := some .regular }).untilMs = none from rfl,
      Option.elim_none, Option.elim_none, List.take_length, List.drop_zero]
  rw [hbounds, List.mem_filter]
  refine ⟨LatestByKey.sorted_perm.mem_iff.mpr hevent, ?_⟩
  simp [matchesPlan, usageQuery, applyKindToSessionKeys, hreview]

/-- Every report is made of the events of the scan. -/
theorem mem_of_mem_details {events : List UsageEvent} {event : UsageEvent}
    (h : event ∈ (usageLocal projectMatches catalogue events spec).details) : event ∈ events := by
  have hfiltered := (List.mem_filter.mp h).1
  exact LatestByKey.sorted_perm.mem_iff.mp (List.mem_of_mem_take (List.mem_of_mem_drop hfiltered))

/-- The reports of the origins attribute every event exactly when every event names a transcript
of the origin of its own, and none names transcripts of both. -/
theorem usage_origins_attributed_iff (crates : Crates) (reader : Claude.TranscriptReader)
    (lookups : SessionLookups) (projectMatches : String → String → Bool)
    (transcripts : List Transcript) :
    (∀ spec : UsageSpec,
      OriginsAttributed (transcriptCatalogue crates reader lookups transcripts) fun kind =>
        usageLocal projectMatches (transcriptCatalogue crates reader lookups transcripts)
          (scannedEvents crates reader transcripts) { spec with kind := some kind }) ↔
    SessionsNamed (transcriptCatalogue crates reader lookups transcripts) transcripts
      (scannedEvents crates reader transcripts) := by
  have hsource : ∀ event ∈ scannedEvents crates reader transcripts, event.source = "claude" := by
    intro event hevent
    obtain ⟨transcript, -, hparsed⟩ :=
      List.mem_flatMap.mp ((Claude.reconcileUsage_sublist _).subset hevent)
    exact (Claude.mem_parseUsageFile hparsed).1
  have hreview := permissionReview_scannedEvents crates reader transcripts
  constructor
  · intro h
    obtain ⟨hsubagent, hprimary, -, hdisjoint⟩ := h {}
    constructor
    · intro event hevent kind hkind horigin
      have hregular := mem_regular_details
        (transcriptCatalogue crates reader lookups transcripts) projectMatches hevent
        (hreview event hevent)
      rw [← namesKind_iff (hsource event hevent)]
      obtain rfl | rfl := hkind
      · have hmem := (hprimary event hregular horigin).1
        rw [details_kind (Or.inl rfl) hreview] at hmem
        exact (List.mem_filter.mp hmem).2
      · have hmem := (hsubagent event hregular horigin).1
        rw [details_kind (Or.inr rfl) hreview] at hmem
        exact (List.mem_filter.mp hmem).2
    · intro event hevent main hmain other hother hnamed hnamed' horigin horigin'
      have hregular := mem_regular_details
        (transcriptCatalogue crates reader lookups transcripts) projectMatches hevent
        (hreview event hevent)
      have hfirst := (namesKind_iff (hsource event hevent)).mpr ⟨main, hmain, hnamed, horigin⟩
      have hsecond :=
        (namesKind_iff (hsource event hevent)).mpr ⟨other, hother, hnamed', horigin'⟩
      apply @hdisjoint event
      · rw [details_kind (Or.inl rfl) hreview]
        exact List.mem_filter.mpr ⟨hregular, hfirst⟩
      · rw [details_kind (Or.inr rfl) hreview]
        exact List.mem_filter.mpr ⟨hregular, hsecond⟩
  · intro h spec
    have hapart : ∀ event ∈ scannedEvents crates reader transcripts,
        namesKind (transcriptCatalogue crates reader lookups transcripts) .primary event = true →
          namesKind (transcriptCatalogue crates reader lookups transcripts) .subagent event =
            true → False := by
      intro event hevent hmain hother
      rw [namesKind_iff (hsource event hevent)] at hmain hother
      obtain ⟨main, hmain, hnamed, horigin⟩ := hmain
      obtain ⟨other, hother, hnamed', horigin'⟩ := hother
      exact h.apart event hevent main hmain other hother hnamed hnamed' horigin horigin'
    constructor
    · intro event hregular horigin
      have hevent := mem_of_mem_details hregular
      have hnames := (namesKind_iff (hsource event hevent)).mpr
        (h.named event hevent .subagent (Or.inr rfl) horigin)
      rw [details_kind (Or.inr rfl) hreview, details_kind (Or.inl rfl) hreview]
      refine ⟨List.mem_filter.mpr ⟨hregular, hnames⟩, fun hmem => ?_⟩
      exact hapart event hevent (List.mem_filter.mp hmem).2 hnames
    · intro event hregular horigin
      have hevent := mem_of_mem_details hregular
      have hnames := (namesKind_iff (hsource event hevent)).mpr
        (h.named event hevent .primary (Or.inl rfl) horigin)
      rw [details_kind (Or.inr rfl) hreview, details_kind (Or.inl rfl) hreview]
      refine ⟨List.mem_filter.mpr ⟨hregular, hnames⟩, fun hmem => ?_⟩
      exact hapart event hevent hnames (List.mem_filter.mp hmem).2
    · rw [details_kind (Or.inr rfl) hreview, details_kind (Or.inl rfl) hreview]
      exact ⟨List.filter_sublist, List.filter_sublist⟩
    · rw [details_kind (Or.inr rfl) hreview, details_kind (Or.inl rfl) hreview]
      intro event hmain hother
      exact hapart event (mem_of_mem_details (List.mem_filter.mp hmain).1)
        (List.mem_filter.mp hmain).2 (List.mem_filter.mp hother).2

/-- An assistant line of a session. -/
def usageLineOf (sessionId text : String) (tokens : Int) : Json :=
  .object [("type", .string "assistant"), ("sessionId", .string sessionId),
    ("message", .object [("content", .string text),
      ("usage", .object [("input_tokens", .int tokens)])])]

/-- A session and its subagent, whose lines name the session they work for. -/
def sessionWithSubagent : List Transcript :=
  [⟨⟨"/p/s.jsonl", "p", false⟩, (valueLines [usageLineOf "s" "main" 5]).flatten⟩,
   ⟨⟨"/p/s/subagents/agent-1.jsonl", "p", false⟩,
      (valueLines [usageLineOf "s" "agent" 7]).flatten⟩]

def subagentReader : Claude.TranscriptReader :=
  Claude.listedTranscripts [usageLineOf "s" "main" 5, usageLineOf "s" "agent" 7]

/-- The usage of the subagent is counted under the origin of the session. -/
theorem subagent_usage_counts_as_primary :
    (∃ event ∈ (usageLocal (fun _ _ => false)
        (transcriptCatalogue plainCrates subagentReader noLookups sessionWithSubagent)
        (scannedEvents plainCrates subagentReader sessionWithSubagent)
        { kind := some .primary }).details,
      event.sourcePath = "/p/s/subagents/agent-1.jsonl" ∧ event.tokens.additiveTotal = 7) ∧
      HasOrigin (transcriptCatalogue plainCrates subagentReader noLookups sessionWithSubagent)
        "/p/s/subagents/agent-1.jsonl" .subagent := by
  constructor
  · have hcounted : ((usageLocal (fun _ _ => false)
        (transcriptCatalogue plainCrates subagentReader noLookups sessionWithSubagent)
        (scannedEvents plainCrates subagentReader sessionWithSubagent)
        { kind := some .primary }).details.any fun event =>
          event.sourcePath = "/p/s/subagents/agent-1.jsonl" &&
            event.tokens.additiveTotal = 7) = true := by
      simp only [sessionWithSubagent, subagentReader, Claude.listedTranscripts, listedReader,
        valueLines, asciiBytes, toList_compact]
      decide +kernel
    obtain ⟨event, hevent, hboth⟩ := List.any_eq_true.mp hcounted
    rw [Bool.and_eq_true, decide_eq_true_eq, decide_eq_true_eq] at hboth
    exact ⟨event, hevent, hboth⟩
  · have hrow : ((transcriptCatalogue plainCrates subagentReader noLookups
        sessionWithSubagent).lookup (transcriptKey "/p/s/subagents/agent-1.jsonl")).any (fun row =>
          SessionKindFilter.subagent.matchesKind row.conversationKind) = true := by
      simp only [sessionWithSubagent, subagentReader, Claude.listedTranscripts, listedReader,
        valueLines, asciiBytes, toList_compact]
      decide +kernel
    rw [Option.any_eq_true] at hrow
    exact hrow

end Memex.Usage
