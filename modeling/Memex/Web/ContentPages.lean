import Memex.Index.Searcher
import Memex.Lib.Boundaries
import Memex.Sources.Copilot
import Memex.Usage.OriginFilter

/-! # Pages of the text of a record

A browser reads the text of one record in pages of at most so many bytes. A page ends between two
symbols, and the next one begins where it ended. -/

namespace Memex.Web

open Boundaries Index Text

/-- `MAX_CONTENT_PAGE_BYTES`. -/
def maxContentPageBytes : Nat := 64 * 1024

structure SessionContentRequest where
  sessionId : String
  sourcePath : Option String
  source : Option SourceKind
  recordId : String
  offset : Nat
  limit : Nat
  version : Option String
  deriving DecidableEq

/-- The parameters read so far, of which some are still missing. -/
structure ContentDraft where
  sessionId : Option String := none
  sourcePath : Option String := none
  source : Option SourceKind := none
  recordId : Option String := none
  offset : Nat := 0
  limit : Nat := maxContentPageBytes
  version : Option String := none

/-- `SourceKind::ALL`. -/
def allSources : List SourceKind :=
  [.claude, .codex, .opencode, .cursor, .pi, .openClaw, .copilot, .omp, .grok, .hermes, .jcode,
    .muse, .antigravity, .bob]

def parseSessionSource (value : String) : Except String SourceKind :=
  match allSources.find? fun source => source.label = value with
  | some source => .ok source
  | none => .error s!"unknown session_source: {value}"

/-- One pair of the query. -/
def ContentDraft.read (draft : ContentDraft) (pair : String × String) :
    Except String ContentDraft :=
  let value := pair.2
  if pair.1 = "id" ∧ value ≠ "" then .ok { draft with sessionId := some value }
  else if pair.1 = "source_path" ∧ value ≠ "" then .ok { draft with sourcePath := some value }
  else if pair.1 = "session_source" ∧ value ≠ "" then do
    let source ← parseSessionSource value
    return { draft with source := some source }
  else if pair.1 = "record_id" ∧ value ≠ "" then .ok { draft with recordId := some value }
  else if pair.1 = "offset" then
    match Sources.Copilot.parseU64 value with
    | some offset => .ok { draft with offset }
    | none => .error "offset must be a non-negative integer"
  else if pair.1 = "limit" then
    match Sources.Copilot.parseU64 value with
    | some limit => .ok { draft with limit := min (max limit 1) maxContentPageBytes }
    | none => .error "limit must be a positive integer"
  else if pair.1 = "version" ∧ value ≠ "" then .ok { draft with version := some value }
  else .ok draft

def SessionContentRequest.fromUrl (queryPairs : List (String × String)) :
    Except String SessionContentRequest := do
  let draft ← queryPairs.foldlM ContentDraft.read {}
  match draft.sessionId, draft.recordId with
  | none, _ => .error "missing session id"
  | some _, none => .error "missing record_id"
  | some sessionId, some recordId =>
      return {
        sessionId
        recordId
        sourcePath := draft.sourcePath
        source := draft.source
        offset := draft.offset
        limit := draft.limit
        version := draft.version }

/-- The index as one request opens it, and the version that it has when it is opened again. -/
structure OpenedIndex where
  index : SearchIndex
  snapshotVersion : String
  reopenedVersion : String

inductive ContentError where
  | staleSnapshot (requested current : String)
  | ambiguousSessionScope
  | invalidContentOffset (offset : Nat)
  | index (failure : Failure)

structure SessionContentPayload where
  version : String
  recordId : String
  offset : Nat
  content : List Char
  contentBytes : Nat
  truncated : Bool
  nextOffset : Option Nat
  deriving DecidableEq

def ensureSnapshot (opened : OpenedIndex) (requested : Option String) :
    Except ContentError Unit :=
  match requested with
  | some requested =>
      if requested ≠ opened.snapshotVersion then
        .error (.staleSnapshot requested opened.snapshotVersion)
      else .ok ()
  | none => .ok ()

/-- Only an index without generations can change while it is read. -/
def ensureSnapshotCurrent (opened : OpenedIndex) : Except ContentError Unit :=
  if ¬ Text.startsWith opened.snapshotVersion "legacy-" then .ok ()
  else if opened.reopenedVersion ≠ opened.snapshotVersion then
    .error (.staleSnapshot opened.snapshotVersion opened.reopenedVersion)
  else .ok ()

/-- The longest part at the front of a text that is no longer than so many bytes. -/
def utf8Prefix (value : List Char) (maxBytes : Nat) : List Char :=
  (cut value (boundaryBefore value (min (byteLength value) maxBytes))).1

/-- The page of a text that begins at a boundary. -/
def contentPage (version recordId : String) (text : List Char) (offset limit : Nat) :
    SessionContentPayload :=
  let content := utf8Prefix (cut text offset).2 limit
  let next := offset + byteLength content
  { version
    recordId
    offset
    content
    contentBytes := byteLength text
    truncated := next < byteLength text
    nextOffset := if next < byteLength text then some next else none }

def sessionContentPayload (opened : OpenedIndex) (params : SessionContentRequest) :
    Except ContentError (Option SessionContentPayload) := do
  ensureSnapshot opened params.version
  match opened.index.recordsByCanonicalIdInSessionScope params.recordId params.sessionId
      params.sourcePath params.source with
  | .error failure => .error (.index failure)
  | .ok [] => do
      ensureSnapshotCurrent opened
      return none
  | .ok [record] =>
      let text := record.text.toList
      if params.offset > byteLength text then do
        ensureSnapshotCurrent opened
        return none
      else if ¬ isBoundary text params.offset then
        .error (.invalidContentOffset params.offset)
      else do
        ensureSnapshotCurrent opened
        return some (contentPage opened.snapshotVersion params.recordId text params.offset
          params.limit)
  | .ok (_ :: _ :: _) => .error .ambiguousSessionScope

/-! ## Following the pages -/

/-- The pages from an offset on, each requested at the `next_offset` of the one before. -/
def followPages (opened : OpenedIndex) (params : SessionContentRequest) :
    Nat → Nat → Option (List SessionContentPayload)
  | 0, _ => none
  | steps + 1, offset =>
      match sessionContentPayload opened { params with offset } with
      | .ok (some page) =>
          match page.nextOffset with
          | some next => (followPages opened params steps next).map (page :: ·)
          | none => some [page]
      | _ => none

/-- From offset 0 the pages come to an end, none begins or ends within a symbol, and together
they are the text. -/
def ReadWhole (opened : OpenedIndex) (params : SessionContentRequest) (text : List Char) : Prop :=
  ∃ steps pages, followPages opened params steps 0 = some pages ∧
    (∀ page ∈ pages, isBoundary text page.offset = true ∧
      ∀ next ∈ page.nextOffset, isBoundary text next = true) ∧
    pages.flatMap (·.content) = text

section Prefix

variable {value : List Char} {maxBytes : Nat}

theorem le_boundaryBefore {position boundary : Nat} (hle : boundary ≤ position)
    (h : isBoundary value boundary = true) : boundary ≤ boundaryBefore value position := by
  induction position with
  | zero => exact hle
  | succ position ih =>
      rw [boundaryBefore]
      split
      · exact hle
      next hnot =>
        apply ih
        have hne : boundary ≠ position + 1 := by
          rintro rfl
          exact hnot h
        omega

/-- The part at the front, the rest of the text, and where they meet. -/
theorem exists_utf8Prefix (value : List Char) (maxBytes : Nat) :
    ∃ rest, value = utf8Prefix value maxBytes ++ rest ∧
      byteLength (utf8Prefix value maxBytes) =
        boundaryBefore value (min (byteLength value) maxBytes) := by
  refine ⟨(cut value (boundaryBefore value (min (byteLength value) maxBytes))).2,
    (cut_append _ _).symm, ?_⟩
  exact decide_eq_true_iff.mp (isBoundary_boundaryBefore value (min (byteLength value) maxBytes))

theorem byteLength_utf8Prefix_le (value : List Char) (maxBytes : Nat) :
    byteLength (utf8Prefix value maxBytes) ≤ maxBytes := by
  obtain ⟨-, -, hlength⟩ := exists_utf8Prefix value maxBytes
  rw [hlength]
  exact (boundaryBefore_le _ _).trans (Nat.min_le_right _ _)

/-- A text that is short enough is taken whole. -/
theorem utf8Prefix_of_le (h : byteLength value ≤ maxBytes) : utf8Prefix value maxBytes = value := by
  have hboundary : boundaryBefore value (byteLength value) = byteLength value := by
    apply Nat.le_antisymm (boundaryBefore_le _ _)
    exact le_boundaryBefore (Nat.le_refl _) (isBoundary_byteLength value)
  rw [utf8Prefix, Nat.min_eq_left h, hboundary]
  have hcut := cut_byteLength value []
  rw [List.append_nil] at hcut
  rw [hcut]

/-- A first symbol that fits is taken. -/
theorem utf8Prefix_cons_ne_nil {symbol : Char} {rest : List Char}
    (h : symbol.utf8Size ≤ maxBytes) : utf8Prefix (symbol :: rest) maxBytes ≠ [] := by
  intro hnil
  obtain ⟨-, -, hlength⟩ := exists_utf8Prefix (symbol :: rest) maxBytes
  have hboundary : isBoundary (symbol :: rest) symbol.utf8Size = true :=
    isBoundary_iff.mpr ⟨[symbol], rest, rfl, by simp⟩
  have hle : symbol.utf8Size ≤
      boundaryBefore (symbol :: rest) (min (byteLength (symbol :: rest)) maxBytes) := by
    apply le_boundaryBefore _ hboundary
    rw [byteLength_cons]
    omega
  have hsize := symbol.utf8Size_pos
  rw [hnil, byteLength_nil] at hlength
  omega

/-- No symbol of the part is longer than it may be. -/
theorem utf8Size_le_of_mem_utf8Prefix {symbol : Char}
    (hmem : symbol ∈ utf8Prefix value maxBytes) : symbol.utf8Size ≤ maxBytes := by
  have hlength := byteLength_utf8Prefix_le value maxBytes
  obtain ⟨front, back, hparts⟩ := List.append_of_mem hmem
  rw [hparts, byteLength_append, byteLength_cons] at hlength
  omega

end Prefix

section Pages

variable {opened : OpenedIndex} {params : SessionContentRequest} {record : Record}
  {text done rest : List Char}

/-- What a request at a fixed snapshot finds: its version and one record. -/
structure Served (opened : OpenedIndex) (params : SessionContentRequest) (record : Record) :
    Prop where
  version : ensureSnapshot opened params.version = .ok ()
  current : ensureSnapshotCurrent opened = .ok ()
  found : opened.index.recordsByCanonicalIdInSessionScope params.recordId params.sessionId
    params.sourcePath params.source = .ok [record]

/-- The page that begins where a part of the text ends. -/
theorem sessionContentPayload_eq (h : Served opened params record)
    (htext : record.text.toList = done ++ rest) :
    sessionContentPayload opened { params with offset := byteLength done } =
      .ok (some (contentPage opened.snapshotVersion params.recordId (done ++ rest)
        (byteLength done) params.limit)) := by
  have hle : ¬ byteLength done > byteLength (done ++ rest) := by
    rw [byteLength_append]
    omega
  have hboundary : isBoundary (done ++ rest) (byteLength done) = true :=
    isBoundary_iff.mpr ⟨done, rest, rfl, rfl⟩
  simp only [sessionContentPayload, h.version, h.found, h.current, htext]
  rw [if_neg hle, if_neg (not_not.mpr hboundary)]
  rfl

/-- Where a page that begins after a part of the text ends. -/
theorem contentPage_nextOffset (version recordId : String) (done rest : List Char) (limit : Nat) :
    (contentPage version recordId (done ++ rest) (byteLength done) limit).nextOffset =
      if byteLength (utf8Prefix rest limit) < byteLength rest then
        some (byteLength (done ++ utf8Prefix rest limit)) else none := by
  have hiff : (byteLength done + byteLength (utf8Prefix rest limit) < byteLength (done ++ rest)) ↔
      byteLength (utf8Prefix rest limit) < byteLength rest := by
    rw [byteLength_append]
    omega
  rw [byteLength_append]
  simp only [contentPage, cut_byteLength, hiff]

theorem contentPage_content (version recordId : String) (done rest : List Char) (limit : Nat) :
    (contentPage version recordId (done ++ rest) (byteLength done) limit).content =
      utf8Prefix rest limit := by
  simp only [contentPage, cut_byteLength]

/-- One request, and what is left after its page. -/
theorem followPages_succ (h : Served opened params record)
    (htext : record.text.toList = done ++ rest) (steps : Nat) :
    followPages opened params (steps + 1) (byteLength done) =
      if byteLength (utf8Prefix rest params.limit) < byteLength rest then
        (followPages opened params steps (byteLength (done ++ utf8Prefix rest params.limit))).map
          (contentPage opened.snapshotVersion params.recordId (done ++ rest) (byteLength done)
            params.limit :: ·)
      else some [contentPage opened.snapshotVersion params.recordId (done ++ rest)
        (byteLength done) params.limit] := by
  rw [followPages, sessionContentPayload_eq h htext]
  dsimp only
  rw [contentPage_nextOffset]
  by_cases hmore : byteLength (utf8Prefix rest params.limit) < byteLength rest
  · rw [if_pos hmore, if_pos hmore]
  · rw [if_neg hmore, if_neg hmore]

/-- A symbol that is longer than a page is never passed. -/
theorem followPages_eq_none (h : Served opened params record) {symbol : Char}
    (hlong : params.limit < symbol.utf8Size) (steps : Nat) :
    ∀ {done rest : List Char}, record.text.toList = done ++ rest → symbol ∈ rest →
      followPages opened params steps (byteLength done) = none := by
  induction steps with
  | zero => exact fun _ _ => rfl
  | succ steps ih =>
      intro done rest htext hmem
      obtain ⟨back, hparts, -⟩ := exists_utf8Prefix rest params.limit
      have hback : symbol ∈ back := by
        rw [hparts, List.mem_append] at hmem
        apply hmem.resolve_left
        exact fun hfront => absurd (utf8Size_le_of_mem_utf8Prefix hfront) (Nat.not_le.mpr hlong)
      have hmore : byteLength (utf8Prefix rest params.limit) < byteLength rest := by
        obtain ⟨front, tail, rfl⟩ := List.append_of_mem hback
        have hlength := congrArg byteLength hparts
        rw [byteLength_append, byteLength_append, byteLength_cons] at hlength
        have hsize := symbol.utf8Size_pos
        omega
      rw [followPages_succ h htext, if_pos hmore, ih _ hback]
      · rfl
      · rw [htext, List.append_assoc, ← hparts]

/-- A page begins and ends between two symbols. -/
theorem isBoundary_contentPage (version recordId : String) (done rest : List Char)
    (limit : Nat) :
    let page := contentPage version recordId (done ++ rest) (byteLength done) limit
    isBoundary (done ++ rest) page.offset = true ∧
      ∀ next ∈ page.nextOffset, isBoundary (done ++ rest) next = true := by
  constructor
  · exact isBoundary_iff.mpr ⟨done, rest, rfl, rfl⟩
  · intro next hnext
    rw [contentPage_nextOffset] at hnext
    split at hnext
    · obtain rfl := Option.some.inj hnext
      obtain ⟨back, hparts, -⟩ := exists_utf8Prefix rest limit
      apply isBoundary_iff.mpr
      refine ⟨done ++ utf8Prefix rest limit, back, ?_, rfl⟩
      rw [List.append_assoc, ← hparts]
    · cases hnext

/-- If every symbol fits in a page, the pages of what is left are what is left. -/
theorem exists_followPages (h : Served opened params record) (size : Nat) :
    ∀ {done rest : List Char}, record.text.toList = done ++ rest →
      (∀ symbol ∈ rest, symbol.utf8Size ≤ params.limit) → rest.length ≤ size →
      ∃ steps pages, followPages opened params steps (byteLength done) = some pages ∧
        (∀ page ∈ pages, isBoundary record.text.toList page.offset = true ∧
          ∀ next ∈ page.nextOffset, isBoundary record.text.toList next = true) ∧
        pages.flatMap (·.content) = rest := by
  induction size with
  | zero =>
      intro done rest htext _ hsize
      obtain rfl := List.eq_nil_of_length_eq_zero (Nat.le_zero.mp hsize)
      refine ⟨1, _, (followPages_succ h htext 0).trans (if_neg (Nat.not_lt_zero _)), ?_, ?_⟩
      · intro page hpage
        obtain rfl := List.mem_singleton.mp hpage
        rw [htext]
        exact isBoundary_contentPage _ _ done [] _
      · rw [List.flatMap_singleton, contentPage_content]
        exact utf8Prefix_of_le (Nat.zero_le _)
  | succ size ih =>
      intro done rest htext hfits hsize
      by_cases hmore : byteLength (utf8Prefix rest params.limit) < byteLength rest
      · obtain ⟨back, hparts, -⟩ := exists_utf8Prefix rest params.limit
        have hshorter : back.length ≤ size := by
          cases rest with
          | nil => exact absurd hmore (Nat.not_lt_zero _)
          | cons symbol rest =>
              have hfront := @utf8Prefix_cons_ne_nil _ _ rest
                (hfits symbol List.mem_cons_self)
              have hlength := congrArg List.length hparts
              have hpos := List.length_pos_iff.mpr hfront
              rw [List.length_append] at hlength
              omega
        have htext' : record.text.toList = done ++ utf8Prefix rest params.limit ++ back := by
          rw [List.append_assoc, ← hparts, htext]
        have hfits' : ∀ symbol ∈ back, symbol.utf8Size ≤ params.limit := by
          intro symbol hmem
          apply hfits
          rw [hparts]
          exact List.mem_append_right _ hmem
        obtain ⟨steps, pages, hpages, hboundary, hcontent⟩ := ih htext' hfits' hshorter
        let page := contentPage opened.snapshotVersion params.recordId (done ++ rest)
          (byteLength done) params.limit
        refine ⟨steps + 1, page :: pages, (followPages_succ h htext steps).trans ?_, ?_, ?_⟩
        · rw [if_pos hmore, hpages]
          rfl
        · intro other hother
          obtain rfl | hother := List.mem_cons.mp hother
          · rw [htext]
            exact isBoundary_contentPage _ _ done rest _
          · exact hboundary other hother
        · rw [List.flatMap_cons, contentPage_content, hcontent, ← hparts]
      · have hwhole : utf8Prefix rest params.limit = rest := by
          obtain ⟨back, hparts, -⟩ := exists_utf8Prefix rest params.limit
          have hlength := congrArg byteLength hparts
          rw [byteLength_append] at hlength
          cases back with
          | nil =>
              rw [List.append_nil] at hparts
              exact hparts.symm
          | cons symbol back =>
              have hsymbol := symbol.utf8Size_pos
              rw [byteLength_cons] at hlength
              omega
        refine ⟨1, _, (followPages_succ h htext 0).trans (if_neg hmore), ?_, ?_⟩
        · intro page hpage
          obtain rfl := List.mem_singleton.mp hpage
          rw [htext]
          exact isBoundary_contentPage _ _ done rest _
        · rw [List.flatMap_singleton, contentPage_content, hwhole]

/-- The pages of a record are read to the end, between symbols, and are its text exactly if no
symbol of it is longer than a page. -/
theorem session_content_pages_iff (h : Served opened params record) :
    ReadWhole opened params record.text.toList ↔
      ∀ symbol ∈ record.text.toList, symbol.utf8Size ≤ params.limit := by
  constructor
  · rintro ⟨steps, pages, hpages, -, -⟩ symbol hmem
    by_contra hlong
    have hnone := followPages_eq_none h (Nat.lt_of_not_le hlong) steps
      (List.nil_append _).symm hmem
    rw [byteLength_nil, hpages] at hnone
    cases hnone
  · intro hfits
    exact exists_followPages h record.text.toList.length (List.nil_append _).symm hfits
      (Nat.le_refl _)

end Pages

/-! ## Records with symbols of several bytes -/

def storedRecord (text : String) : Record :=
  { source := .codex, docId := 1, sessionId := "session", sourcePath := "session.jsonl", text }

def storedIndex (text : String) : OpenedIndex where
  index := {
    fields := {}
    docs := [Filters.addRecordOwned Filters.plainReaders {} (storedRecord text)]
    stored doc hmem := by
      rw [List.mem_singleton.mp hmem]
      exact Filters.stored_addRecordOwned ⟨rfl, rfl, rfl⟩ (show 1 < 2 ^ 64 by decide)
        (show 0 < 2 ^ 64 by decide) (show 0 < 2 ^ 32 by decide)
    readers := Filters.plainReaders
    parseQuery _ := .ok .all
    relevance _ _ := 0
    fastSessionIdentity := true }
  snapshotVersion := "1"
  reopenedVersion := "1"

/-- The request for a record in pages of at most so many bytes. -/
def accentRequest (limit : Nat) : SessionContentRequest where
  sessionId := "session"
  sourcePath := none
  source := none
  recordId := "rid1_"
  offset := 0
  limit
  version := none

theorem served_accentRequest (text : String) (limit : Nat)
    (hfound : (storedIndex text).index.recordsByCanonicalIdInSessionScope "rid1_" "session" none
      none = .ok [storedRecord text]) :
    Served (storedIndex text) (accentRequest limit) (storedRecord text) where
  version := rfl
  current := if_pos (show ¬Text.startsWith "1" "legacy-" by decide)
  found := hfound

/-- A text of eight bytes is read in pages of at most three. -/
theorem session_content_pages_iff_accents :
    ((sessionContentPayload (storedIndex "né d’") (accentRequest 3)).toOption.join.bind
        (·.nextOffset) = some 3) ∧
      ReadWhole (storedIndex "né d’") (accentRequest 3) (storedRecord "né d’").text.toList := by
  have hfound : (storedIndex "né d’").index.recordsByCanonicalIdInSessionScope "rid1_" "session"
      none none = .ok [storedRecord "né d’"] := by
    decide +kernel
  constructor
  · decide +kernel
  · apply (session_content_pages_iff (served_accentRequest "né d’" 3 hfound)).mpr
    have hall : ((storedRecord "né d’").text.toList.all fun symbol =>
        symbol.utf8Size ≤ (accentRequest 3).limit) = true := by
      decide
    exact fun symbol hmem => of_decide_eq_true (List.all_eq_true.mp hall symbol hmem)

/-- The limit of one byte is accepted, and the first page is requested for ever. -/
theorem limit_of_one_byte_stays :
    SessionContentRequest.fromUrl
        [("id", "session"), ("record_id", "rid1_"), ("offset", "0"), ("limit", "1")] =
      .ok (accentRequest 1) ∧
    ¬ ReadWhole (storedIndex "é") (accentRequest 1) (storedRecord "é").text.toList := by
  have hfound : (storedIndex "é").index.recordsByCanonicalIdInSessionScope "rid1_" "session"
      none none = .ok [storedRecord "é"] := by
    decide +kernel
  constructor
  · decide +kernel
  · rintro ⟨steps, pages, hpages, -, -⟩
    have hnone := @followPages_eq_none _ _ _ (served_accentRequest "é" 1 hfound) 'é' (by decide)
      steps [] (storedRecord "é").text.toList rfl (by decide)
    rw [byteLength_nil, hpages] at hnone
    cases hnone

end Memex.Web
