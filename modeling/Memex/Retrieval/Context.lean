import Memex.Retrieval.CanonicalId

/-! # Selected records and their neighborhoods

`retrieval.rs`: a selector names one record of the index; its context is a window of its
session. The index is the list of its live records. -/

namespace Memex.Retrieval

open LineStream

inductive ContextSelector where
  | recordId (id : String) (sessionId : Option String) (source : Option SourceKind)
  | docId (id : Nat) (sessionId : Option String) (source : Option SourceKind)
  | eventId (id : String) (sessionId : Option String) (source : Option SourceKind)
  deriving DecidableEq, Repr

def maxContextWindow : Nat := 1000

def maxInteractionExpansion : Nat := 100

structure ContextOptions where
  before : Nat := 5
  after : Nat := 5
  expandInteractions : Bool := false
  deriving DecidableEq, Repr

def ContextOptions.validate (options : ContextOptions) : Except String Unit :=
  if maxContextWindow < options.before then
    .error s!"context before window {options.before} exceeds maximum {maxContextWindow}"
  else if maxContextWindow < options.after then
    .error s!"context after window {options.after} exceeds maximum {maxContextWindow}"
  else .ok ()

inductive ContextRelation where
  | before
  | anchor
  | after
  | interaction
  deriving DecidableEq, Repr

structure ContextRecord where
  recordId : String
  relation : ContextRelation
  distance : Int
  record : Record
  deriving DecidableEq, Repr

structure ContextResult where
  anchorRecordId : String
  records : List ContextRecord
  deriving DecidableEq, Repr

/-- The session and the source of a selector, if it names them. -/
def inScope (record : Record) (sessionId : Option String) (source : Option SourceKind) : Bool :=
  sessionId.all (fun session => record.sessionId = session) &&
    source.all (fun kind => record.source = kind)

/-- `selector_matches`. -/
def selectorMatches (digest : Bytes → String) (record : Record) : ContextSelector → Bool
  | .recordId id sessionId source =>
      canonicalRecordId digest record = id && inScope record sessionId source
  | .docId id sessionId source => record.docId = id && inScope record sessionId source
  | .eventId id sessionId source =>
      record.links.eventId = some id && inScope record sessionId source

/-- `resolve_record`. -/
def resolveRecord (digest : Bytes → String) (index : List Record) (selector : ContextSelector) :
    Except String Record :=
  match deduplicateRecords digest (index.filter (selectorMatches digest · selector)) with
  | [] => .error "context anchor not found"
  | [anchor] => .ok anchor
  | candidates =>
      .error ("context selector is ambiguous; matching record IDs: " ++
        ", ".intercalate (candidates.map (canonicalRecordId digest)))

def toolInteractionId (record : Record) : Option String :=
  if record.role = "tool_use" then record.links.eventId
  else if record.role = "tool_result" ∨ record.role = "tool" then record.links.parentToolUseId
  else none

/-- The records of the session of a record, in one transcript of one source. -/
def sessionRecords (index : List Record) (anchor : Record) : List Record :=
  index.filter fun record => record.sessionId = anchor.sessionId &&
    record.sourcePath = anchor.sourcePath && record.source = anchor.source

/-- The window of a session, from one position up to another, around the anchor's. -/
structure Window where
  first : Nat
  last : Nat
  anchorPosition : Nat
  interactionIds : List String

/-- A record of the session as one of the context, if it belongs to it. -/
def Window.item (window : Window) (digest : Bytes → String) (entry : Record × Nat) :
    Option ContextRecord :=
  let (record, position) := entry
  let recordId := canonicalRecordId digest record
  if window.first ≤ position ∧ position < window.last then
    let relation :=
      if position < window.anchorPosition then .before
      else if position = window.anchorPosition then .anchor
      else .after
    some { recordId, relation, distance := position - window.anchorPosition, record }
  else if (toolInteractionId record).any (· ∈ window.interactionIds) then
    some { recordId, relation := .interaction, distance := 0, record }
  else none

def Window.around (session : List Record) (anchorPosition : Nat) (options : ContextOptions) :
    Window :=
  let first := anchorPosition - options.before
  let last := min (anchorPosition + options.after + 1) session.length
  { first, last, anchorPosition
    interactionIds :=
      if options.expandInteractions then
        ((session.take last).drop first).filterMap toolInteractionId
      else [] }

/-- How many records outside of the window belong to its interactions. -/
def Window.expandedCount (window : Window) (session : List Record) : Nat :=
  (session.zipIdx.filter fun entry =>
    !(window.first ≤ entry.2 && entry.2 < window.last) &&
      (toolInteractionId entry.1).any (· ∈ window.interactionIds)).length

/-- `context_records`. -/
def contextRecords (digest : Bytes → String) (index : List Record) (selector : ContextSelector)
    (options : ContextOptions) : Except String ContextResult :=
  match options.validate with
  | .error message => .error message
  | .ok () =>
      match resolveRecord digest index selector with
      | .error message => .error message
      | .ok anchor =>
          let anchorId := canonicalRecordId digest anchor
          let session := deduplicateRecords digest (sessionRecords index anchor)
          match session.findIdx? fun record => canonicalRecordId digest record = anchorId with
          | none => .error "resolved context anchor is not in its session"
          | some anchorPosition =>
              let window := Window.around session anchorPosition options
              let expandedCount := window.expandedCount session
              if maxInteractionExpansion < expandedCount then
                .error (s!"interaction expansion matched {expandedCount} records, exceeding " ++
                  s!"maximum {maxInteractionExpansion}; use a narrower context window or " ++
                  "disable --expand-interactions")
              else
                .ok { anchorRecordId := anchorId
                      records := session.zipIdx.filterMap (window.item digest) }

/-! ## What is found -/

variable {digest : Bytes → String} {index : List Record} {selector : ContextSelector}
  {options : ContextOptions} {context : ContextResult} {anchor : Record}

theorem mem_deduplicateRecords {records : List Record} {record : Record}
    (h : record ∈ deduplicateRecords digest records) : record ∈ records :=
  LatestByKey.mem_of_mem_latest (LatestByKey.sorted_perm.mem_iff.mp h)

theorem length_deduplicateRecords_le (records : List Record) :
    (deduplicateRecords digest records).length ≤ records.length := by
  rw [deduplicateRecords, LatestByKey.sorted_perm.length_eq]
  exact LatestByKey.length_latest_le

/-- A resolved record is one that its selector matches. -/
theorem selectorMatches_of_resolveRecord (h : resolveRecord digest index selector = .ok anchor) :
    selectorMatches digest anchor selector = true ∧ anchor ∈ index := by
  rw [resolveRecord] at h
  split at h
  · cases h
  · next found hfound =>
    obtain rfl := Except.ok.inj h
    have hmem := mem_deduplicateRecords (hfound ▸ List.mem_singleton_self found)
    rw [List.mem_filter] at hmem
    exact hmem.symm
  · cases h

/-- A context holds its anchor once. -/
structure ContextResult.Anchored (context : ContextResult) (digest : Bytes → String)
    (anchor : Record) : Prop where
  named : canonicalRecordId digest anchor = context.anchorRecordId
  once : context.records.filter (fun item => item.relation = .anchor) =
    [{ recordId := context.anchorRecordId, relation := .anchor, distance := 0, record := anchor }]
  identified : ∀ item ∈ context.records, item.recordId = canonicalRecordId digest item.record

/-- A position of a list is the place of one element. -/
theorem filterMap_zipIdx_eq_singleton {α β : Type} {item : α × Nat → Option β}
    {before after : List α} {entry : α} {found : β}
    (hhere : item (entry, before.length) = some found)
    (helse : ∀ other position, position ≠ before.length → item (other, position) = none) :
    (before ++ entry :: after).zipIdx.filterMap item = [found] := by
  have hbefore : before.zipIdx.filterMap item = [] := by
    rw [List.filterMap_eq_nil_iff]
    rintro ⟨other, position⟩ hmem
    have := List.snd_lt_of_mem_zipIdx hmem
    exact helse other position (by dsimp only at this; omega)
  have hafter : (after.zipIdx (before.length + 1)).filterMap item = [] := by
    rw [List.filterMap_eq_nil_iff]
    rintro ⟨other, position⟩ hmem
    have := List.le_snd_of_mem_zipIdx hmem
    exact helse other position (by dsimp only at this; omega)
  rw [List.zipIdx_append, List.filterMap_append, hbefore, Nat.zero_add, List.zipIdx_cons,
    List.filterMap_cons, hhere, hafter]
  rfl

theorem Window.item_eq_some {window : Window} {entry : Record × Nat} {item : ContextRecord}
    (h : window.item digest entry = some item) :
    item.record = entry.1 ∧ item.recordId = canonicalRecordId digest entry.1 := by
  simp only [Window.item] at h
  split at h
  · obtain rfl := Option.some.inj h
    exact ⟨rfl, rfl⟩
  · split at h
    · obtain rfl := Option.some.inj h
      exact ⟨rfl, rfl⟩
    · cases h

/-- The record at the anchor's position is the only one related as the anchor. -/
theorem Window.item_filter_anchor (window : Window) (record : Record) (position : Nat) :
    ((window.item digest (record, position)).filter fun item => item.relation = .anchor) =
      if window.first ≤ position ∧ position < window.last ∧ position = window.anchorPosition then
        some { recordId := canonicalRecordId digest record, relation := .anchor, distance := 0,
               record }
      else none := by
  simp only [Window.item]
  by_cases hwindow : window.first ≤ position ∧ position < window.last
  · rw [if_pos hwindow]
    obtain hlt | heq | hgt := lt_trichotomy position window.anchorPosition
    · rw [if_pos hlt, if_neg (by omega)]
      rfl
    · rw [if_neg (by omega), if_pos heq, if_pos ⟨hwindow.1, hwindow.2, heq⟩, heq, sub_self]
      rfl
    · rw [if_neg (by omega), if_neg (by omega), if_neg (by omega)]
      rfl
  · have helsewhere : ¬(window.first ≤ position ∧ position < window.last ∧
        position = window.anchorPosition) := fun h => hwindow ⟨h.1, h.2.1⟩
    rw [if_neg hwindow, if_neg helsewhere]
    split
    · rfl
    · rfl

/-- The window of a session around one of its records, as `context_records` returns it. -/
theorem Window.records_anchored {window : Window} {session : List Record} {anchor : Record}
    (hat : session[window.anchorPosition]? = some anchor)
    (hfirst : window.first ≤ window.anchorPosition)
    (hlast : window.anchorPosition < window.last) :
    ContextResult.Anchored
      { anchorRecordId := canonicalRecordId digest anchor
        records := session.zipIdx.filterMap (window.item digest) } digest anchor where
  named := rfl
  once := by
    obtain ⟨hlength, hat⟩ := List.getElem?_eq_some_iff.mp hat
    have hsplit := List.take_append_drop window.anchorPosition session
    have hbefore : (session.take window.anchorPosition).length = window.anchorPosition := by
      rw [List.length_take]
      omega
    rw [List.drop_eq_getElem_cons hlength, hat] at hsplit
    rw [List.filter_filterMap, ← hsplit]
    apply filterMap_zipIdx_eq_singleton
    · dsimp only
      rw [hbefore, item_filter_anchor, if_pos ⟨hfirst, hlast, rfl⟩]
    · intro other position hother
      rw [hbefore] at hother
      rw [item_filter_anchor, if_neg fun h => hother h.2.2]
  identified := by
    intro item hitem
    obtain ⟨entry, -, hentry⟩ := List.mem_filterMap.mp hitem
    obtain ⟨hrecord, hname⟩ := Window.item_eq_some hentry
    rw [hname, hrecord]

/-- The projection of a record that its session keeps. -/
def keptProjection (digest : Bytes → String) (index : List Record) (record : Record) :
    Option Record :=
  (deduplicateRecords digest (sessionRecords index record)).find? fun kept =>
    canonicalRecordId digest kept = canonicalRecordId digest record

/-- A context is anchored at the kept projection of the resolved record. -/
theorem contextRecords_anchored (h : contextRecords digest index selector options = .ok context) :
    ∃ resolved anchor, resolveRecord digest index selector = .ok resolved ∧
      keptProjection digest index resolved = some anchor ∧ context.Anchored digest anchor ∧
      context.records.length ≤ index.length := by
  rw [contextRecords] at h
  split at h
  · cases h
  · split at h
    · cases h
    · next resolved hresolved =>
      dsimp only at h
      split at h
      · cases h
      · next anchorPosition hposition =>
        split at h
        · cases h
        · have hcontext := Except.ok.inj h
          have hfound := List.findIdx?_eq_some_iff_getElem.mp hposition
          obtain ⟨hlength, hid, -⟩ := hfound
          rw [decide_eq_true_eq] at hid
          obtain ⟨anchor, hat⟩ : ∃ anchor, (deduplicateRecords digest
              (sessionRecords index resolved))[anchorPosition]? = some anchor :=
            ⟨_, List.getElem?_eq_getElem hlength⟩
          rw [(List.getElem?_eq_some_iff.mp hat).2] at hid
          refine ⟨resolved, anchor, hresolved, ?_, ?_, ?_⟩
          · rw [keptProjection, List.find?_eq_bind_findIdx?_getElem?, hposition]
            exact hat
          · rw [← hcontext, ← hid]
            apply Window.records_anchored hat
            · exact Nat.sub_le _ _
            · simp only [Window.around]
              omega
          · rw [← hcontext]
            calc
              _ ≤ (deduplicateRecords digest (sessionRecords index resolved)).zipIdx.length :=
                List.length_filterMap_le _ _
              _ = (deduplicateRecords digest (sessionRecords index resolved)).length :=
                List.length_zipIdx
              _ ≤ (sessionRecords index resolved).length := length_deduplicateRecords_le _
              _ ≤ index.length := List.length_filter_le _ _

/-! ## The kept projection -/

/-- Whether the projection that is kept of the selected record is one the selector matches. -/
def keepsSelected (digest : Bytes → String) (index : List Record) (selector : ContextSelector) :
    Bool :=
  match resolveRecord digest index selector with
  | .error _ => true
  | .ok resolved => (keptProjection digest index resolved).all (selectorMatches digest · selector)

end Memex.Retrieval
