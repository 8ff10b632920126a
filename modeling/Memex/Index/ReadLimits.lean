import Memex.Index.Searcher

/-! # Limits of the read operations

A collector with the limit zero panics. Which read operations can make one, on which index and
with which arguments. -/

namespace Memex.Index

open BooleanQuery Filters Machine

/-- A read operation with its arguments. -/
inductive ReadOp where
  | docIdsBySourceScope (scope : State.SessionScope)
  | docIdsBySourcePath (path : String)
  | sourcePathsWithRecords (candidates : List String)
  | getByDocId (docId : Nat)
  | recordsByDocId (docId : Nat)
  | recordsByEventId (eventId : String)
  | recordsByCanonicalId (recordId : String)
  | recordsByCanonicalIdInSessionScope (recordId sessionId : String)
      (sourcePath : Option String) (source : Option SourceKind)
  | recordsByContextScope (sessionId : Option String) (source : Option SourceKind)
  | search (options : SearchOptions)
  | searchByTimestamp (options : SearchOptions) (order : TimestampOrder)
  | sessionScopesMatchingQuery (options : SearchOptions)
  | fastSessionScopesMatchingQuery (options : SearchOptions)
  | sessionScopeHasMatchingConversationKind (options : SearchOptions) (scope : SessionScopeKey)
      (kind : String)
  | docIdsMatchingFilters (options : SearchOptions)
  | recordsBySessionId (sessionId : String)
  | matchingSessionScopes (sessionId : String) (sourcePath : Option String)
      (source : Option SourceKind)
  | recordsBySessionIdPage (sessionId : String) (offset limit : Nat)
  | recordsBySessionPathPage (sessionId : String) (sourcePath : Option String)
      (offset limit : Nat)
  | recordsBySessionScopePage (sessionId : String) (sourcePath : Option String)
      (source : Option SourceKind) (offset limit : Nat)
  | recordsBySessionPathAround (sessionId : String) (sourcePath : Option String)
      (recordId : String) (limit : Nat)
  | recordsBySessionScopeAround (sessionId : String) (sourcePath : Option String)
      (source : Option SourceKind) (recordId : String) (limit : Nat)
  | sessionTimeBounds (sessionId : String) (sourcePath : Option String)
  | sessionScopeTimeBounds (sessionId : String) (sourcePath : Option String)
      (source : Option SourceKind)
  | recentRecords (limit : Nat)
  | recentRecordsForSource (limit : Nat) (source : Option SourceKind)
  | recentRecordsFiltered (limit : Nat) (source : Option SourceKind) (project : Option String)
  | recentRecordsFilteredSince (limit : Nat) (source : Option SourceKind)
      (project : Option String) (since : Option Nat)
  | docCount
  | forEachRecord

/-- Whether an operation panics over a collector with the limit zero. -/
def Panics {α : Type} (result : Except Failure α) : Prop :=
  result = .error .zeroLimit

instance {α : Type} (result : Except Failure α) : Decidable (Panics result) :=
  match result with
  | .error .zeroLimit => isTrue rfl
  | .error .underflow => isFalse fun h => by cases h
  | .error (.parse _) => isFalse fun h => by cases h
  | .ok _ => isFalse fun h => by cases h

/-- A read operation on an index panics. -/
def ReadOp.PanicsOn (index : SearchIndex) : ReadOp → Prop
  | docIdsBySourceScope scope => Panics (index.docIdsBySourceScope scope)
  | docIdsBySourcePath path => Panics (index.docIdsBySourcePath path)
  | sourcePathsWithRecords _ => False
  | getByDocId docId => Panics (index.getByDocId docId)
  | recordsByDocId docId => Panics (index.recordsByDocId docId)
  | recordsByEventId eventId => Panics (index.recordsByEventId eventId)
  | recordsByCanonicalId recordId => Panics (index.recordsByCanonicalId recordId)
  | recordsByCanonicalIdInSessionScope recordId sessionId sourcePath source =>
      Panics (index.recordsByCanonicalIdInSessionScope recordId sessionId sourcePath source)
  | recordsByContextScope sessionId source =>
      Panics (index.recordsByContextScope sessionId source)
  | search options => Panics (index.search options)
  | searchByTimestamp options order => Panics (index.searchByTimestamp options order)
  | sessionScopesMatchingQuery options => Panics (index.sessionScopesMatchingQuery options)
  | fastSessionScopesMatchingQuery options =>
      Panics (index.fastSessionScopesMatchingQuery options)
  | sessionScopeHasMatchingConversationKind options scope kind =>
      Panics (index.sessionScopeHasMatchingConversationKind options scope kind)
  | docIdsMatchingFilters options => Panics (index.docIdsMatchingFilters options)
  | recordsBySessionId sessionId => Panics (index.recordsBySessionId sessionId)
  | matchingSessionScopes sessionId sourcePath source =>
      Panics (index.matchingSessionScopes sessionId sourcePath source)
  | recordsBySessionIdPage sessionId offset limit =>
      Panics (index.recordsBySessionIdPage sessionId offset limit)
  | recordsBySessionPathPage sessionId sourcePath offset limit =>
      Panics (index.recordsBySessionPathPage sessionId sourcePath offset limit)
  | recordsBySessionScopePage sessionId sourcePath source offset limit =>
      Panics (index.recordsBySessionScopePage sessionId sourcePath source offset limit)
  | recordsBySessionPathAround sessionId sourcePath recordId limit =>
      Panics (index.recordsBySessionPathAround sessionId sourcePath recordId limit)
  | recordsBySessionScopeAround sessionId sourcePath source recordId limit =>
      Panics (index.recordsBySessionScopeAround sessionId sourcePath source recordId limit)
  | sessionTimeBounds sessionId sourcePath =>
      Panics (index.sessionTimeBounds sessionId sourcePath)
  | sessionScopeTimeBounds sessionId sourcePath source =>
      Panics (index.sessionScopeTimeBounds sessionId sourcePath source)
  | recentRecords limit => Panics (index.recentRecords limit)
  | recentRecordsForSource limit source => Panics (index.recentRecordsForSource limit source)
  | recentRecordsFiltered limit source project =>
      Panics (index.recentRecordsFiltered limit source project)
  | recentRecordsFilteredSince limit source project since =>
      Panics (index.recentRecordsFilteredSince limit source project since)
  | docCount => False
  | forEachRecord => False

section Rules

variable {α β : Type} {index : SearchIndex} {query : DocQuery}
  {order : Document → Document → Ordering} {limit offset : Nat}

@[simp] theorem not_panics_ok (value : α) : ¬ Panics (.ok value : Except Failure α) :=
  fun h => by cases h

@[simp] theorem not_panics_pure (value : α) : ¬ Panics (pure value : Except Failure α) :=
  fun h => by cases h

/-- A sequence panics if its first part does, or the rest after it. -/
theorem panics_bind_iff {first : Except Failure α} {rest : α → Except Failure β} :
    Panics (first >>= rest) ↔ Panics first ∨ ∃ value, first = .ok value ∧ Panics (rest value) := by
  cases first with
  | error failure =>
      constructor
      · intro h
        exact Or.inl (congrArg Except.error (Except.error.inj h))
      · rintro (h | ⟨value, hvalue, -⟩)
        · exact congrArg Except.error (Except.error.inj h)
        · cases hvalue
  | ok value =>
      constructor
      · intro h
        exact Or.inr ⟨value, rfl, h⟩
      · rintro (h | ⟨other, hother, h⟩)
        · cases h
        · obtain rfl := Except.ok.inj hother
          exact h

theorem panics_topDocs_iff : Panics (index.topDocs query order limit offset) ↔ limit = 0 := by
  rw [SearchIndex.topDocs]
  split
  next h => exact iff_of_true rfl h
  next h => exact iff_of_false (not_panics_ok _) h

theorem not_panics_checkedSub (left right : Nat) : ¬ Panics (checkedSub left right) := by
  rw [checkedSub]
  split
  · exact not_panics_ok _
  · rintro ⟨⟩

theorem not_panics_queryOf (options : SearchOptions) : ¬ Panics (index.queryOf options) := by
  rw [SearchIndex.queryOf]
  split
  · exact not_panics_ok _
  · split
    · rintro ⟨⟩
    · exact not_panics_ok _

/-- What does not panic and goes on with what does not panic. -/
theorem not_panics_bind {first : Except Failure α} {rest : α → Except Failure β}
    (hfirst : ¬ Panics first) (hrest : ∀ value, ¬ Panics (rest value)) :
    ¬ Panics (first >>= rest) := by
  rw [panics_bind_iff]
  rintro (h | ⟨value, -, h⟩)
  · exact hfirst h
  · exact hrest value h

theorem not_panics_topDocs (h : limit ≠ 0) : ¬ Panics (index.topDocs query order limit offset) :=
  fun hpanics => h (panics_topDocs_iff.mp hpanics)

end Rules

section Operations

variable (index : SearchIndex)

theorem not_panics_docIdsMatchingQuery (query : DocQuery) :
    ¬ Panics (index.docIdsMatchingQuery query) := by
  apply not_panics_bind
  · exact not_panics_topDocs (by omega)
  · exact fun _ => not_panics_ok _

theorem not_panics_getByDocId (docId : Nat) : ¬ Panics (index.getByDocId docId) := by
  apply not_panics_bind
  · exact not_panics_topDocs Nat.one_ne_zero
  · exact fun _ => not_panics_ok _

theorem not_panics_recordsMatchingQuery (query : DocQuery) :
    ¬ Panics (index.recordsMatchingQuery query) := by
  simp only [SearchIndex.recordsMatchingQuery]
  split
  · exact not_panics_ok _
  next hcount =>
    apply not_panics_bind
    · exact not_panics_topDocs hcount
    · exact fun _ => not_panics_ok _

theorem not_panics_recordsByCanonicalId (recordId : String) :
    ¬ Panics (index.recordsByCanonicalId recordId) := by
  rw [SearchIndex.recordsByCanonicalId]
  split
  · exact not_panics_ok _
  · apply not_panics_bind
    · exact not_panics_recordsMatchingQuery index _
    · exact fun _ => not_panics_ok _

theorem not_panics_recordsByCanonicalIdInSessionScope (recordId sessionId : String)
    (sourcePath : Option String) (source : Option SourceKind) :
    ¬ Panics (index.recordsByCanonicalIdInSessionScope recordId sessionId sourcePath source) := by
  simp only [SearchIndex.recordsByCanonicalIdInSessionScope]
  split
  · exact not_panics_ok _
  next hlimit =>
    apply not_panics_bind
    · exact not_panics_topDocs hlimit
    · exact fun _ => not_panics_ok _

/-- The search hands its limit over as it is. -/
theorem panics_search_iff (options : SearchOptions) :
    Panics (index.search options) ↔
      options.limit = 0 ∧ ∃ query, index.queryOf options = .ok query := by
  rw [SearchIndex.search, panics_bind_iff, or_iff_right (not_panics_queryOf options)]
  constructor
  · rintro ⟨query, hquery, hpanics⟩
    rw [panics_bind_iff, panics_topDocs_iff] at hpanics
    obtain hlimit | ⟨docs, -, hpanics⟩ := hpanics
    · exact ⟨hlimit, query, hquery⟩
    · exact absurd hpanics (not_panics_ok _)
  · rintro ⟨hlimit, query, hquery⟩
    refine ⟨query, hquery, ?_⟩
    rw [panics_bind_iff, panics_topDocs_iff]
    exact Or.inl hlimit

theorem not_panics_searchByTimestamp (options : SearchOptions) (order : TimestampOrder) :
    ¬ Panics (index.searchByTimestamp options order) := by
  apply not_panics_bind
  · exact not_panics_queryOf options
  · intro query
    apply not_panics_bind
    · exact not_panics_topDocs (by omega)
    · exact fun _ => not_panics_ok _

theorem not_panics_sessionScopesMatchingQuery (options : SearchOptions) :
    ¬ Panics (index.sessionScopesMatchingQuery options) := by
  apply not_panics_bind
  · exact not_panics_queryOf options
  · exact fun _ => not_panics_ok _

theorem not_panics_fastSessionScopesMatchingQuery (options : SearchOptions) :
    ¬ Panics (index.fastSessionScopesMatchingQuery options) := by
  rw [SearchIndex.fastSessionScopesMatchingQuery]
  split
  · apply not_panics_bind
    · exact not_panics_sessionScopesMatchingQuery index options
    · exact fun _ => not_panics_ok _
  · exact not_panics_ok _

theorem not_panics_sessionScopeHasMatchingConversationKind (options : SearchOptions)
    (scope : SessionScopeKey) (kind : String) :
    ¬ Panics (index.sessionScopeHasMatchingConversationKind options scope kind) := by
  apply not_panics_bind
  · exact not_panics_queryOf _
  · intro query
    apply not_panics_bind
    · exact not_panics_topDocs Nat.one_ne_zero
    · exact fun _ => not_panics_ok _

theorem not_panics_docIdsMatchingFilters (options : SearchOptions) :
    ¬ Panics (index.docIdsMatchingFilters options) := by
  apply not_panics_bind
  · exact not_panics_queryOf _
  · intro query
    dsimp only
    split
    · exact not_panics_ok _
    next hcount =>
      apply not_panics_bind
      · exact not_panics_topDocs hcount
      · exact fun _ => not_panics_ok _

/-- The collector of a whole session is made for as many documents as the index has. -/
theorem panics_recordsBySessionId_iff (sessionId : String) :
    Panics (index.recordsBySessionId sessionId) ↔ index.docs = [] := by
  rw [SearchIndex.recordsBySessionId, panics_bind_iff, panics_topDocs_iff,
    List.length_eq_zero_iff]
  constructor
  · rintro (hempty | ⟨docs, -, hpanics⟩)
    · exact hempty
    · exact absurd hpanics (not_panics_ok _)
  · exact Or.inl

theorem not_panics_matchingSessionScopes (sessionId : String) (sourcePath : Option String)
    (source : Option SourceKind) :
    ¬ Panics (index.matchingSessionScopes sessionId sourcePath source) := by
  apply not_panics_bind
  · exact not_panics_topDocs Nat.one_ne_zero
  · intro first
    split
    · exact not_panics_ok _
    · apply not_panics_bind
      · exact not_panics_topDocs Nat.one_ne_zero
      · exact fun _ => not_panics_ok _

/-- A page inside the session has a record. -/
theorem not_panics_recordsBySessionScopePage (sessionId : String) (sourcePath : Option String)
    (source : Option SourceKind) (offset limit : Nat) :
    ¬ Panics (index.recordsBySessionScopePage sessionId sourcePath source offset limit) := by
  simp only [SearchIndex.recordsBySessionScopePage]
  split
  · exact not_panics_ok _
  next hinside =>
    rw [panics_bind_iff, or_iff_right (not_panics_checkedSub _ _)]
    rintro ⟨rest, hrest, hpanics⟩
    revert hpanics
    have hpositive : rest ≠ 0 := by
      rw [checkedSub, if_pos (by omega)] at hrest
      obtain rfl := Except.ok.inj hrest
      omega
    apply not_panics_bind
    · exact not_panics_checkedSub _ _
    · intro remaining
      apply not_panics_bind
      · exact not_panics_topDocs (by omega)
      · exact fun _ => not_panics_ok _

theorem not_panics_recordsBySessionScopeAround (sessionId : String)
    (sourcePath : Option String) (source : Option SourceKind) (recordId : String) (limit : Nat) :
    ¬ Panics (index.recordsBySessionScopeAround sessionId sourcePath source recordId limit) := by
  apply not_panics_bind
  · exact not_panics_recordsByCanonicalIdInSessionScope index recordId sessionId sourcePath source
  · intro anchors
    split
    · exact not_panics_ok _
    · refine not_panics_bind (not_panics_checkedSub _ _) fun afterAvailable => ?_
      refine not_panics_bind (not_panics_checkedSub _ _) fun afterLimit => ?_
      refine not_panics_bind (not_panics_checkedSub _ _) fun beforeRoom => ?_
      refine not_panics_bind (not_panics_checkedSub _ _) fun offset => ?_
      refine not_panics_bind (not_panics_topDocs (by omega)) fun before => ?_
      refine not_panics_bind (not_panics_topDocs (by omega)) fun after => ?_
      exact not_panics_ok _

theorem not_panics_sessionScopeTimeBounds (sessionId : String) (sourcePath : Option String)
    (source : Option SourceKind) :
    ¬ Panics (index.sessionScopeTimeBounds sessionId sourcePath source) := by
  apply not_panics_bind
  · exact not_panics_topDocs Nat.one_ne_zero
  · intro oldest
    apply not_panics_bind
    · exact not_panics_topDocs Nat.one_ne_zero
    · exact fun _ => not_panics_ok _

theorem not_panics_recentRecordsFilteredSince (limit : Nat) (source : Option SourceKind)
    (project : Option String) (since : Option Nat) :
    ¬ Panics (index.recentRecordsFilteredSince limit source project since) := by
  apply not_panics_bind
  · exact not_panics_topDocs (by omega)
  · exact fun _ => not_panics_ok _

end Operations

/-- The limit of a search is positive or its query cannot be parsed, and a whole session is read
of an index with documents. -/
def ReadOp.HasLimit (index : SearchIndex) : ReadOp → Prop
  | search options => 0 < options.limit ∨ ∀ query, index.queryOf options ≠ .ok query
  | recordsBySessionId _ => index.docs ≠ []
  | _ => True

/-- A read operation makes no collector with the limit zero if and only if it is no search with
that limit and no read of a whole session of an empty index. -/
theorem read_operation_panics_iff (index : SearchIndex) (op : ReadOp) :
    ¬ op.PanicsOn index ↔ op.HasLimit index := by
  cases op with
  | search options =>
      rw [ReadOp.PanicsOn, ReadOp.HasLimit, panics_search_iff, not_and_or, not_exists,
        Nat.pos_iff_ne_zero]
  | recordsBySessionId sessionId =>
      rw [ReadOp.PanicsOn, ReadOp.HasLimit, panics_recordsBySessionId_iff]
  | sourcePathsWithRecords _ => exact iff_of_true id trivial
  | docCount => exact iff_of_true id trivial
  | forEachRecord => exact iff_of_true id trivial
  | docIdsBySourceScope _ =>
      exact iff_of_true (not_panics_docIdsMatchingQuery index _) trivial
  | docIdsBySourcePath _ =>
      exact iff_of_true (not_panics_docIdsMatchingQuery index _) trivial
  | getByDocId docId => exact iff_of_true (not_panics_getByDocId index docId) trivial
  | recordsByDocId _ =>
      exact iff_of_true (not_panics_recordsMatchingQuery index _) trivial
  | recordsByEventId _ =>
      exact iff_of_true (not_panics_recordsMatchingQuery index _) trivial
  | recordsByCanonicalId recordId =>
      exact iff_of_true (not_panics_recordsByCanonicalId index recordId) trivial
  | recordsByCanonicalIdInSessionScope recordId sessionId sourcePath source =>
      exact iff_of_true (not_panics_recordsByCanonicalIdInSessionScope index recordId sessionId
        sourcePath source) trivial
  | recordsByContextScope _ _ =>
      exact iff_of_true (not_panics_recordsMatchingQuery index _) trivial
  | searchByTimestamp options order =>
      exact iff_of_true (not_panics_searchByTimestamp index options order) trivial
  | sessionScopesMatchingQuery options =>
      exact iff_of_true (not_panics_sessionScopesMatchingQuery index options) trivial
  | fastSessionScopesMatchingQuery options =>
      exact iff_of_true (not_panics_fastSessionScopesMatchingQuery index options) trivial
  | sessionScopeHasMatchingConversationKind options scope kind =>
      exact iff_of_true (not_panics_sessionScopeHasMatchingConversationKind index options scope
        kind) trivial
  | docIdsMatchingFilters options =>
      exact iff_of_true (not_panics_docIdsMatchingFilters index options) trivial
  | matchingSessionScopes sessionId sourcePath source =>
      exact iff_of_true (not_panics_matchingSessionScopes index sessionId sourcePath source)
        trivial
  | recordsBySessionIdPage sessionId offset limit =>
      exact iff_of_true (not_panics_recordsBySessionScopePage index sessionId none none offset
        limit) trivial
  | recordsBySessionPathPage sessionId sourcePath offset limit =>
      exact iff_of_true (not_panics_recordsBySessionScopePage index sessionId sourcePath none
        offset limit) trivial
  | recordsBySessionScopePage sessionId sourcePath source offset limit =>
      exact iff_of_true (not_panics_recordsBySessionScopePage index sessionId sourcePath source
        offset limit) trivial
  | recordsBySessionPathAround sessionId sourcePath recordId limit =>
      exact iff_of_true (not_panics_recordsBySessionScopeAround index sessionId sourcePath none
        recordId limit) trivial
  | recordsBySessionScopeAround sessionId sourcePath source recordId limit =>
      exact iff_of_true (not_panics_recordsBySessionScopeAround index sessionId sourcePath source
        recordId limit) trivial
  | sessionTimeBounds sessionId sourcePath =>
      exact iff_of_true (not_panics_sessionScopeTimeBounds index sessionId sourcePath none)
        trivial
  | sessionScopeTimeBounds sessionId sourcePath source =>
      exact iff_of_true (not_panics_sessionScopeTimeBounds index sessionId sourcePath source)
        trivial
  | recentRecords limit =>
      exact iff_of_true (not_panics_recentRecordsFilteredSince index limit none none none) trivial
  | recentRecordsForSource limit source =>
      exact iff_of_true (not_panics_recentRecordsFilteredSince index limit source none none)
        trivial
  | recentRecordsFiltered limit source project =>
      exact iff_of_true (not_panics_recentRecordsFilteredSince index limit source project none)
        trivial
  | recentRecordsFilteredSince limit source project since =>
      exact iff_of_true (not_panics_recentRecordsFilteredSince index limit source project since)
        trivial

/-- An index that was just created. -/
def emptyIndex : SearchIndex where
  fields := {}
  docs := []
  stored _ hmem := absurd hmem List.not_mem_nil
  readers := plainReaders
  parseQuery _ := .ok .all
  relevance _ _ := 0
  fastSessionIdentity := true

/-- A session of an empty index is read with the limit zero, and so is a search without one. -/
theorem empty_session_panics :
    (ReadOp.recordsBySessionId "session").PanicsOn emptyIndex ∧
      (ReadOp.search { limit := 0 }).PanicsOn emptyIndex :=
  ⟨rfl, rfl⟩

end Memex.Index
