import Memex.Lib.ChangeLog
import Memex.Ingest.GenerationChange

/-! # The event log of an OpenCode database

A database of the first layout logs what changes in it, deletes old events, and may be replaced by
another one. What a write keeps of the log for a cursor is what a scan behind this cursor needs. -/

namespace Memex.Ingest

open State Sources Sources.Opencode

/-- The rows of the event log. -/
def eventRows (content : Database) : List EventRow :=
  content.event.read.getD []

/-- The records that the current rows of a session make. -/
def sessionBodies (path : String) (content : Database) (session : String) :
    Option (Multiset Record) :=
  (parseSessionRecords content path session).map fun records =>
    (records.map Record.body : List Record)

/-- The table `session` has a row of this id. -/
def HasSession (content : Database) (session : String) : Prop :=
  ∃ row ∈ content.session.read.getD [], row.id = session

instance (content : Database) (session : String) : Decidable (HasSession content session) :=
  inferInstanceAs (Decidable (∃ row ∈ content.session.read.getD [], row.id = session))

/-- The event log of a database, as a scan uses it. A session that is there is seen through the
records that its rows make. -/
def eventLog (path : String) :
    ChangeLog Database OpencodeDatabaseState String (Option (Multiset Record)) where
  valid cursor content := cursorIsValid (eventRows content) cursor = true
  behind cursor content session := session ∈ eventDelta (eventRows content) cursor
  view content session :=
    if HasSession content session then some (sessionBodies path content session) else none

/-- A write that logs what it changes: it may delete the oldest events, and appends an event for
every session that is there afterwards with other records. -/
structure LoggedWrite (path : String) (content next : Database) : Prop where
  pruned : ∃ bound, ∀ row ∈ eventRows content, row ∈ eventRows next ↔ bound < row.rowid
  appended : ∀ row ∈ eventRows next, row ∉ eventRows content →
    0 < row.rowid ∧ ∀ old ∈ eventRows content, old.rowid < row.rowid
  logged : ∀ session, (eventLog path).view next session ≠ none →
    (eventLog path).view next session ≠ (eventLog path).view content session →
      ∃ row ∈ eventRows next, row ∉ eventRows content ∧ row.aggregateId = some session

/-- The table of events: rowids are positive, and each is there once. -/
structure EventTable (content : Database) : Prop where
  unique : ((eventRows content).map EventRow.rowid).Nodup
  positive : ∀ row ∈ eventRows content, 0 < row.rowid

/-- No content so far had an event of this id. -/
def NewEvent (contents : List Database) (row : EventRow) : Prop :=
  ∀ content ∈ contents, ∀ old ∈ eventRows content, old.id ≠ row.id

instance (contents : List Database) (row : EventRow) : Decidable (NewEvent contents row) :=
  inferInstanceAs (Decidable (∀ content ∈ contents, ∀ old ∈ eventRows content, old.id ≠ row.id))

/-- How a database is written. It logs what it changes, under new ids, or a database of another
history takes its place. -/
inductive DatabaseWrite (path : String) (contents : List Database) (content next : Database) :
    Prop where
  | logged (h : LoggedWrite path content next)
      (fresh : ∀ row ∈ eventRows next, row ∉ eventRows content → NewEvent contents row)
  | replaced (h : ∀ row ∈ eventRows next, NewEvent contents row)

/-- The cursor that a scan of this content takes. -/
def scannedCursor (content : Database) : OpencodeDatabaseState where
  parserVersion := databaseStateVersion
  eventRowid := ((newestEvent (eventRows content)).map EventRow.rowid).getD 0
  eventId := (newestEvent (eventRows content)).map EventRow.id

/-- A cursor that was taken of one of these contents. -/
def ScannedFrom (contents : List Database) (cursor : OpencodeDatabaseState) : Prop :=
  ∃ content ∈ contents, cursor.eventRowid = (scannedCursor content).eventRowid ∧
    cursor.eventId = (scannedCursor content).eventId

/-- A write while some cursors are in use. The cursor of an empty log is never found invalid: as
long as it is in use changes are logged and no event is deleted. -/
structure WriteAllowed (path : String) (cursors : List OpencodeDatabaseState)
    (contents : List Database) (content next : Database) : Prop where
  layout : next.hasV2Schema = false
  table : EventTable next
  write : DatabaseWrite path contents content next
  kept : ∀ cursor ∈ cursors, cursor.eventId = none →
    LoggedWrite path content next ∧ eventRows content ⊆ eventRows next

/-- Writes one after the other. -/
def WritesAllowed (path : String) (cursors : List OpencodeDatabaseState) :
    List Database → Database → List Database → Prop
  | _, _, [] => True
  | contents, content, next :: rest =>
      WriteAllowed path cursors contents content next ∧
        WritesAllowed path cursors (contents ++ [next]) next rest

section Writes

variable {path session : String} {content next : Database} {cursor : OpencodeDatabaseState}
  {events : List EventRow}

theorem mem_eventDelta :
    session ∈ eventDelta events cursor ↔
      ∃ row ∈ events, cursor.eventRowid < row.rowid ∧ row.aggregateId = some session := by
  simp [eventDelta, and_assoc]

/-- The newest event is not older than any other. -/
theorem rowid_le_newestEvent {row : EventRow} (h : row ∈ events) :
    row.rowid ≤ ((newestEvent events).map EventRow.rowid).getD 0 := by
  induction events with
  | nil => cases h
  | cons first rest ih =>
      rw [newestEvent]
      rcases List.mem_cons.mp h with rfl | hrest
      · split
        · split
          · exact le_refl _
          · simp only [Option.map_some, Option.getD_some]
            omega
        · exact le_refl _
      · have hle := ih hrest
        split
        · next other hother =>
          rw [hother] at hle
          simp only [Option.map_some, Option.getD_some] at hle ⊢
          split <;> omega
        · next hnone =>
          cases rest with
          | nil => cases hrest
          | cons second more =>
              rw [newestEvent] at hnone
              split at hnone <;> cases hnone

theorem newestEvent_nonneg (h : ∀ row ∈ events, 0 < row.rowid) :
    0 ≤ ((newestEvent events).map EventRow.rowid).getD 0 := by
  cases events with
  | nil => exact le_refl _
  | cons first rest =>
      have hle := rowid_le_newestEvent (@List.mem_cons_self _ first rest)
      have hpos := h first List.mem_cons_self
      omega

/-- A cursor of an event belongs to the log that has this event. -/
theorem cursorIsValid_iff (hunique : (events.map EventRow.rowid).Nodup)
    (hid : cursor.eventId ≠ none) :
    cursorIsValid events cursor = true ↔
      cursor.parserVersion = databaseStateVersion ∧ 0 < cursor.eventRowid ∧
        ∃ row ∈ events, row.rowid = cursor.eventRowid ∧ some row.id = cursor.eventId := by
  simp only [cursorIsValid, hid, and_false, if_false, Bool.and_eq_true, decide_eq_true_eq]
  constructor
  · rintro ⟨⟨⟨hversion, -⟩, -⟩, h⟩
    split at h
    · next hpos =>
      refine ⟨hversion, hpos, ?_⟩
      split at h
      · next row hfound =>
        refine ⟨row, List.mem_of_find?_eq_some hfound, ?_, of_decide_eq_true h⟩
        have hrow := List.find?_some hfound
        exact of_decide_eq_true hrow
      · cases h
    · cases h
  · rintro ⟨hversion, hpos, row, hmem, hrow, hsame⟩
    have hle := rowid_le_newestEvent hmem
    have hfound : events.find? (fun event => event.rowid = cursor.eventRowid) = some row := by
      cases hfind : events.find? (fun event => event.rowid = cursor.eventRowid) with
      | none => exact absurd (decide_eq_true hrow) (List.find?_eq_none.mp hfind row hmem)
      | some other =>
          have hother := List.find?_some hfind
          rw [decide_eq_true_eq] at hother
          exact congrArg some (List.inj_on_of_nodup_map hunique
            (List.mem_of_find?_eq_some hfind) hmem (hother.trans hrow.symm))
    refine ⟨⟨⟨hversion, by omega⟩, by omega⟩, ?_⟩
    rw [if_pos hpos, hfound]
    exact decide_eq_true hsame

/-- What a write appends is behind every cursor that belongs to the log. -/
theorem LoggedWrite.behind (h : LoggedWrite path content next)
    (hcursor : cursor.eventRowid = 0 ∨ ∃ row ∈ eventRows content, row.rowid = cursor.eventRowid)
    (hview : (eventLog path).view next session ≠ none)
    (hchanged : (eventLog path).view next session ≠ (eventLog path).view content session) :
    (eventLog path).behind cursor next session := by
  obtain ⟨row, hmem, hnew, hsession⟩ := h.logged session hview hchanged
  obtain ⟨hpos, hlater⟩ := h.appended row hmem hnew
  refine mem_eventDelta.mpr ⟨row, hmem, ?_, hsession⟩
  rcases hcursor with hzero | ⟨old, hold, hrowid⟩
  · omega
  · have hless := hlater old hold
    omega

/-- Deleting old events keeps the log for the cursor of an event: when its event goes, the cursor
is not valid any more. -/
theorem LoggedWrite.keeps (h : LoggedWrite path content next)
    (hcontent : ((eventRows content).map EventRow.rowid).Nodup)
    (hnext : ((eventRows next).map EventRow.rowid).Nodup) (hid : cursor.eventId ≠ none)
    (hfresh : ∀ row ∈ eventRows next, some row.id = cursor.eventId → row ∈ eventRows content) :
    (eventLog path).Keeps cursor content next := by
  intro hvalid
  obtain ⟨hversion, hpos, row, hmem, hrow, hsame⟩ := (cursorIsValid_iff hnext hid).mp hvalid
  have hold : row ∈ eventRows content := hfresh row hmem hsame
  obtain ⟨bound, hbound⟩ := h.pruned
  have hless : bound < row.rowid := (hbound row hold).mp hmem
  refine ⟨?_, ?_, ?_⟩
  · exact (cursorIsValid_iff hcontent hid).mpr ⟨hversion, hpos, row, hold, hrow, hsame⟩
  · intro session hbehind
    obtain ⟨later, hlater, hrowid, hsession⟩ := mem_eventDelta.mp hbehind
    refine mem_eventDelta.mpr ⟨later, (hbound later hlater).mpr ?_, hrowid, hsession⟩
    omega
  · exact fun session => h.behind (.inr ⟨row, hold, hrow⟩)

/-- The cursor of an empty log is valid in every log: it needs all events. -/
theorem LoggedWrite.keeps_of_subset (h : LoggedWrite path content next)
    (hkept : eventRows content ⊆ eventRows next)
    (hpositive : ∀ row ∈ eventRows content, 0 < row.rowid) (hrowid : cursor.eventRowid = 0)
    (hid : cursor.eventId = none) : (eventLog path).Keeps cursor content next := by
  intro hvalid
  refine ⟨?_, ?_, ?_⟩
  · have hnewest := newestEvent_nonneg hpositive
    have hversion : cursor.parserVersion = databaseStateVersion := by
      by_contra hother
      simp [eventLog, cursorIsValid, hother] at hvalid
    simp [eventLog, cursorIsValid, hversion, hrowid, hid, hnewest]
  · intro session hbehind
    obtain ⟨row, hmem, hrest⟩ := mem_eventDelta.mp hbehind
    exact mem_eventDelta.mpr ⟨row, hkept hmem, hrest⟩
  · exact fun session => h.behind (.inl hrowid)

/-- A database of another history: it has no event of the cursor's id. -/
theorem keeps_of_replaced (hnext : ((eventRows next).map EventRow.rowid).Nodup)
    (hid : cursor.eventId ≠ none)
    (hforeign : ∀ row ∈ eventRows next, some row.id ≠ cursor.eventId) :
    (eventLog path).Keeps cursor content next := by
  intro hvalid
  obtain ⟨-, -, row, hmem, -, hsame⟩ := (cursorIsValid_iff hnext hid).mp hvalid
  exact absurd hsame (hforeign row hmem)

theorem mem_of_newestEvent {row : EventRow} (h : newestEvent events = some row) :
    row ∈ events := by
  induction events with
  | nil => cases h
  | cons first rest ih =>
      rw [newestEvent] at h
      split at h
      next other hother =>
        split at h
        · exact Option.some.inj h ▸ List.mem_cons_self
        · exact List.mem_cons_of_mem first (ih (hother.trans h))
      next => exact Option.some.inj h ▸ List.mem_cons_self

section Cursors

variable {contents : List Database} {cursors : List OpencodeDatabaseState}

/-- A cursor with an id is one of an event that was there. -/
theorem ScannedFrom.not_new (h : ScannedFrom contents cursor) {row : EventRow}
    (hsame : some row.id = cursor.eventId) : ¬ NewEvent contents row := by
  obtain ⟨content, hmem, -, hid⟩ := h
  obtain ⟨old, hold, hrow⟩ := Option.map_eq_some_iff.mp (hid.symm.trans hsame.symm)
  exact fun hnew => hnew content hmem old (mem_of_newestEvent hold) hrow

theorem ScannedFrom.rowid_of_none (h : ScannedFrom contents cursor) (hid : cursor.eventId = none) :
    cursor.eventRowid = 0 := by
  obtain ⟨content, -, hrowid, hsame⟩ := h
  have hnone : newestEvent (eventRows content) = none :=
    Option.map_eq_none_iff.mp (hsame.symm.trans hid)
  rw [hrowid, scannedCursor, hnone]
  rfl

/-- A write keeps the log for a cursor in use that was taken of this database. -/
theorem WriteAllowed.keeps (h : WriteAllowed path cursors contents content next)
    (htable : EventTable content) (hcursor : cursor ∈ cursors)
    (hscanned : ScannedFrom contents cursor) : (eventLog path).Keeps cursor content next := by
  by_cases hid : cursor.eventId = none
  · obtain ⟨hlogged, hkept⟩ := h.kept cursor hcursor hid
    exact hlogged.keeps_of_subset hkept htable.positive (hscanned.rowid_of_none hid) hid
  · cases h.write with
    | logged hlogged hfresh =>
        apply hlogged.keeps htable.unique h.table.unique hid
        intro row hmem hsame
        by_contra hnew
        exact hscanned.not_new hsame (hfresh row hmem hnew)
    | replaced hforeign =>
        apply keeps_of_replaced h.table.unique hid
        exact fun row hmem hsame => hscanned.not_new hsame (hforeign row hmem)

/-- Where all cursors in use are of events, every write of the database is allowed. -/
theorem writeAllowed_of_event (hlayout : next.hasV2Schema = false) (htable : EventTable next)
    (hwrite : DatabaseWrite path contents content next)
    (hevents : ∀ cursor ∈ cursors, cursor.eventId ≠ none) :
    WriteAllowed path cursors contents content next where
  layout := hlayout
  table := htable
  write := hwrite
  kept cursor hcursor hid := absurd hid (hevents cursor hcursor)

theorem ScannedFrom.mono {more : List Database} (h : ScannedFrom contents cursor) :
    ScannedFrom (contents ++ more) cursor := by
  obtain ⟨content, hmem, hsame⟩ := h
  exact ⟨content, List.mem_append_left more hmem, hsame⟩

/-- So do writes one after the other. -/
theorem WritesAllowed.keeps {writes : List Database}
    (h : WritesAllowed path cursors contents content writes) (htable : EventTable content)
    (hcursor : cursor ∈ cursors) (hscanned : ScannedFrom contents cursor) :
    List.IsChain ((eventLog path).Keeps cursor) (content :: writes) := by
  induction writes generalizing contents content with
  | nil => exact List.isChain_singleton content
  | cons next rest ih =>
      obtain ⟨hnext, hrest⟩ := h
      apply List.isChain_cons_cons.mpr
      constructor
      · exact hnext.keeps htable hcursor hscanned
      · exact ih hrest hnext.table hscanned.mono

/-- The last content is of the first layout, with a table of events. -/
theorem WritesAllowed.last {writes : List Database}
    (h : WritesAllowed path cursors contents content writes) (htable : EventTable content)
    (hlayout : content.hasV2Schema = false) :
    EventTable (writes.getLastD content) ∧ (writes.getLastD content).hasV2Schema = false := by
  induction writes generalizing contents content with
  | nil => exact ⟨htable, hlayout⟩
  | cons next rest ih =>
      rw [List.getLastD_cons]
      exact ih h.2 h.1.table h.1.layout

end Cursors

end Writes

end Memex.Ingest
