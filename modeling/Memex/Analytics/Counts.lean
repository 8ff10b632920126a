import Mathlib.Data.Multiset.Filter
import Mathlib.Data.Multiset.AddSub
import Memex.Analytics.Batching

/-! # What the session catalogue counts

A row holds the number and the first and last time of the records of its session. The counts of
a batch are merged into those of the records before it. -/

namespace Memex.Analytics

variable {lookups : SessionLookups} {key : SessionKey} {records : List Record}
  {entry : SessionAccumulator}

/-- What the accumulator counts. -/
structure Tallies (records : List Record) (entry : SessionAccumulator) : Prop where
  number : entry.messageCount = min records.length (2 ^ 64 - 1)
  first : (∃ record ∈ records, record.ts = entry.startedAt) ∧
    ∀ record ∈ records, entry.startedAt ≤ record.ts
  last : (∃ record ∈ records, record.ts = entry.lastAt) ∧
    ∀ record ∈ records, record.ts ≤ entry.lastAt

theorem tallies_fresh (record : Record) :
    Tallies [record] ((SessionAccumulator.fresh record).add record) := by
  constructor
  · rfl
  · simp [SessionAccumulator.add, SessionAccumulator.fresh]
  · simp [SessionAccumulator.add, SessionAccumulator.fresh]

theorem Tallies.add (h : Tallies records entry) (record : Record) :
    Tallies (records ++ [record]) (entry.add record) := by
  obtain ⟨⟨earliest, hearliest, hstarted⟩, hfirst⟩ := h.first
  obtain ⟨⟨latest, hlatest, hended⟩, hlast⟩ := h.last
  constructor
  · simp only [SessionAccumulator.add, h.number, List.length_append, List.length_singleton]
    omega
  · have hmin : (entry.add record).startedAt = min entry.startedAt record.ts := rfl
    rw [hmin]
    constructor
    · rcases Nat.le_total entry.startedAt record.ts with hle | hle
      · exact ⟨earliest, List.mem_append_left _ hearliest, by omega⟩
      · exact ⟨record, List.mem_append_right _ List.mem_cons_self, by omega⟩
    · intro other hother
      rcases List.mem_append.mp hother with hmem | hmem
      · have := hfirst other hmem
        omega
      · obtain rfl := List.mem_singleton.mp hmem
        omega
  · have hmax : (entry.add record).lastAt = max entry.lastAt record.ts := by
      simp only [SessionAccumulator.add]
      split
      · next hle =>
          rw [decide_eq_true_eq] at hle
          omega
      · next hlt =>
          rw [decide_eq_true_eq] at hlt
          omega
    rw [hmax]
    constructor
    · rcases Nat.le_total entry.lastAt record.ts with hle | hle
      · exact ⟨record, List.mem_append_right _ List.mem_cons_self, by omega⟩
      · exact ⟨latest, List.mem_append_left _ hlatest, by omega⟩
    · intro other hother
      rcases List.mem_append.mp hother with hmem | hmem
      · have := hlast other hmem
        omega
      · obtain rfl := List.mem_singleton.mp hmem
        omega

theorem accumulate_tallies (hrecords : records ≠ []) :
    ∃ entry, accumulate none records = some entry ∧ Tallies records entry := by
  induction records using List.reverseRecOn with
  | nil => exact absurd rfl hrecords
  | append_singleton records record ih =>
      rw [accumulate_concat]
      refine ⟨_, rfl, ?_⟩
      obtain rfl | hbefore := eq_or_ne records []
      · exact tallies_fresh record
      · obtain ⟨entry, hentry, htallies⟩ := ih hbefore
        rw [hentry]
        exact htallies.add record

/-- A row has the number, the least and the greatest timestamp of some records. -/
structure Counts (records : Multiset Record) (row : CatalogueRow) : Prop where
  number : row.messageCount = records.card
  first : (∃ record ∈ records, (record.ts : Int) = row.startedAt) ∧
    ∀ record ∈ records, row.startedAt ≤ record.ts
  last : (∃ record ∈ records, (record.ts : Int) = row.lastAt) ∧
    ∀ record ∈ records, (record.ts : Int) ≤ row.lastAt

theorem asI64_of_lt {value : Nat} (h : value < 2 ^ 63) : asI64 value = value := by
  rw [asI64, Nat.mod_eq_of_lt (by omega), if_pos h]

/-- The row prepared for a session counts its records. -/
theorem Tallies.counts (h : Tallies records entry) (hlength : records.length < 2 ^ 63)
    (hts : ∀ record ∈ records, record.ts < 2 ^ 63) :
    Counts (records : Multiset Record) (preparedRow lookups key entry) := by
  obtain ⟨⟨earliest, hearliest, hstarted⟩, hfirst⟩ := h.first
  obtain ⟨⟨latest, hlatest, hended⟩, hlast⟩ := h.last
  have hcount : entry.messageCount = records.length := by
    have hnumber := h.number
    omega
  have hstartedAt : (preparedRow lookups key entry).startedAt = (entry.startedAt : Int) :=
    asI64_of_lt (hstarted ▸ hts earliest hearliest)
  have hlastAt : (preparedRow lookups key entry).lastAt = (entry.lastAt : Int) :=
    asI64_of_lt (hended ▸ hts latest hlatest)
  constructor
  · calc
      (preparedRow lookups key entry).messageCount = asI64 records.length := by
        rw [preparedRow, hcount]
      _ = records.length := asI64_of_lt hlength
      _ = (records : Multiset Record).card := by rw [Multiset.coe_card]
  · rw [hstartedAt]
    refine ⟨⟨earliest, Multiset.mem_coe.mpr hearliest, by rw [hstarted]⟩, ?_⟩
    intro record hrecord
    exact Int.ofNat_le.mpr (hfirst record (Multiset.mem_coe.mp hrecord))
  · rw [hlastAt]
    refine ⟨⟨latest, Multiset.mem_coe.mpr hlatest, by rw [hended]⟩, ?_⟩
    intro record hrecord
    exact Int.ofNat_le.mpr (hlast record (Multiset.mem_coe.mp hrecord))

/-- Merging a row adds its records. -/
theorem Counts.merge {records others : Multiset Record} {stored row : CatalogueRow}
    (h : Counts records stored) (h' : Counts others row) :
    Counts (records + others) (stored.merge row) := by
  obtain ⟨⟨earliest, hearliest, hstarted⟩, hfirst⟩ := h.first
  obtain ⟨⟨other, hother, hstarted'⟩, hfirst'⟩ := h'.first
  obtain ⟨⟨latest, hlatest, hended⟩, hlast⟩ := h.last
  obtain ⟨⟨later, hlater, hended'⟩, hlast'⟩ := h'.last
  constructor
  · simp only [CatalogueRow.merge, h.number, h'.number, Multiset.card_add]
    omega
  · simp only [CatalogueRow.merge]
    split
    · next hle =>
        refine ⟨⟨earliest, Multiset.mem_add.mpr (.inl hearliest), hstarted⟩, ?_⟩
        intro record hrecord
        rcases Multiset.mem_add.mp hrecord with hmem | hmem
        · exact hfirst record hmem
        · have := hfirst' record hmem
          omega
    · next hlt =>
        refine ⟨⟨other, Multiset.mem_add.mpr (.inr hother), hstarted'⟩, ?_⟩
        intro record hrecord
        rcases Multiset.mem_add.mp hrecord with hmem | hmem
        · have := hfirst record hmem
          omega
        · exact hfirst' record hmem
  · simp only [CatalogueRow.merge]
    split
    · next hle =>
        refine ⟨⟨later, Multiset.mem_add.mpr (.inr hlater), hended'⟩, ?_⟩
        intro record hrecord
        rcases Multiset.mem_add.mp hrecord with hmem | hmem
        · have := hlast record hmem
          omega
        · exact hlast' record hmem
    · next hlt =>
        refine ⟨⟨latest, Multiset.mem_add.mpr (.inl hlatest), hended⟩, ?_⟩
        intro record hrecord
        rcases Multiset.mem_add.mp hrecord with hmem | hmem
        · exact hlast record hmem
        · have := hlast' record hmem
          omega

/-! ## Agreement with an index -/

/-- The indexed records of a session. -/
def sessionRecords (key : SessionKey) (lexical : Multiset Record) : Multiset Record :=
  lexical.filter fun record => sessionKey record = key

/-- The catalogue has a row for exactly the sessions with indexed records, and the row counts
them. -/
structure CatalogueAgrees (catalogue : Catalogue) (lexical : Multiset Record) : Prop where
  keys : ∀ key, key ∈ catalogue ↔ ∃ record ∈ lexical, sessionKey record = key
  rows : ∀ key row, catalogue.lookup key = some row → Counts (sessionRecords key lexical) row

theorem sessionRecords_eq_zero {lexical : Multiset Record} :
    sessionRecords key lexical = 0 ↔ ∀ record ∈ lexical, sessionKey record ≠ key :=
  Multiset.filter_eq_nil

/-- Agreement, session by session. -/
theorem catalogueAgrees_iff {catalogue : Catalogue} {lexical : Multiset Record} :
    CatalogueAgrees catalogue lexical ↔ ∀ key,
      (catalogue.lookup key = none ∧ sessionRecords key lexical = 0) ∨
        ∃ row, catalogue.lookup key = some row ∧ sessionRecords key lexical ≠ 0 ∧
          Counts (sessionRecords key lexical) row := by
  have hempty (key : SessionKey) : sessionRecords key lexical ≠ 0 ↔
      ∃ record ∈ lexical, sessionKey record = key := by
    rw [Ne, sessionRecords_eq_zero]
    simp
  constructor
  · intro h key
    cases hlookup : catalogue.lookup key with
    | none =>
        left
        refine ⟨rfl, not_not.mp fun hrecords => ?_⟩
        exact Finmap.lookup_eq_none.mp hlookup ((h.keys key).mpr ((hempty key).mp hrecords))
    | some row =>
        right
        refine ⟨row, rfl, (hempty key).mpr ((h.keys key).mp ?_), h.rows key row hlookup⟩
        exact Finmap.mem_of_lookup_eq_some hlookup
  · intro h
    constructor
    · intro key
      rw [← hempty]
      rcases h key with ⟨hlookup, hrecords⟩ | ⟨row, hlookup, hrecords, -⟩
      · exact iff_of_false (Finmap.lookup_eq_none.mp hlookup) (not_not.mpr hrecords)
      · exact iff_of_true (Finmap.mem_of_lookup_eq_some hlookup) hrecords
    · intro key row hrow
      rcases h key with ⟨hlookup, -⟩ | ⟨other, hlookup, -, hcounts⟩
      · rw [hlookup] at hrow
        cases hrow
      · rw [hlookup] at hrow
        exact Option.some.inj hrow ▸ hcounts

theorem catalogueAgrees_empty : CatalogueAgrees ∅ 0 :=
  catalogueAgrees_iff.mpr fun _ => .inl ⟨Finmap.lookup_empty _, rfl⟩

/-- The row of a session after a batch was merged into the catalogue. -/
theorem lookup_mergeRows (catalogue : Catalogue) (records : List Record) :
    ((prepare lookups (records.foldl Sessions.record ∅)).foldl Catalogue.upsert catalogue).lookup
        key =
      match accumulate none (ownRecords key records) with
      | some session => some (mergedRow (catalogue.lookup key) (preparedRow lookups key session))
      | none => catalogue.lookup key :=
  lookup_refresh catalogue records

/-- Merging a batch whose numbers fit keeps the agreement. -/
theorem CatalogueAgrees.mergeRows {catalogue : Catalogue} {lexical : Multiset Record}
    (h : CatalogueAgrees catalogue lexical) (lookups : SessionLookups)
    (hlength : records.length < 2 ^ 63) (hts : ∀ record ∈ records, record.ts < 2 ^ 63) :
    CatalogueAgrees
      ((prepare lookups (records.foldl Sessions.record ∅)).foldl Catalogue.upsert catalogue)
      (lexical + (records : Multiset Record)) := by
  rw [catalogueAgrees_iff] at h ⊢
  intro key
  have hadded : sessionRecords key (lexical + (records : Multiset Record)) =
      sessionRecords key lexical + (ownRecords key records : Multiset Record) := by
    rw [sessionRecords, Multiset.filter_add, Multiset.filter_coe]
    rfl
  rw [lookup_mergeRows, hadded]
  obtain hnone | hsome := eq_or_ne (ownRecords key records) []
  · rw [hnone]
    have hzero : sessionRecords key lexical + (([] : List Record) : Multiset Record) =
        sessionRecords key lexical := by simp
    rw [hzero]
    exact h key
  · obtain ⟨entry, hentry, htallies⟩ := accumulate_tallies hsome
    have hcounts : Counts (ownRecords key records : Multiset Record)
        (preparedRow lookups key entry) := by
      refine htallies.counts (lt_of_le_of_lt (List.length_filter_le _ _) hlength) ?_
      exact fun record hrecord => hts record (List.mem_of_mem_filter hrecord)
    rw [hentry]
    refine .inr ⟨_, rfl, ?_, ?_⟩
    · intro hzero
      have hcard := congrArg Multiset.card hzero
      rw [Multiset.card_add, Multiset.coe_card, Multiset.card_zero] at hcard
      exact hsome (List.length_eq_zero_iff.mp (by omega))
    · rcases h key with ⟨hlookup, hrecords⟩ | ⟨row, hlookup, -, hrow⟩
      · rw [hlookup, hrecords, zero_add]
        exact hcounts
      · rw [hlookup]
        exact hrow.merge hcounts

theorem lookup_deleteWhere (catalogue : Catalogue) (condition : SessionKey → Bool) :
    (catalogue.deleteWhere condition).lookup key =
      if condition key = true then none else catalogue.lookup key := by
  rw [Catalogue.deleteWhere, Overlay.lookup_eraseAll]
  by_cases hcondition : condition key = true
  · rw [if_pos hcondition]
    by_cases hmem : key ∈ catalogue.keys
    · rw [if_pos (Finset.mem_filter.mpr ⟨hmem, hcondition⟩)]
    · rw [if_neg fun hfilter => hmem (Finset.mem_filter.mp hfilter).1]
      exact Finmap.lookup_eq_none.mpr fun hin => hmem (Finmap.mem_keys.mpr hin)
  · rw [if_neg hcondition]
    refine if_neg fun hfilter => ?_
    exact hcondition (Finset.mem_filter.mp hfilter).2

/-- The deletions of one commit: the rows of some paths and of some OpenCode scopes. -/
def Catalogue.delete (catalogue : Catalogue) (paths : String → Bool)
    (scopes : String → String → Bool) : Catalogue :=
  catalogue.deleteWhere fun key =>
    (key.source = .opencode && scopes key.sourcePath key.sessionId) || paths key.sourcePath

/-- Deleting the rows of some sessions leaves the agreement with the others. -/
theorem CatalogueAgrees.deleteWhere {catalogue : Catalogue} {lexical : Multiset Record}
    (h : CatalogueAgrees catalogue lexical) (condition : SessionKey → Bool) :
    CatalogueAgrees (catalogue.deleteWhere condition)
      (lexical.filter fun record => ¬ condition (sessionKey record) = true) := by
  rw [catalogueAgrees_iff] at h ⊢
  intro key
  have hrecords : sessionRecords key
      (lexical.filter fun record => ¬ condition (sessionKey record) = true) =
        if condition key = true then 0 else sessionRecords key lexical := by
    rw [sessionRecords, Multiset.filter_filter]
    split
    · next hcondition =>
        refine Multiset.filter_eq_nil.mpr ?_
        rintro record - ⟨rfl, hkept⟩
        exact hkept hcondition
    · next hcondition =>
        refine Multiset.filter_congr fun record _ => ?_
        exact and_iff_left_of_imp fun hkey => hkey ▸ hcondition
  rw [lookup_deleteWhere, hrecords]
  by_cases hcondition : condition key = true
  · rw [if_pos hcondition, if_pos hcondition]
    exact .inl ⟨rfl, rfl⟩
  · rw [if_neg hcondition, if_neg hcondition]
    exact h key

/-- A backfill from an index agrees with it. -/
theorem backfillFromIndex_agrees (lookups : SessionLookups) (hlength : records.length < 2 ^ 63)
    (hts : ∀ record ∈ records, record.ts < 2 ^ 63) :
    CatalogueAgrees (backfillFromIndex lookups records) (records : Multiset Record) := by
  have h := catalogueAgrees_empty.mergeRows lookups hlength hts
  rwa [zero_add] at h

end Memex.Analytics
