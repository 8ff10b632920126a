import Mathlib.Data.List.Induction
import Memex.Analytics.Catalogue

/-! # Batching of the session catalogue

The rows that successive refreshes merge are compared with the row that a backfill makes
of all records at once. -/

namespace Memex.Analytics

variable {lookups : SessionLookups} {key : SessionKey} {records : List Record}
  {entry : SessionAccumulator}

/-! ## What the accumulator keeps -/

/-- The records of a session. -/
def ownRecords (key : SessionKey) (records : List Record) : List Record :=
  records.filter fun record => sessionKey record = key

/-- The accumulator of a session whose records are added one after another. -/
def accumulate (start : Option SessionAccumulator) (records : List Record) :
    Option SessionAccumulator :=
  records.foldl (fun entry record =>
    some ((entry.getD (SessionAccumulator.fresh record)).add record)) start

theorem accumulate_concat (start : Option SessionAccumulator) (record : Record) :
    accumulate start (records ++ [record]) =
      some (((accumulate start records).getD (SessionAccumulator.fresh record)).add record) := by
  rw [accumulate, List.foldl_append]
  rfl

/-- The records that are the newest so far and name a project, after those before. -/
def namingRecords (before : List Record) : List Record → List Record
  | [] => []
  | record :: rest =>
      let later := namingRecords (before ++ [record]) rest
      if record.project ≠ "" ∧ ∀ earlier ∈ before, earlier.ts ≤ record.ts then record :: later
      else later

theorem namingRecords_concat (before : List Record) (record : Record) :
    namingRecords before (records ++ [record]) = namingRecords before records ++
      if record.project ≠ "" ∧ ∀ earlier ∈ before ++ records, earlier.ts ≤ record.ts then
        [record]
      else [] := by
  induction records generalizing before with
  | nil => simp [namingRecords]
  | cons first rest ih =>
      rw [List.cons_append, namingRecords, namingRecords, ih, List.append_assoc,
        List.singleton_append]
      split
      · rw [List.cons_append]
      · rfl

/-- The record that labels a session: of those that can, the one that stands first. -/
def openingRecord (records : List Record) : Option Record :=
  records.foldl (fun opening record =>
    if opening.all (fun other => (recordOrder record).before (recordOrder other)) &&
      labelsSession record then some record
    else opening) none

theorem openingRecord_concat (record : Record) :
    openingRecord (records ++ [record]) =
      if (openingRecord records).all
          (fun other => (recordOrder record).before (recordOrder other)) &&
        labelsSession record then some record
      else openingRecord records := by
  rw [openingRecord, List.foldl_append]
  rfl

/-- The kinds that records claim. -/
def kindClaims (records : List Record) : List String :=
  records.filterMap fun record => record.links.conversationKind.filter (· ≠ "")

/-- What the accumulator holds after some records. -/
structure Accumulates (records : List Record) (entry : SessionAccumulator) : Prop where
  newest : ∀ record, entry.lastAt ≤ record ↔ ∀ earlier ∈ records, earlier.ts ≤ record
  project : entry.project =
    ((namingRecords [] records).getLast?.map Record.project).getD ""
  text : entry.firstUserText = (openingRecord records).map Record.text
  order : entry.firstUserOrder = (openingRecord records).map recordOrder
  kind : entry.conversationKind =
    if "main" ∈ kindClaims records then some "main" else (kindClaims records).head?

theorem accumulates_fresh (record : Record) :
    Accumulates [record] ((SessionAccumulator.fresh record).add record) := by
  constructor
  · intro limit
    simp [SessionAccumulator.add, SessionAccumulator.fresh]
  · by_cases hproject : record.project = "" <;>
      simp [SessionAccumulator.add, SessionAccumulator.fresh, namingRecords, hproject]
  · by_cases hlabels : labelsSession record = true <;>
      simp [SessionAccumulator.add, SessionAccumulator.fresh, openingRecord, hlabels]
  · by_cases hlabels : labelsSession record = true <;>
      simp [SessionAccumulator.add, SessionAccumulator.fresh, openingRecord, hlabels]
  · cases hkind : record.links.conversationKind with
    | none => simp [SessionAccumulator.add, SessionAccumulator.fresh, kindClaims, hkind]
    | some kind =>
        by_cases hempty : kind = ""
        · simp [SessionAccumulator.add, SessionAccumulator.fresh, kindClaims, hkind, hempty]
        · by_cases hmain : "main" = kind
          · simp [SessionAccumulator.add, SessionAccumulator.fresh, kindClaims, hkind, ← hmain]
          · simp [SessionAccumulator.add, SessionAccumulator.fresh, kindClaims, hkind, hempty,
              hmain, Ne.symm hmain, Option.filter]

theorem kindClaims_append (records others : List Record) :
    kindClaims (records ++ others) = kindClaims records ++ kindClaims others :=
  List.filterMap_append

/-- A record that claims a kind takes the place of no claim, or of any claim if it is main. -/
theorem Accumulates.kind_add (h : Accumulates records entry) (record : Record) :
    (entry.add record).conversationKind =
      if "main" ∈ kindClaims (records ++ [record]) then some "main"
      else (kindClaims (records ++ [record])).head? := by
  have hentry := h.kind
  rw [kindClaims_append]
  cases hkind : record.links.conversationKind with
  | none => simpa [SessionAccumulator.add, kindClaims, hkind] using hentry
  | some kind =>
      by_cases hempty : kind = ""
      · simpa [SessionAccumulator.add, kindClaims, hkind, hempty] using hentry
      · have hclaims : kindClaims [record] = [kind] := by
          simp [kindClaims, hkind, Option.filter, hempty]
        rw [hclaims]
        by_cases hmain : kind = "main"
        · simp [SessionAccumulator.add, hkind, hmain]
        · by_cases hclaimed : "main" ∈ kindClaims records
          · rw [if_pos hclaimed] at hentry
            simp [SessionAccumulator.add, hkind, hentry, hclaimed, hmain]
          · rw [if_neg hclaimed] at hentry
            cases hclaimsOf : kindClaims records with
            | nil =>
                rw [hclaimsOf] at hentry
                simp [SessionAccumulator.add, hkind, hempty, hentry, Ne.symm hmain]
            | cons first rest =>
                rw [hclaimsOf] at hentry hclaimed
                have hfresh : "main" ∉ first :: rest ++ [kind] := by
                  rw [List.mem_append, List.mem_singleton]
                  exact not_or.mpr ⟨hclaimed, Ne.symm hmain⟩
                rw [if_neg hfresh]
                simp [SessionAccumulator.add, hkind, hentry, hmain]

/-- One more record. -/
theorem Accumulates.add (h : Accumulates records entry) (record : Record) :
    Accumulates (records ++ [record]) (entry.add record) := by
  have hnewest : (entry.lastAt ≤ record.ts) ↔ ∀ earlier ∈ records, earlier.ts ≤ record.ts :=
    h.newest record.ts
  constructor
  · intro limit
    simp only [SessionAccumulator.add, List.forall_mem_append, List.forall_mem_singleton,
      ← h.newest limit]
    split
    · next hle =>
        rw [decide_eq_true_eq] at hle
        omega
    · next hlt =>
        rw [decide_eq_true_eq] at hlt
        omega
  · rw [namingRecords_concat, List.nil_append]
    by_cases hnames : record.project ≠ "" ∧ ∀ earlier ∈ records, earlier.ts ≤ record.ts
    · rw [if_pos hnames, List.getLast?_concat]
      simp [SessionAccumulator.add, hnewest.mpr hnames.2, hnames.1]
    · rw [if_neg hnames, List.append_nil, ← h.project]
      have hkept : ¬ (entry.lastAt ≤ record.ts ∧ record.project ≠ "") :=
        fun hadd => hnames ⟨hadd.2, hnewest.mp hadd.1⟩
      simp only [SessionAccumulator.add]
      rw [if_neg]
      simpa using hkept
  · rw [openingRecord_concat]
    simp only [SessionAccumulator.add, h.order, h.text, Option.all_map]
    split
    · rfl
    · rfl
  · rw [openingRecord_concat]
    simp only [SessionAccumulator.add, h.order, Option.all_map]
    split
    · rfl
    · rfl
  · exact h.kind_add record

/-- The records of a session leave an accumulator that holds them. -/
theorem accumulate_spec (hrecords : records ≠ []) :
    ∃ entry, accumulate none records = some entry ∧ Accumulates records entry := by
  induction records using List.reverseRecOn with
  | nil => exact absurd rfl hrecords
  | append_singleton records record ih =>
      rw [accumulate_concat]
      refine ⟨_, rfl, ?_⟩
      obtain rfl | hbefore := eq_or_ne records []
      · exact accumulates_fresh record
      · obtain ⟨entry, hentry, haccumulates⟩ := ih hbefore
        rw [hentry]
        exact haccumulates.add record

/-! ## What a refresh stores -/

theorem lookup_record (sessions : Sessions) (record : Record) :
    (sessions.record record).lookup key =
      if sessionKey record = key then
        some (((sessions.lookup key).getD (SessionAccumulator.fresh record)).add record)
      else sessions.lookup key := by
  rw [Sessions.record]
  by_cases hkey : sessionKey record = key
  · subst hkey
    rw [if_pos rfl, AList.lookup_insert]
  · rw [if_neg hkey, AList.lookup_insert_ne (Ne.symm hkey)]

/-- A session's accumulator comes from its own records. -/
theorem lookup_foldl_record (sessions : Sessions) (records : List Record) :
    (records.foldl Sessions.record sessions).lookup key =
      accumulate (sessions.lookup key) (ownRecords key records) := by
  induction records generalizing sessions with
  | nil => rfl
  | cons record rest ih =>
      rw [List.foldl_cons, ih, lookup_record]
      by_cases hkey : sessionKey record = key
      · rw [if_pos hkey, ownRecords, ownRecords, List.filter_cons_of_pos (by simpa using hkey)]
        rfl
      · rw [if_neg hkey, ownRecords, ownRecords, List.filter_cons_of_neg (by simpa using hkey)]

/-- The row a stored one becomes. -/
def mergedRow (stored : Option CatalogueRow) (row : CatalogueRow) : CatalogueRow :=
  match stored with
  | some stored => stored.merge row
  | none => row

theorem lookup_upsert (catalogue : Catalogue) (row : SessionKey × CatalogueRow) :
    (catalogue.upsert row).lookup key =
      if row.1 = key then some (mergedRow (catalogue.lookup key) row.2)
      else catalogue.lookup key := by
  rw [Catalogue.upsert]
  by_cases hkey : row.1 = key
  · subst hkey
    rw [if_pos rfl, Finmap.lookup_insert]
    rfl
  · rw [if_neg hkey, Finmap.lookup_insert_of_ne _ (Ne.symm hkey)]

/-- Every session's row is merged once. -/
theorem lookup_foldl_upsert (lookups : SessionLookups)
    (entries : List (Sigma fun _ : SessionKey => SessionAccumulator)) (hkeys : entries.NodupKeys)
    (catalogue : Catalogue) :
    ((entries.map fun entry => (entry.1, preparedRow lookups entry.1 entry.2)).foldl
        Catalogue.upsert catalogue).lookup key =
      match entries.dlookup key with
      | some session => some (mergedRow (catalogue.lookup key) (preparedRow lookups key session))
      | none => catalogue.lookup key := by
  induction entries generalizing catalogue with
  | nil => rfl
  | cons entry rest ih =>
      obtain ⟨other, session⟩ := entry
      rw [List.nodupKeys_cons] at hkeys
      rw [List.map_cons, List.foldl_cons, ih hkeys.2, lookup_upsert]
      by_cases hkey : other = key
      · subst hkey
        have habsent : rest.dlookup other = none := List.dlookup_eq_none.mpr hkeys.1
        rw [List.dlookup_cons_eq, habsent, if_pos rfl]
      · rw [List.dlookup_cons_ne _ _ (Ne.symm hkey), if_neg hkey]

theorem lookup_refresh (catalogue : Catalogue) (records : List Record) :
    (catalogue.refresh lookups records).lookup key =
      match accumulate none (ownRecords key records) with
      | some session => some (mergedRow (catalogue.lookup key) (preparedRow lookups key session))
      | none => catalogue.lookup key := by
  rw [Catalogue.refresh, Catalogue.commit, prepare, List.foldl_nil, List.foldl_nil,
    lookup_foldl_upsert lookups _ (AList.nodupKeys _)]
  have hsession : (records.foldl Sessions.record ∅).lookup key =
      accumulate ((∅ : Sessions).lookup key) (ownRecords key records) :=
    lookup_foldl_record ∅ records
  rw [AList.lookup_empty] at hsession
  rw [← hsession]
  rfl

/-! ## Successive refreshes -/

/-- Refreshes one after another, from an empty table. -/
def refreshAll (lookups : SessionLookups) (rounds : List (List Record)) : Catalogue :=
  rounds.foldl (Catalogue.refresh lookups) ∅

/-- The records of a session in each round that has some. -/
def batchesOf (key : SessionKey) (rounds : List (List Record)) : List (List Record) :=
  (rounds.map (ownRecords key)).filter (· ≠ [])

/-- The row that one round prepares. -/
def batchRow (lookups : SessionLookups) (key : SessionKey) (batch : List Record) :
    Option CatalogueRow :=
  (accumulate none batch).map (preparedRow lookups key)

theorem lookup_refreshAll (lookups : SessionLookups) (rounds : List (List Record)) :
    (refreshAll lookups rounds).lookup key =
      (batchesOf key rounds).foldl (fun stored batch =>
        (batchRow lookups key batch).elim stored fun row => some (mergedRow stored row)) none := by
  induction rounds using List.reverseRecOn with
  | nil => rfl
  | append_singleton rounds round ih =>
      rw [refreshAll] at ih
      rw [refreshAll, List.foldl_append, List.foldl_cons, List.foldl_nil, lookup_refresh, ih,
        batchesOf, batchesOf, List.map_append, List.filter_append, List.foldl_append]
      obtain hnone | hsome := eq_or_ne (ownRecords key round) []
      · simp [hnone, accumulate]
      · obtain ⟨entry, hentry, -⟩ := accumulate_spec hsome
        simp [hsome, hentry, batchRow]

theorem flatten_batchesOf (key : SessionKey) (rounds : List (List Record)) :
    (batchesOf key rounds).flatten = ownRecords key rounds.flatten := by
  induction rounds with
  | nil => rfl
  | cons round rest ih =>
      have hown : ownRecords key (round ++ rest.flatten) =
          ownRecords key round ++ ownRecords key rest.flatten := List.filter_append ..
      rw [batchesOf] at ih
      rw [batchesOf, List.map_cons, List.flatten_cons, hown]
      obtain hnone | hsome := eq_or_ne (ownRecords key round) []
      · rw [List.filter_cons_of_neg (by simpa using hnone), ih, hnone, List.nil_append]
      · rw [List.filter_cons_of_pos (by simpa using hsome), List.flatten_cons, ih]

/-- What one round makes of the records of a session. -/
structure RowOf (lookups : SessionLookups) (key : SessionKey) (batch : List Record)
    (row : CatalogueRow) : Prop where
  project : row.project = ((namingRecords [] batch).getLast?.map Record.project).getD ""
  label : row.label = extractSessionLabel lookups key ((openingRecord batch).map Record.text)
  kind : row.conversationKind = inferSessionKind lookups key
    (if "main" ∈ kindClaims batch then some "main" else (kindClaims batch).head?)
    ((openingRecord batch).map Record.text)

theorem batchRow_spec (lookups : SessionLookups) (key : SessionKey) {batch : List Record}
    (hbatch : batch ≠ []) :
    ∃ row, batchRow lookups key batch = some row ∧ RowOf lookups key batch row := by
  obtain ⟨entry, hentry, hspec⟩ := accumulate_spec hbatch
  refine ⟨preparedRow lookups key entry, by rw [batchRow, hentry]; rfl, ?_⟩
  constructor
  · exact hspec.project
  · rw [preparedRow, hspec.text]
  · rw [preparedRow, hspec.text, hspec.kind]

theorem inferSessionKind_isSome (initialKind firstUserText : Option String) :
    (inferSessionKind lookups key initialKind firstUserText).isSome = true := by
  rw [inferSessionKind]
  split
  · rfl
  · split
    · rfl
    · split <;> rfl

/-- Of the rounds, the last gives the project, the first that has one the label, and the first
the kind. -/
theorem mergedRows_spec (lookups : SessionLookups) (key : SessionKey)
    {batches : List (List Record)} (hbatches : batches ≠ [])
    (hfull : ∀ batch ∈ batches, batch ≠ []) :
    ∃ row, batches.foldl (fun stored batch =>
        (batchRow lookups key batch).elim stored fun row => some (mergedRow stored row)) none =
          some row ∧
      row.project =
        ((namingRecords [] (batches.getLastD [])).getLast?.map Record.project).getD "" ∧
      row.label = batches.findSome? (fun batch =>
        extractSessionLabel lookups key ((openingRecord batch).map Record.text)) ∧
      row.conversationKind = inferSessionKind lookups key
        (if "main" ∈ kindClaims (batches.headD []) then some "main"
          else (kindClaims (batches.headD [])).head?)
        ((openingRecord (batches.headD [])).map Record.text) := by
  induction batches using List.reverseRecOn with
  | nil => exact absurd rfl hbatches
  | append_singleton batches batch ih =>
      obtain ⟨row, hrow, hspec⟩ :=
        batchRow_spec lookups key (hfull batch (by simp))
      rw [List.foldl_append, List.foldl_cons, List.foldl_nil, hrow]
      obtain rfl | hbefore := eq_or_ne batches []
      · exact ⟨row, rfl, hspec.project, by simp [hspec.label], hspec.kind⟩
      · obtain ⟨stored, hstored, -, hlabel, hkind⟩ :=
          ih hbefore fun other hother => hfull other (List.mem_append_left _ hother)
        rw [hstored]
        refine ⟨stored.merge row, rfl, ?_, ?_, ?_⟩
        · rw [List.getLastD_concat]
          exact hspec.project
        · rw [List.findSome?_append, ← hlabel, CatalogueRow.merge, hspec.label]
          simp
        · have hhead : (batches ++ [batch]).headD [] = batches.headD [] := by
            cases batches with
            | nil => exact absurd rfl hbefore
            | cons first rest => rfl
          have hsome : stored.conversationKind.isSome = true := by
            rw [hkind]
            exact inferSessionKind_isSome _ _
          rw [hhead, ← hkind, CatalogueRow.merge]
          exact Option.or_of_isSome hsome

/-! ## When batching does not show -/

/-- The sources whose label is made of the first user text alone. -/
def labelledFromText (source : SourceKind) : Bool :=
  source ∉ [SourceKind.opencode, .grok, .jcode, .bob]

/-- The kind that records claim when none of them claims main. -/
def claimedKind (records : List Record) : Option String :=
  if "main" ∈ kindClaims records then none else (kindClaims records).head?

/-- The kind of a session without a claim, by its place and its opening text. -/
def inferredKind (lookups : SessionLookups) (key : SessionKey) (records : List Record) : String :=
  (placeKind lookups key).getD
    (if isDirective lookups key ((openingRecord records).map Record.text) then "subagent"
      else "main")

/-- The records of the first round tell the kind that all records tell. When both claim a
kind other than main they claim the same. -/
def KindAgrees (lookups : SessionLookups) (key : SessionKey) (first all : List Record) : Prop :=
  match claimedKind first, claimedKind all with
  | some _, some _ => True
  | some kind, none => kind = inferredKind lookups key all
  | none, some kind => inferredKind lookups key first = kind
  | none, none => inferredKind lookups key first = inferredKind lookups key all

/-- When the rounds of a session store what one round stores. -/
structure BatchesAgree (lookups : SessionLookups) (key : SessionKey)
    (batches : List (List Record)) : Prop where
  /-- The last record of the last round that is the newest in its round and names a project
  names the project that the last such record of all names. -/
  project : (namingRecords [] (batches.getLastD [])).getLast?.map Record.project =
    (namingRecords [] batches.flatten).getLast?.map Record.project
  /-- The text that opens the first round with such a text gives the label that the text
  opening the session gives. -/
  label : labelledFromText key.source = true →
    (batches.findSome? openingRecord).map (fun record => sanitizeLabel record.text) =
      (openingRecord batches.flatten).map fun record => sanitizeLabel record.text
  kind : KindAgrees lookups key (batches.headD []) batches.flatten

/-- The columns that do not depend on the number of records agree. -/
structure SameColumns (source : SourceKind) (left right : CatalogueRow) : Prop where
  project : left.project = right.project
  label : labelledFromText source = true → left.label = right.label
  kind : left.conversationKind = right.conversationKind

theorem project_ne_of_mem_namingRecords {before : List Record} {record : Record}
    (h : record ∈ namingRecords before records) : record.project ≠ "" := by
  induction records generalizing before with
  | nil => cases h
  | cons first rest ih =>
      rw [namingRecords] at h
      split at h
      · next hnames =>
          obtain rfl | hrest := List.mem_cons.mp h
          · exact hnames.1
          · exact ih hrest
      · exact ih h

/-- A named project is never the empty one. -/
theorem named_getD_eq_iff {left right : List Record} :
    ((namingRecords [] left).getLast?.map Record.project).getD "" =
        ((namingRecords [] right).getLast?.map Record.project).getD "" ↔
      (namingRecords [] left).getLast?.map Record.project =
        (namingRecords [] right).getLast?.map Record.project := by
  constructor
  · intro h
    cases hleft : (namingRecords [] left).getLast? with
    | none =>
        cases hright : (namingRecords [] right).getLast? with
        | none => rfl
        | some record =>
            rw [hleft, hright] at h
            exact absurd h.symm
              (project_ne_of_mem_namingRecords (List.mem_of_getLast? hright))
    | some record =>
        cases hright : (namingRecords [] right).getLast? with
        | none =>
            rw [hleft, hright] at h
            exact absurd h (project_ne_of_mem_namingRecords (List.mem_of_getLast? hleft))
        | some other =>
            rw [hleft, hright] at h
            exact congrArg some h
  · exact fun h => congrArg (Option.getD · "") h

theorem labels_openingRecord {record : Record} (h : openingRecord records = some record) :
    labelsSession record = true := by
  induction records using List.reverseRecOn with
  | nil => cases h
  | append_singleton records last ih =>
      rw [openingRecord_concat] at h
      split at h
      · next hopens =>
          obtain rfl := Option.some.inj h
          exact (Bool.and_eq_true_iff.mp hopens).2
      · exact ih h

/-- An opening text always gives a label. -/
theorem extractSessionLabel_opening (hsource : labelledFromText key.source = true)
    (records : List Record) :
    extractSessionLabel lookups key ((openingRecord records).map Record.text) =
      (openingRecord records).map fun record => sanitizeLabel record.text := by
  have hraw : extractSessionLabel lookups key ((openingRecord records).map Record.text) =
      ((openingRecord records).map Record.text).bind fun raw =>
        if sanitizeLabel raw = "" then none else some (sanitizeLabel raw) := by
    cases hkey : key.source <;> simp_all [labelledFromText, extractSessionLabel]
  rw [hraw]
  cases hopening : openingRecord records with
  | none => rfl
  | some record =>
      have hlabels := labels_openingRecord hopening
      simp only [labelsSession, Bool.and_eq_true, decide_eq_true_eq] at hlabels
      simp only [Option.map_some, Option.bind_some]
      rw [if_neg hlabels.2]

theorem findSome?_label (hsource : labelledFromText key.source = true)
    (batches : List (List Record)) :
    (batches.findSome? fun batch =>
        extractSessionLabel lookups key ((openingRecord batch).map Record.text)) =
      (batches.findSome? openingRecord).map fun record => sanitizeLabel record.text := by
  rw [List.map_findSome?]
  congr 1
  funext batch
  exact extractSessionLabel_opening hsource batch

theorem kind_ne_of_mem_kindClaims {kind : String} (h : kind ∈ kindClaims records) : kind ≠ "" := by
  obtain ⟨record, -, hkind⟩ := List.mem_filterMap.mp h
  exact of_decide_eq_true (Option.filter_eq_some_iff.mp hkind).2

theorem inferSessionKind_claims (records : List Record) :
    inferSessionKind lookups key
        (if "main" ∈ kindClaims records then some "main" else (kindClaims records).head?)
        ((openingRecord records).map Record.text) =
      some ((claimedKind records).getD (inferredKind lookups key records)) := by
  have hinferred : ∀ initialKind : Option String,
      (initialKind.filter fun kind => kind ≠ "main" && kind ≠ "") = none →
      inferSessionKind lookups key initialKind ((openingRecord records).map Record.text) =
        some (inferredKind lookups key records) := by
    intro initialKind hnone
    rw [inferSessionKind, hnone, inferredKind]
    cases placeKind lookups key with
    | some kind => rfl
    | none =>
        dsimp only [Option.getD_none]
        split <;> rfl
  rw [claimedKind]
  by_cases hmain : "main" ∈ kindClaims records
  · rw [if_pos hmain, if_pos hmain]
    exact hinferred (some "main") rfl
  · rw [if_neg hmain, if_neg hmain]
    cases hclaims : kindClaims records with
    | nil => exact hinferred none rfl
    | cons kind rest =>
        have hmem : kind ∈ kindClaims records := hclaims ▸ List.mem_cons_self
        have hother : kind ≠ "main" := fun heq => hmain (heq ▸ hmem)
        have hfull : kind ≠ "" := kind_ne_of_mem_kindClaims hmem
        simp [inferSessionKind, Option.filter, hother, hfull]

/-- What the records of the first round claim stays claimed unless a later one claims main. -/
theorem claimedKind_append {first rest : List Record} {kind other : String}
    (hfirst : claimedKind first = some kind) (hall : claimedKind (first ++ rest) = some other) :
    kind = other := by
  rw [claimedKind, Option.ite_none_left_eq_some] at hfirst hall
  obtain ⟨-, hfirst⟩ := hfirst
  obtain ⟨-, hall⟩ := hall
  rw [kindClaims_append, List.head?_append, hfirst] at hall
  exact Option.some.inj hall

theorem kindAgrees_iff {first rest : List Record} :
    KindAgrees lookups key first (first ++ rest) ↔
      (claimedKind first).getD (inferredKind lookups key first) =
        (claimedKind (first ++ rest)).getD (inferredKind lookups key (first ++ rest)) := by
  rw [KindAgrees]
  cases hfirst : claimedKind first with
  | none =>
      cases hall : claimedKind (first ++ rest) with
      | none => rfl
      | some other => rfl
  | some kind =>
      cases hall : claimedKind (first ++ rest) with
      | none => rfl
      | some other =>
          constructor
          · exact fun _ => claimedKind_append hfirst hall
          · exact fun _ => trivial

/-- For every cutting of the records into refreshes the rows of a session agree with the
backfilled ones exactly when the batches agree. -/
theorem catalogue_batching_iff (lookups : SessionLookups) (key : SessionKey)
    (rounds : List (List Record)) :
    Option.Rel (SameColumns key.source) ((refreshAll lookups rounds).lookup key)
        ((backfillFromIndex lookups rounds.flatten).lookup key) ↔
      BatchesAgree lookups key (batchesOf key rounds) := by
  have hfilled : (backfillFromIndex lookups rounds.flatten).lookup key =
      batchRow lookups key (batchesOf key rounds).flatten := by
    rw [backfillFromIndex, lookup_refresh, flatten_batchesOf, batchRow]
    cases accumulate none (ownRecords key rounds.flatten) with
    | none => rfl
    | some session => rfl
  have hfull : ∀ batch ∈ batchesOf key rounds, batch ≠ [] :=
    fun batch hbatch => of_decide_eq_true (List.mem_filter.mp hbatch).2
  rw [hfilled, lookup_refreshAll]
  generalize batchesOf key rounds = batches at hfull
  obtain rfl | hbatches := eq_or_ne batches []
  · constructor
    · exact fun _ => ⟨rfl, fun _ => rfl, rfl⟩
    · exact fun _ => Option.Rel.none
  obtain ⟨first, rest, rfl⟩ := List.exists_cons_of_ne_nil hbatches
  have hall : (first :: rest).flatten ≠ [] := by
    intro hempty
    exact hfull first List.mem_cons_self
      (List.flatten_eq_nil_iff.mp hempty first List.mem_cons_self)
  obtain ⟨stored, hstored, hproject, hlabel, hkind⟩ :=
    mergedRows_spec lookups key hbatches hfull
  obtain ⟨filled, hfilledRow, hspec⟩ := batchRow_spec lookups key hall
  rw [hstored, hfilledRow, Option.rel_some_some]
  constructor
  · intro h
    refine ⟨?_, ?_, ?_⟩
    · rw [← named_getD_eq_iff, ← hproject, ← hspec.project]
      exact h.project
    · intro hsource
      rw [← findSome?_label hsource, ← extractSessionLabel_opening hsource, ← hlabel, ← hspec.label]
      exact h.label hsource
    · apply kindAgrees_iff.mpr
      apply Option.some.inj
      rw [← inferSessionKind_claims, ← inferSessionKind_claims]
      exact hkind.symm.trans (h.kind.trans hspec.kind)
  · intro h
    refine ⟨?_, ?_, ?_⟩
    · rw [hproject, hspec.project, named_getD_eq_iff]
      exact h.project
    · intro hsource
      rw [hlabel, hspec.label, findSome?_label hsource, extractSessionLabel_opening hsource]
      exact h.label hsource
    · rw [hkind, hspec.kind, inferSessionKind_claims, inferSessionKind_claims]
      exact congrArg some (kindAgrees_iff.mp h.kind)

/-- A resumed transcript begins with the summary of a compaction. -/
def compactionSummary : Record where
  source := .pi
  docId := 1
  ts := 5
  project := "proj"
  sessionId := "s-compact"
  turnId := 1
  role := "user"
  text := "summary of prior work"
  links := { conversationKind := some "compaction" }
  sourcePath := "/sessions/s-compact.jsonl"

def resumedPrompt : Record :=
  { compactionSummary with
    docId := 2, ts := 10, turnId := 2, text := "please fix the parser"
    links := { conversationKind := some "main" } }

def noLookups : SessionLookups where
  metadata _ := {}
  title _ := none
  hasParent _ := false
  lowercase := id

/-- The prompt that a second refresh reads claims main, and the session stays a compaction. -/
theorem compaction_kind_outlives_main_prompt :
    let key := sessionKey compactionSummary
    let stored := (refreshAll noLookups [[compactionSummary], [resumedPrompt]]).lookup key
    let filled := (backfillFromIndex noLookups [compactionSummary, resumedPrompt]).lookup key
    stored.bind CatalogueRow.conversationKind = some "compaction" ∧
      filled.bind CatalogueRow.conversationKind = some "main" ∧
      ¬ Option.Rel (SameColumns key.source) stored filled := by
  dsimp only
  have hstored : ((refreshAll noLookups [[compactionSummary], [resumedPrompt]]).lookup
      (sessionKey compactionSummary)).bind CatalogueRow.conversationKind = some "compaction" := by
    decide +kernel
  have hfilled : ((backfillFromIndex noLookups [compactionSummary, resumedPrompt]).lookup
      (sessionKey compactionSummary)).bind CatalogueRow.conversationKind = some "main" := by
    decide +kernel
  refine ⟨hstored, hfilled, fun h => ?_⟩
  generalize (refreshAll noLookups _).lookup _ = stored at hstored h
  generalize (backfillFromIndex noLookups _).lookup _ = filled at hfilled h
  cases h with
  | none => cases hstored
  | some hsame =>
      have hkind := hstored.symm.trans (hsame.kind.trans hfilled)
      exact absurd (Option.some.inj hkind) (by decide)

end Memex.Analytics
