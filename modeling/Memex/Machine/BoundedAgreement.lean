import Memex.Machine.BoundedReads

/-! # Bounded reads are accepted

What a bounded read returns passes the checks of the side that asked for it. The one exception is
a context whose session keeps another projection of the selected record. -/

namespace Memex.Machine

open LineStream Retrieval

variable {digest : Bytes → String} {discoverCwd : String → String → Option String}

/-! ## Clipped records -/

/-- A bounded record is a record of which only contents are left out. -/
structure BoundedRecord.ClipOf (bounded : BoundedRecord) (digest : Bytes → String)
    (record : Record) : Prop where
  named : bounded.recordId = canonicalRecordId digest record
  contents : ∃ text toolInput toolOutput sourceContent,
    bounded.record = withContents record text toolInput toolOutput sourceContent
  described : bounded.content.Describes bounded.record

namespace BoundedRecord.ClipOf

variable {bounded : BoundedRecord} {record : Record}

/-- Contents are not part of an identity. -/
theorem canonical (h : bounded.ClipOf digest record) :
    bounded.recordId = canonicalRecordId digest bounded.record := by
  obtain ⟨text, toolInput, toolOutput, sourceContent, hrecord⟩ := h.contents
  rw [h.named, hrecord]
  rfl

theorem selected (h : bounded.ClipOf digest record) (selector : ContextSelector) :
    selectorMatches digest bounded.record selector = selectorMatches digest record selector := by
  obtain ⟨text, toolInput, toolOutput, sourceContent, hrecord⟩ := h.contents
  rw [hrecord]
  cases selector with
  | recordId id sessionId source => rfl
  | docId id sessionId source => rfl
  | eventId id sessionId source => rfl

theorem outside (h : bounded.ClipOf digest record) (request : SessionPageRequest) :
    outsideSession request bounded.record = outsideSession request record := by
  obtain ⟨text, toolInput, toolOutput, sourceContent, hrecord⟩ := h.contents
  rw [hrecord]
  rfl

end BoundedRecord.ClipOf

/-- A budget that is spent on a record is spent on a clip of it. -/
theorem applyRecordBudget_spec {record : Record} {budget spent : ReadBudget}
    {field : Option ReadField} {offsetChars : Nat} {bounded : BoundedRecord}
    (h : applyRecordBudget digest record budget field offsetChars = .ok (spent, bounded)) :
    bounded.ClipOf digest record ∧ bounded.content.returnedChars ≤ budget.available ∧
      spent = budget.consume bounded.content.returnedChars := by
  rw [applyRecordBudget] at h
  split at h
  · cases h
  · next happlied =>
    obtain ⟨rfl, rfl⟩ := Prod.mk.inj (Except.ok.inj h)
    obtain ⟨hdescribed, hwithin, hspent, hcontents⟩ := ReadBudget.apply_spec happlied
    exact ⟨⟨rfl, hcontents, hdescribed⟩, hwithin, hspent⟩

/-- A record as a whole can always be read. -/
theorem applyRecordBudget_whole (digest : Bytes → String) (record : Record)
    (budget : ReadBudget) :
    ∃ spent bounded, applyRecordBudget digest record budget none 0 = .ok (spent, bounded) :=
  ⟨_, _, rfl⟩

/-- The characters of clipped records. -/
def charsOf (returned : List BoundedRecord) : Nat :=
  (returned.map fun bounded => bounded.content.returnedChars).sum

/-- What a budget leaves of a list of items. -/
structure Returned {α : Type} (digest : Bytes → String) (recordOf : α → Record)
    (budget : ReadBudget) (items : List α) (left : ReadBudget)
    (returned : List (α × BoundedRecord)) : Prop where
  begins : returned.map Prod.fst <+: items
  clipped : ∀ entry ∈ returned, entry.2.ClipOf digest (recordOf entry.1)
  spent : ∀ {remaining}, budget.remaining = some remaining →
    charsOf (returned.map Prod.snd) ≤ remaining ∧
      left.remaining = some (remaining - charsOf (returned.map Prod.snd))
  progress : budget.remaining ≠ some 0 → items ≠ [] → returned ≠ []

/-- Nothing is returned for a spent budget or of no items. -/
theorem Returned.nil {α : Type} {recordOf : α → Record} {budget : ReadBudget} {items : List α}
    (h : budget.remaining = some 0 ∨ items = []) :
    Returned digest recordOf budget items budget [] where
  begins := List.nil_prefix
  clipped := fun _ hentry => absurd hentry List.not_mem_nil
  spent := fun hremaining => ⟨Nat.zero_le _, hremaining⟩
  progress := fun hbudget hitems => (h.elim hbudget hitems).elim

/-- The loop over the items never fails. -/
theorem applyBudget_spec {α : Type} (digest : Bytes → String) (recordOf : α → Record)
    (budget : ReadBudget) (items : List α) :
    ∃ left returned, applyBudget digest recordOf budget items = .ok (left, returned) ∧
      Returned digest recordOf budget items left returned := by
  induction items generalizing budget with
  | nil => exact ⟨budget, [], rfl, Returned.nil (Or.inr rfl)⟩
  | cons item rest ih =>
      by_cases hzero : budget.remaining = some 0
      · refine ⟨budget, [], ?_, Returned.nil (Or.inl hzero)⟩
        rw [applyBudget, if_pos hzero]
      · obtain ⟨spent, bounded, hbounded⟩ :=
          applyRecordBudget_whole digest (recordOf item) budget
        obtain ⟨left, returned, hreturned, hrest⟩ := ih spent
        obtain ⟨hclip, hwithin, hspent⟩ := applyRecordBudget_spec hbounded
        refine ⟨left, (item, bounded) :: returned, ?_, ?_, ?_, ?_, ?_⟩
        · rw [applyBudget, if_neg hzero, hbounded]
          dsimp only
          rw [hreturned]
        · exact List.cons_prefix_cons.mpr ⟨rfl, hrest.begins⟩
        · intro entry hentry
          obtain rfl | hentry := List.mem_cons.mp hentry
          · exact hclip
          · exact hrest.clipped entry hentry
        · intro remaining hremaining
          have hconsumed : spent.remaining =
              some (remaining - bounded.content.returnedChars) := by
            rw [hspent, ReadBudget.consume, hremaining]
            rfl
          have hle : bounded.content.returnedChars ≤ remaining := by
            rw [ReadBudget.available, hremaining] at hwithin
            exact hwithin
          obtain ⟨hwithin, hleft⟩ := hrest.spent hconsumed
          have hsum : charsOf (((item, bounded) :: returned).map Prod.snd) =
              bounded.content.returnedChars + charsOf (returned.map Prod.snd) := rfl
          rw [hsum, hleft, Nat.sub_sub]
          exact ⟨by omega, rfl⟩
        · exact fun _ _ => List.cons_ne_nil _ _

/-! ## Checks that pass -/

theorem checkedAdd_eq_some {left right : Nat} (h : left + right < 2 ^ 64) :
    checkedAdd left right = some (left + right) :=
  if_pos h

/-- Continuations of different fields, none of which is past its end, are accepted. -/
theorem validateContinuations_eq_ok {fields : List ReadField}
    {continuations : List ContentContinuation}
    (hinside : ∀ continuation ∈ continuations,
      continuation.offsetChars ≤ continuation.totalChars)
    (hfields : (fields ++ continuations.map ContentContinuation.field).Nodup) :
    validateContinuations fields continuations = .ok () := by
  induction continuations generalizing fields with
  | nil => rfl
  | cons continuation rest ih =>
      have hfirst := hinside continuation List.mem_cons_self
      have hfresh : continuation.field ∉ fields := by
        intro hmem
        exact (List.nodup_append'.mp hfields).2.2 hmem List.mem_cons_self
      rw [validateContinuations, if_neg (by omega), if_neg hfresh]
      apply ih
      · exact fun other hother => hinside other (List.mem_cons_of_mem _ hother)
      · rw [List.append_assoc]
        exact hfields

theorem validateContentPage_eq_ok {record : Record} {content : ContentPage}
    (h : content.Describes record) :
    validateContentPage record content = .ok content.returnedChars := by
  have hwithin := h.within
  have hmarked : ¬ content.truncated = content.continuations.isEmpty := by
    rw [h.marked]
    exact Bool.not_ne_self _
  simp only [validateContentPage, h.counted, ne_eq, not_true, if_false, hmarked]
  rw [if_neg (by omega), validateContinuations_eq_ok h.inside h.fields]
  rfl

/-- The next offset of a page that is not past the end is the expected one. -/
theorem validateBoundedPagination_eq_ok {offset returned total : Nat} (context : String)
    (hreturned : returned ≤ total - offset) (htotal : total < 2 ^ 64) :
    validateBoundedPagination offset total (boundedNextOffset offset returned total) returned
      context = .ok () := by
  rw [validateBoundedPagination]
  by_cases hpast : total < offset
  · have hnone : boundedNextOffset offset returned total = none := if_neg (by omega)
    rw [if_pos hpast, hnone, if_neg]
    rintro (hsome | hsome)
    · omega
    · cases hsome
  · rw [if_neg hpast, checkedAdd_eq_some (by omega)]
    dsimp only
    rw [if_neg (by omega), boundedNextOffset, if_neg (fun h => h rfl)]

/-! ## Reads of a record -/

section Serving

variable {index : List Record} {selector : ContextSelector} {maxChars : Nat}

/-- A bounded record is accepted and within its budget. -/
theorem serveReadRecord_accepted {field : Option ReadField} {offsetChars : Nat}
    {bounded : BoundedRecord}
    (h : serveReadRecord digest index selector field offsetChars maxChars = .ok bounded) :
    validateBoundedRecord digest bounded selector (some maxChars) = .ok () ∧
      contentChars bounded.record ≤ maxChars := by
  rw [serveReadRecord] at h
  split at h
  · cases h
  · split at h
    · cases h
    · split at h
      · cases h
      · next record hresolved =>
        cases hbounded : applyRecordBudget digest record { remaining := some maxChars } field
            offsetChars with
        | error message =>
            rw [hbounded] at h
            cases h
        | ok spent =>
            rw [hbounded] at h
            obtain rfl := Except.ok.inj h
            obtain ⟨hclip, hwithin, -⟩ := applyRecordBudget_spec hbounded
            have hmatches := hclip.selected selector
            rw [(selectorMatches_of_resolveRecord hresolved).1] at hmatches
            have hbudget : ¬ (some maxChars).any (· < spent.2.content.returnedChars) = true := by
              rw [Option.any_some, decide_eq_true_eq]
              exact Nat.not_lt.mpr hwithin
            refine ⟨?_, hclip.described.counted ▸ hwithin⟩
            rw [validateBoundedRecord, if_neg (not_not.mpr hclip.canonical),
              if_neg (by simp [hmatches]), validateContentPage_eq_ok hclip.described]
            exact if_neg hbudget

/-! ## Reads of a context -/

/-- The anchor of a context comes first, and no other record is related as one. -/
theorem insertionSort_anchorFirst {records : List ContextRecord} {anchor : ContextRecord}
    (honce : records.filter (fun item => item.relation = .anchor) = [anchor]) :
    ∃ others, records.insertionSort anchorFirst = anchor :: others ∧
      anchor.relation = .anchor ∧ ∀ other ∈ others, other.relation ≠ .anchor := by
  have hperm := List.perm_insertionSort anchorFirst records
  have hfilter : (records.insertionSort anchorFirst).filter
      (fun item => item.relation = .anchor) = [anchor] := by
    have := hperm.filter fun item => item.relation = .anchor
    rw [honce] at this
    exact List.perm_singleton.mp this
  have hanchor : anchor ∈ records.insertionSort anchorFirst ∧
      decide (anchor.relation = .anchor) = true :=
    List.mem_filter.mp (hfilter ▸ List.mem_singleton_self anchor)
  have hsorted : (records.insertionSort anchorFirst).Pairwise anchorFirst := by
    have : Std.Total anchorFirst := ⟨fun left right => by
      by_cases hright : right.relation = .anchor
      · exact Or.inr (Or.inl hright)
      · exact Or.inl (Or.inr hright)⟩
    have : IsTrans ContextRecord anchorFirst := ⟨fun left middle right hleft hright => by
      obtain hleft | hmiddle := hleft
      · exact Or.inl hleft
      · exact Or.inr (hright.resolve_left hmiddle)⟩
    exact List.pairwise_insertionSort anchorFirst records
  rw [decide_eq_true_eq] at hanchor
  cases hrecords : records.insertionSort anchorFirst with
  | nil =>
      rw [hrecords] at hanchor
      cases hanchor.1
  | cons first others =>
      rw [hrecords] at hfilter hsorted hanchor
      have hfirst : first.relation = .anchor := by
        obtain heq | hmem := List.mem_cons.mp hanchor.1
        · exact heq ▸ hanchor.2
        · exact ((List.pairwise_cons.mp hsorted).1 anchor hmem).resolve_right
            fun hnot => hnot hanchor.2
      rw [List.filter_cons_of_pos (by simpa using hfirst)] at hfilter
      obtain ⟨rfl, hothers⟩ := List.cons.inj hfilter
      refine ⟨others, rfl, hanchor.2, fun other hother => ?_⟩
      have := List.filter_eq_nil_iff.mp hothers other hother
      simpa using this

/-- The characters of the records of a context. -/
def charsOfContext (records : List BoundedContextRecord) : Nat :=
  (records.map fun item => item.content.returnedChars).sum

/-- How many records are related as the anchor. -/
def anchorCount (records : List BoundedContextRecord) : Nat :=
  records.countP fun item => item.relation = .anchor

/-- Records that are what they are said to be pass the loop over a context. -/
theorem validateContextRecords_eq_ok {anchorRecordId : String}
    {records : List BoundedContextRecord} {returned anchors : Nat}
    (hnamed : ∀ item ∈ records, item.recordId = canonicalRecordId digest item.record)
    (hdescribed : ∀ item ∈ records, item.content.Describes item.record)
    (hanchor : ∀ item ∈ records, item.relation = .anchor →
      wrongAnchor digest anchorRecordId selector item = false)
    (hsize : returned + charsOfContext records < 2 ^ 64) :
    validateContextRecords digest anchorRecordId selector returned anchors records =
      .ok (returned + charsOfContext records, anchors + anchorCount records) := by
  induction records generalizing returned anchors with
  | nil => rfl
  | cons item rest ih =>
      have hchars : charsOfContext (item :: rest) =
          item.content.returnedChars + charsOfContext rest := rfl
      have hcount : anchorCount (item :: rest) =
          anchorCount rest + if item.relation = .anchor then 1 else 0 := by
        rw [anchorCount, List.countP_cons]
        simp only [decide_eq_true_eq]
        rfl
      rw [hchars] at hsize
      have hright : ¬(item.relation = .anchor ∧
          wrongAnchor digest anchorRecordId selector item = true) := by
        rintro ⟨hrelation, hwrong⟩
        rw [hanchor item List.mem_cons_self hrelation] at hwrong
        cases hwrong
      rw [validateContextRecords, if_neg (not_not.mpr (hnamed item List.mem_cons_self)),
        if_neg hright, validateContentPage_eq_ok (hdescribed item List.mem_cons_self)]
      dsimp only
      rw [checkedAdd_eq_some (by omega)]
      dsimp only
      rw [ih (fun other hother => hnamed other (List.mem_cons_of_mem _ hother))
        (fun other hother => hdescribed other (List.mem_cons_of_mem _ hother))
        (fun other hother => hanchor other (List.mem_cons_of_mem _ hother)) (by omega),
        hchars, hcount]
      split
      · rw [Nat.add_assoc, Nat.add_assoc, Nat.add_comm 1]
      · rw [Nat.add_assoc, Nat.add_zero]

/-- A wrong anchor that comes first does not pass. -/
theorem validateContextRecords_wrongAnchor {anchorRecordId : String}
    {item : BoundedContextRecord} {rest : List BoundedContextRecord}
    (hnamed : item.recordId = canonicalRecordId digest item.record)
    (hrelation : item.relation = .anchor)
    (hwrong : wrongAnchor digest anchorRecordId selector item = true) :
    validateContextRecords digest anchorRecordId selector 0 0 (item :: rest) =
      .error "context read returned the wrong anchor record" := by
  rw [validateContextRecords, if_neg (not_not.mpr hnamed), if_pos ⟨hrelation, hwrong⟩]

/-- What the items of a context become under a budget. -/
structure ContextAnswer (digest : Bytes → String) (items : List ContextRecord) (maxChars : Nat)
    (records : List BoundedContextRecord) : Prop where
  begins : ∃ returned : List (ContextRecord × BoundedRecord),
    records = returned.map BoundedContextRecord.ofEntry ∧ returned.map Prod.fst <+: items ∧
      ∀ entry ∈ returned, entry.2.ClipOf digest entry.1.record
  within : charsOfContext records ≤ maxChars

/-- A context that is served is the clipped part of it from the offset on. -/
theorem applyContextBudget_spec {context : ContextResult} {offset : Nat}
    {bounded : BoundedContext} (hpos : 0 < maxChars)
    (h : applyContextBudget digest context offset (some maxChars) = .ok bounded) :
    bounded.anchorRecordId = context.anchorRecordId ∧ bounded.order = "anchor_first" ∧
      bounded.offset = offset ∧ bounded.total = context.records.length ∧
      bounded.nextOffset = boundedNextOffset offset bounded.records.length bounded.total ∧
      ContextAnswer digest ((context.records.insertionSort anchorFirst).drop offset) maxChars
        bounded.records ∧
      ((context.records.insertionSort anchorFirst).drop offset ≠ [] → bounded.records ≠ []) := by
  obtain ⟨left, returned, happlied, hreturned⟩ := applyBudget_spec digest ContextRecord.record
    { remaining := some maxChars } ((context.records.insertionSort anchorFirst).drop offset)
  simp only [applyContextBudget, contextOrder, Option.isSome_some, if_true, happlied] at h
  obtain rfl := Except.ok.inj h
  refine ⟨rfl, rfl, rfl, List.length_insertionSort _ _, ?_, ⟨⟨returned, rfl,
    hreturned.begins, hreturned.clipped⟩, ?_⟩, ?_⟩
  · dsimp only
    rw [List.length_map]
  · have hwithin := (hreturned.spent rfl).1
    rw [charsOf, List.map_map] at hwithin
    rw [charsOfContext, List.map_map]
    exact hwithin
  · intro hitems hnil
    apply hreturned.progress
    · intro hzero
      have := Option.some.inj hzero
      omega
    · exact hitems
    · exact List.map_eq_nil_iff.mp hnil

/-- The records of an answer are the clips of some of the items. -/
theorem ContextAnswer.clips {items : List ContextRecord} {records : List BoundedContextRecord}
    (h : ContextAnswer digest items maxChars records) :
    ∀ record ∈ records, ∃ item ∈ items, ∃ bounded : BoundedRecord,
      record = BoundedContextRecord.ofEntry (item, bounded) ∧
        bounded.ClipOf digest item.record := by
  obtain ⟨returned, rfl, hbegins, hclipped⟩ := h.begins
  intro record hrecord
  obtain ⟨⟨item, bounded⟩, hentry, rfl⟩ := List.mem_map.mp hrecord
  have hitem : item ∈ returned.map Prod.fst := List.mem_map.mpr ⟨_, hentry, rfl⟩
  exact ⟨item, hbegins.mem hitem, bounded, rfl, hclipped _ hentry⟩

theorem ContextAnswer.length_le {items : List ContextRecord}
    {records : List BoundedContextRecord} (h : ContextAnswer digest items maxChars records) :
    records.length ≤ items.length := by
  obtain ⟨returned, rfl, hbegins, -⟩ := h.begins
  have := hbegins.length_le
  rw [List.length_map] at this ⊢
  exact this

/-- Named and described records of an answer, whatever their relation. -/
theorem ContextAnswer.named {items : List ContextRecord} {records : List BoundedContextRecord}
    (h : ContextAnswer digest items maxChars records) :
    (∀ record ∈ records, record.recordId = canonicalRecordId digest record.record) ∧
      ∀ record ∈ records, record.content.Describes record.record := by
  constructor
  · intro record hrecord
    obtain ⟨item, -, bounded, rfl, hclip⟩ := h.clips record hrecord
    exact hclip.canonical
  · intro record hrecord
    obtain ⟨item, -, bounded, rfl, hclip⟩ := h.clips record hrecord
    exact hclip.described

/-- No record of an answer is an anchor when no item is. -/
theorem ContextAnswer.anchorCount_eq_zero {items : List ContextRecord}
    {records : List BoundedContextRecord} (h : ContextAnswer digest items maxChars records)
    (hitems : ∀ item ∈ items, item.relation ≠ .anchor) :
    (∀ record ∈ records, record.relation ≠ .anchor) ∧ anchorCount records = 0 := by
  have hnone : ∀ record ∈ records, record.relation ≠ .anchor := by
    intro record hrecord
    obtain ⟨item, hitem, bounded, rfl, -⟩ := h.clips record hrecord
    exact hitems item hitem
  refine ⟨hnone, ?_⟩
  rw [anchorCount, List.countP_eq_zero]
  intro record hrecord
  rw [decide_eq_true_eq]
  exact hnone record hrecord

/-- The answer of a context from its anchor on begins with the clipped anchor. -/
theorem ContextAnswer.cons {anchor : ContextRecord} {others : List ContextRecord}
    {records : List BoundedContextRecord}
    (h : ContextAnswer digest (anchor :: others) maxChars records) (hne : records ≠ [])
    (hothers : ∀ other ∈ others, other.relation ≠ .anchor) :
    ∃ bounded rest, records = BoundedContextRecord.ofEntry (anchor, bounded) :: rest ∧
      bounded.ClipOf digest anchor.record ∧ (∀ record ∈ rest, record.relation ≠ .anchor) ∧
      anchorCount rest = 0 := by
  obtain ⟨returned, hrecords, hbegins, hclipped⟩ := h.begins
  cases returned with
  | nil => exact absurd hrecords hne
  | cons entry rest =>
      obtain ⟨item, bounded⟩ := entry
      rw [List.map_cons, List.cons_prefix_cons] at hbegins
      obtain ⟨rfl, hrest⟩ := hbegins
      have hanswer : ContextAnswer digest others maxChars
          (rest.map BoundedContextRecord.ofEntry) := by
        refine ⟨⟨rest, rfl, hrest, fun entry hentry =>
          hclipped entry (List.mem_cons_of_mem _ hentry)⟩, ?_⟩
        have hwithin := h.within
        rw [hrecords] at hwithin
        exact (Nat.le_add_left _ _).trans hwithin
      obtain ⟨hnone, hcount⟩ := hanswer.anchorCount_eq_zero hothers
      exact ⟨bounded, _, hrecords, hclipped _ List.mem_cons_self, hnone, hcount⟩

variable (selector) in
/-- A clipped anchor is the wrong one exactly when the selector does not match it. -/
theorem wrongAnchor_ofEntry {item : ContextRecord} {bounded : BoundedRecord}
    {anchorRecordId : String} (hclip : bounded.ClipOf digest item.record)
    (hid : canonicalRecordId digest item.record = anchorRecordId) :
    wrongAnchor digest anchorRecordId selector (BoundedContextRecord.ofEntry (item, bounded)) =
      !selectorMatches digest item.record selector := by
  have hnamed : bounded.recordId = anchorRecordId := hclip.named.trans hid
  simp only [wrongAnchor, BoundedContextRecord.ofEntry, hnamed, hclip.selected selector, ne_eq,
    not_true, decide_false, Bool.false_or]

/-- A bounded context is within its budget. It is accepted exactly when its anchor, if it is
returned, is one that the selector matches. -/
theorem serveReadContext_accepted_iff {options : ContextOptions} {offset : Nat}
    {bounded : BoundedContext} (hpos : 0 < maxChars) (hsize : maxChars < 2 ^ 64)
    (hindex : index.length < 2 ^ 64)
    (h : serveReadContext digest index selector options offset maxChars = .ok bounded) :
    charsOfContext bounded.records ≤ maxChars ∧
      (validateBoundedContext digest bounded selector offset (some maxChars) = .ok () ↔
        (offset = 0 → keepsSelected digest index selector = true)) := by
  rw [serveReadContext] at h
  split at h
  · cases h
  · split at h
    · cases h
    · next context hcontext =>
      obtain ⟨resolved, kept, hresolved, hkept, hanchored, hlength⟩ :=
        contextRecords_anchored hcontext
      obtain ⟨others, hordered, hrelation, hothers⟩ := insertionSort_anchorFirst hanchored.once
      obtain ⟨hid, horder, hoffset, htotal, hnext, hanswer, hprogress⟩ :=
        applyContextBudget_spec hpos h
      have hkeeps : keepsSelected digest index selector =
          selectorMatches digest kept selector := by
        rw [keepsSelected, hresolved]
        dsimp only
        rw [hkept]
        rfl
      have hpagination : validateBoundedPagination bounded.offset bounded.total
          bounded.nextOffset bounded.records.length "context read" = .ok () := by
        rw [hnext, hoffset]
        apply validateBoundedPagination_eq_ok
        · have := hanswer.length_le
          rw [List.length_drop, List.length_insertionSort] at this
          omega
        · omega
      obtain ⟨hnamed, hdescribed⟩ := hanswer.named
      have hbudget : ¬ (some maxChars).any (· < 0 + charsOfContext bounded.records) = true := by
        rw [Option.any_some, decide_eq_true_eq, Nat.zero_add]
        exact Nat.not_lt.mpr hanswer.within
      have hchars : 0 + charsOfContext bounded.records < 2 ^ 64 := by
        have := hanswer.within
        omega
      refine ⟨hanswer.within, ?_⟩
      rw [validateBoundedContext, if_neg (not_not.mpr hoffset), if_neg (by simp [horder]),
        hpagination, hid]
      dsimp only
      rw [hordered] at hanswer hprogress
      by_cases hfirst : offset = 0
      · subst hfirst
        obtain ⟨clip, rest, hrecords, hclip, hrest, hcount⟩ :=
          hanswer.cons (hprogress (List.cons_ne_nil _ _)) hothers
        have hwrong := wrongAnchor_ofEntry selector hclip hanchored.named
        dsimp only at hwrong
        rw [← hkeeps] at hwrong
        have hone : anchorCount bounded.records = 1 := by
          rw [hrecords, anchorCount, List.countP_cons, ← anchorCount, hcount]
          rfl
        by_cases hselected : keepsSelected digest index selector = true
        · rw [hselected] at hwrong
          rw [validateContextRecords_eq_ok hnamed hdescribed ?_ hchars]
          · dsimp only
            rw [if_neg hbudget, if_pos ⟨by simpa using hpos, rfl⟩, hone, hrecords, if_neg ?_]
            · exact iff_of_true rfl fun _ => hselected
            · rintro (hhead | hcounted)
              · rw [List.head?_cons, Option.all_some, hwrong] at hhead
                cases hhead
              · exact hcounted rfl
          · intro item hitem hrelated
            rw [hrecords] at hitem
            obtain rfl | hitem := List.mem_cons.mp hitem
            · exact hwrong
            · exact absurd hrelated (hrest item hitem)
        · rw [Bool.not_eq_true] at hselected
          rw [hselected] at hwrong
          rw [hrecords] at hnamed ⊢
          rw [validateContextRecords_wrongAnchor (hnamed _ List.mem_cons_self) rfl hwrong]
          refine iff_of_false (fun h => by cases h) fun h => ?_
          rw [h rfl] at hselected
          cases hselected
      · have hnone : ∀ item ∈ others.drop (offset - 1), item.relation ≠ .anchor :=
          fun item hitem => hothers item (List.mem_of_mem_drop hitem)
        rw [← Nat.succ_pred_eq_of_ne_zero hfirst] at hanswer
        obtain ⟨hrecords, hcount⟩ := hanswer.anchorCount_eq_zero hnone
        rw [validateContextRecords_eq_ok hnamed hdescribed
          (fun item hitem hrelated => absurd hrelated (hrecords item hitem)) hchars]
        dsimp only
        rw [if_neg hbudget, if_neg (fun h => hfirst h.2), hcount, if_neg (by omega)]
        exact iff_of_true rfl fun h => absurd h hfirst

end Serving

end Memex.Machine
