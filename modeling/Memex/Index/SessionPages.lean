import Memex.Index.Searcher
import Memex.Machine.PageTraversal

/-! # Pages of a session in the index

A page is collected from the nearer end of its session, and the page around a record from both
sides of it. Both are parts of the session in its order. -/

namespace Memex.Index

open BooleanQuery Filters Machine

/-! ## Parts of an ordered session -/

section Parts

variable {session : List Record}

/-- What is left of a page, wherever it was collected from. -/
theorem sorted_part (hsorted : session.Pairwise sessionLe)
    (hunique : (session.map Record.docId).Nodup) {found : List Record} {offset limit : Nat}
    (hperm : found.Perm ((session.drop offset).take limit)) :
    LatestByKey.sorted sessionOrder found = (session.drop offset).take limit := by
  apply sorted_eq_of_perm hperm
  · exact hsorted.sublist ((List.take_sublist _ _).trans (List.drop_sublist _ _))
  · exact hunique.sublist
      (((List.take_sublist _ _).trans (List.drop_sublist _ _)).map Record.docId)

/-- A part of a list is the part of the reversed list that leaves out as much at its ends. -/
theorem take_drop_reverse {α : Type*} {items : List α} {offset limit : Nat}
    (h : offset + limit ≤ items.length) :
    (items.reverse.drop (items.length - offset - limit)).take limit =
      ((items.drop offset).take limit).reverse := by
  rw [List.drop_reverse, List.take_reverse, List.length_take, List.reverse_inj,
    List.take_drop]
  have hend : items.length - (items.length - offset - limit) = offset + limit := by omega
  rw [hend, Nat.min_eq_left h, Nat.add_sub_cancel]

/-- A list whose accepted items all stand before the others is cut there. -/
theorem filter_append_filter_not {α : Type*} {accept : α → Bool} {items : List α}
    (h : items.Pairwise fun left right => accept right = true → accept left = true) :
    items.filter accept ++ items.filter (fun item => !accept item) = items := by
  induction items with
  | nil => rfl
  | cons item rest ih =>
      obtain ⟨hfirst, hrest⟩ := List.pairwise_cons.mp h
      by_cases haccept : accept item = true
      · rw [List.filter_cons_of_pos haccept, List.filter_cons_of_neg (by simp [haccept]),
          List.cons_append, ih hrest]
      · have hnone : rest.filter accept = [] := by
          rw [List.filter_eq_nil_iff]
          exact fun other hmem hother => haccept (hfirst other hmem hother)
        have hall : rest.filter (fun item => !accept item) = rest := by
          conv_rhs => rw [← ih hrest, hnone, List.nil_append]
        rw [List.filter_cons_of_neg haccept, hnone, List.nil_append,
          List.filter_cons_of_pos (by simp [haccept]), hall]

end Parts

/-! ## Documents in order -/

section Order

variable {index : SearchIndex} {query : DocQuery} {left right : Document}

/-- The records that a query matches, in the order of a session. -/
def SearchIndex.inOrder (index : SearchIndex) (query : DocQuery) : List Record :=
  LatestByKey.sorted sessionOrder ((index.found query).map index.recordOf)

theorem mem_docs_of_mem_found (h : left ∈ index.found query) : left ∈ index.docs :=
  (List.mem_filter.mp h).1

/-- A record has the numbers of its document. -/
theorem numbers_recordOf (h : left ∈ index.docs) :
    (index.recordOf left).turnId = left.getU64 .turnId ∧
      (index.recordOf left).ts = left.getU64 .ts ∧
        (index.recordOf left).docId = left.getU64 .docId := by
  have hstored := index.stored left h
  obtain ⟨turnId, -, hvalues⟩ := hstored.numbers .turnId (by simp)
  have hbound : turnId < 2 ^ 32 := hstored.turnId turnId (by rw [hvalues]; simp)
  have hturn : left.getU64 .turnId = turnId := by
    rw [Document.getU64, lookup_eq_head?, hvalues]
    rfl
  refine ⟨?_, rfl, rfl⟩
  change left.getU64 .turnId % 2 ^ 32 = _
  rw [hturn, Nat.mod_eq_of_lt hbound]

theorem sessionOrder_recordOf (hleft : left ∈ index.docs) (hright : right ∈ index.docs) :
    sessionOrder (index.recordOf left) (index.recordOf right) = bySessionOrder left right := by
  obtain ⟨hturn, hts, hdoc⟩ := numbers_recordOf hleft
  obtain ⟨hturn', hts', hdoc'⟩ := numbers_recordOf hright
  rw [sessionOrder, hturn, hts, hdoc, hturn', hts', hdoc']
  rfl

/-- Documents sorted by a collector are records in that order. -/
theorem map_sorted_found (order : Document → Document → Ordering)
    (recordOrder : Record → Record → Ordering)
    (h : ∀ left ∈ index.docs, ∀ right ∈ index.docs,
      recordOrder (index.recordOf left) (index.recordOf right) = order left right) :
    (LatestByKey.sorted order (index.found query)).map index.recordOf =
      LatestByKey.sorted recordOrder ((index.found query).map index.recordOf) := by
  apply List.map_insertionSort
  intro left hleft right hright
  rw [h left (mem_docs_of_mem_found hleft) right (mem_docs_of_mem_found hright)]

/-- The first documents of a session. -/
theorem topDocs_forward {limit : Nat} (hlimit : limit ≠ 0) (offset : Nat) :
    ∃ docs, index.topDocs query bySessionOrder limit offset = .ok docs ∧
      docs.map index.recordOf = ((index.inOrder query).drop offset).take limit := by
  refine ⟨_, if_neg hlimit, ?_⟩
  rw [List.map_take, List.map_drop, map_sorted_found _ sessionOrder]
  · rfl
  · exact fun left hleft right hright => sessionOrder_recordOf hleft hright

/-- The last documents of a session. -/
theorem topDocs_backward {limit : Nat} (hlimit : limit ≠ 0) (offset : Nat)
    (hunique : ((index.inOrder query).map Record.docId).Nodup) :
    ∃ docs, index.topDocs query (fun left right => bySessionOrder right left) limit offset =
        .ok docs ∧
      docs.map index.recordOf = ((index.inOrder query).reverse.drop offset).take limit := by
  have hfound : (((index.found query).map index.recordOf).map Record.docId).Nodup :=
    (LatestByKey.sorted_perm.map _).nodup_iff.mp hunique
  refine ⟨_, if_neg hlimit, ?_⟩
  rw [List.map_take, List.map_drop,
    map_sorted_found _ (fun left right => sessionOrder right left), sorted_flip hfound]
  · rfl
  · exact fun left hleft right hright => sessionOrder_recordOf hright hleft

theorem length_inOrder (index : SearchIndex) (query : DocQuery) :
    (index.inOrder query).length = index.count query := by
  rw [SearchIndex.inOrder, LatestByKey.sorted_perm.length_eq, List.length_map]
  rfl

theorem pairwise_inOrder (index : SearchIndex) (query : DocQuery) :
    (index.inOrder query).Pairwise sessionLe :=
  List.pairwise_insertionSort _ _

end Order

/-! ## Pages -/

section Pages

variable {index : SearchIndex} {sessionId : String} {sourcePath : Option String}
  {source : Option SourceKind}

/-- The records of a session in their order. -/
def SearchIndex.sessionRecords (index : SearchIndex) (sessionId : String)
    (sourcePath : Option String) (source : Option SourceKind) : List Record :=
  index.inOrder (sessionQuery index.fields sessionId sourcePath source none)

theorem ok_bind {α β : Type} (value : α) (rest : α → Except Failure β) :
    (Except.ok value >>= rest) = rest value := rfl

theorem checkedSub_of_le {left right : Nat} (h : right ≤ left) :
    checkedSub left right = .ok (left - right) :=
  if_pos h

/-- A page is the part of the session from its offset on. -/
theorem recordsBySessionScopePage_eq
    (hunique : ((index.sessionRecords sessionId sourcePath source).map Record.docId).Nodup)
    (offset limit : Nat) :
    index.recordsBySessionScopePage sessionId sourcePath source offset limit =
      .ok (((index.sessionRecords sessionId sourcePath source).drop offset).take (max limit 1),
        (index.sessionRecords sessionId sourcePath source).length) := by
  have hsorted := pairwise_inOrder index
    (sessionQuery index.fields sessionId sourcePath source none)
  rw [SearchIndex.sessionRecords] at hunique ⊢
  simp only [SearchIndex.recordsBySessionScopePage, ← length_inOrder]
  generalize sessionQuery index.fields sessionId sourcePath source none = query at *
  by_cases hpast : (index.inOrder query).length ≤ offset
  · rw [if_pos hpast, List.drop_eq_nil_of_le hpast, List.take_nil]
    rfl
  · rw [if_neg hpast, checkedSub_of_le (by omega)]
    have hpage : ((index.inOrder query).drop offset).take (max limit 1) =
        ((index.inOrder query).drop offset).take
          (min (max limit 1) ((index.inOrder query).length - offset)) := by
      rw [List.take_eq_take_min, List.length_drop]
    rw [hpage]
    generalize hlimit : min (max limit 1) ((index.inOrder query).length - offset) = pageLimit
    have hinside : offset + pageLimit ≤ (index.inOrder query).length := by omega
    have hpositive : pageLimit ≠ 0 := by omega
    simp only [ok_bind, hlimit]
    rw [checkedSub_of_le (by omega), ok_bind]
    by_cases hhalf : offset ≤ (index.inOrder query).length - offset - pageLimit
    · obtain ⟨docs, hdocs, hrecords⟩ := @topDocs_forward index query pageLimit hpositive offset
      simp only [if_pos hhalf, hdocs, ok_bind, hrecords]
      rw [sorted_part hsorted hunique (List.Perm.refl _)]
      rfl
    · obtain ⟨docs, hdocs, hrecords⟩ := topDocs_backward hpositive
        ((index.inOrder query).length - offset - pageLimit) hunique
      rw [take_drop_reverse hinside] at hrecords
      simp only [if_neg hhalf, hdocs, ok_bind, hrecords]
      rw [sorted_part hsorted hunique (List.reverse_perm _)]
      rfl

end Pages

/-! ## Around a record -/

section Around

variable {index : SearchIndex} {anchor : Record} {doc : Document}

theorem getU64_of_valuesOf {field : Field} {number : Nat}
    (h : doc.valuesOf field = [.u64 number]) : doc.getU64 field = number := by
  rw [Document.getU64, lookup_eq_head?, h]
  rfl

/-- The three numbers of a document, as its terms and its record have them. -/
theorem exists_numbers (h : doc ∈ index.docs) :
    ∃ turnId ts docId, doc.valuesOf .turnId = [.u64 turnId] ∧ doc.valuesOf .ts = [.u64 ts] ∧
      doc.valuesOf .docId = [.u64 docId] ∧ (index.recordOf doc).turnId = turnId ∧
        (index.recordOf doc).ts = ts ∧ (index.recordOf doc).docId = docId := by
  have hstored := index.stored doc h
  obtain ⟨turnId, -, hturn⟩ := hstored.numbers .turnId (by simp)
  obtain ⟨ts, -, hts⟩ := hstored.numbers .ts (by simp)
  obtain ⟨docId, -, hdoc⟩ := hstored.numbers .docId (by simp)
  obtain ⟨hrecordTurn, hrecordTs, hrecordDoc⟩ := numbers_recordOf h
  refine ⟨turnId, ts, docId, hturn, hts, hdoc, ?_, ?_, ?_⟩
  · rw [hrecordTurn, getU64_of_valuesOf hturn]
  · rw [hrecordTs, getU64_of_valuesOf hts]
  · rw [hrecordDoc, getU64_of_valuesOf hdoc]

/-- The first query finds what stands before the record. -/
theorem accepts_predecessors_iff (h : doc ∈ index.docs) :
    accepts doc.holds (SearchIndex.predecessors anchor) = true ↔
      ¬ sessionLe anchor (index.recordOf doc) := by
  obtain ⟨turnId, ts, docId, hturn, hts, hdoc, hrecordTurn, hrecordTs, hrecordDoc⟩ :=
    exists_numbers h
  simp only [SearchIndex.predecessors, accepts_should, accepts_must _ (List.cons_ne_nil _ _),
    List.any_cons, List.any_nil, List.all_cons, List.all_nil, accepts_term, Bool.or_eq_true,
    Bool.and_eq_true, holds_range_of_valuesOf hturn, holds_range_of_valuesOf hts,
    holds_range_of_valuesOf hdoc, holds_u64_of_valuesOf hturn, holds_u64_of_valuesOf hts,
    Bound.isBelow, Bound.isAbove, decide_eq_true_iff, sessionLe_iff, hrecordTurn, hrecordTs,
    hrecordDoc]
  simp only [true_and, and_true, or_false, Bool.false_eq_true]
  omega

/-- The second query finds the record and what stands after it. -/
theorem accepts_successors_iff (h : doc ∈ index.docs) :
    accepts doc.holds (SearchIndex.successors anchor) = true ↔
      sessionLe anchor (index.recordOf doc) := by
  obtain ⟨turnId, ts, docId, hturn, hts, hdoc, hrecordTurn, hrecordTs, hrecordDoc⟩ :=
    exists_numbers h
  simp only [SearchIndex.successors, accepts_should, accepts_must _ (List.cons_ne_nil _ _),
    List.any_cons, List.any_nil, List.all_cons, List.all_nil, accepts_term, Bool.or_eq_true,
    Bool.and_eq_true, holds_range_of_valuesOf hturn, holds_range_of_valuesOf hts,
    holds_range_of_valuesOf hdoc, holds_u64_of_valuesOf hturn, holds_u64_of_valuesOf hts,
    Bound.isBelow, Bound.isAbove, decide_eq_true_iff, sessionLe_iff, hrecordTurn, hrecordTs,
    hrecordDoc]
  simp only [and_true, or_false, Bool.false_eq_true]
  omega

variable {sessionId : String} {sourcePath : Option String} {source : Option SourceKind}

theorem accepts_sessionQuery_some (fields : IndexFields) (extra : DocQuery) :
    accepts doc.holds (sessionQuery fields sessionId sourcePath source (some extra)) =
      (accepts doc.holds (sessionQuery fields sessionId sourcePath source none) &&
        accepts doc.holds extra) := by
  rw [sessionQuery, sessionQuery, accepts_must _ (by simp), accepts_must _ (by simp)]
  simp [List.all_append, Bool.and_assoc]

/-- The documents of a session that a further query accepts. -/
theorem inOrder_some (hunique :
      ((index.sessionRecords sessionId sourcePath source).map Record.docId).Nodup)
    (extra : DocQuery) (accept : Record → Bool)
    (h : ∀ doc ∈ index.docs, accepts doc.holds extra = accept (index.recordOf doc)) :
    index.inOrder (sessionQuery index.fields sessionId sourcePath source (some extra)) =
      (index.sessionRecords sessionId sourcePath source).filter accept := by
  have hfound : (index.found
      (sessionQuery index.fields sessionId sourcePath source (some extra))).map index.recordOf =
        ((index.found (sessionQuery index.fields sessionId sourcePath source none)).map
          index.recordOf).filter accept := by
    rw [List.filter_map, SearchIndex.found, SearchIndex.found, List.filter_filter]
    congr 1
    apply List.filter_congr
    intro doc hmem
    rw [accepts_sessionQuery_some, h doc hmem, Bool.and_comm]
    rfl
  rw [SearchIndex.inOrder, hfound]
  apply sorted_eq_of_perm
  · exact (LatestByKey.sorted_perm.filter accept).symm
  · exact (pairwise_inOrder index _).sublist List.filter_sublist
  · exact hunique.sublist (List.filter_sublist.map _)

/-- A record is found by its canonical id in its session. -/
theorem recordsByCanonicalIdInSessionScope_eq (index : SearchIndex) (recordId sessionId : String)
    (sourcePath : Option String) (source : Option SourceKind) :
    ∃ anchors, index.recordsByCanonicalIdInSessionScope recordId sessionId sourcePath source =
        .ok anchors ∧
      ∀ anchor ∈ anchors, anchor ∈ index.sessionRecords sessionId sourcePath source ∧
        Retrieval.canonicalRecordId index.readers.digest anchor = recordId := by
  simp only [SearchIndex.recordsByCanonicalIdInSessionScope]
  by_cases hlimit : index.canonicalLimit
      (index.canonicalScope recordId sessionId sourcePath source) = 0
  · refine ⟨[], if_pos hlimit, ?_⟩
    exact fun _ hmem => absurd hmem List.not_mem_nil
  · obtain ⟨docs, hdocs, hrecords⟩ := @topDocs_forward index
      (index.canonicalScope recordId sessionId sourcePath source) _ hlimit 0
    rw [if_neg hlimit, hdocs, ok_bind]
    refine ⟨_, rfl, ?_⟩
    intro anchor hmem
    have hnamed := List.mem_of_mem_take (LatestByKey.sorted_perm.mem_iff.mp hmem)
    obtain ⟨hrecord, hid⟩ := List.mem_filter.mp hnamed
    refine ⟨?_, of_decide_eq_true hid⟩
    rw [hrecords] at hrecord
    have hscope := LatestByKey.sorted_perm.mem_iff.mp
      (List.mem_of_mem_drop (List.mem_of_mem_take hrecord))
    obtain ⟨doc, hdoc, rfl⟩ := List.mem_map.mp hscope
    obtain ⟨hstored, haccepts⟩ := List.mem_filter.mp hdoc
    apply LatestByKey.sorted_perm.mem_iff.mpr
    apply List.mem_map_of_mem
    refine List.mem_filter.mpr ⟨hstored, ?_⟩
    rw [SearchIndex.canonicalScope] at haccepts
    cases hfield : index.fields.canonicalRecordId with
    | none =>
        rw [hfield] at haccepts
        exact haccepts
    | some field =>
        rw [hfield, Option.map_some, accepts_sessionQuery_some, Bool.and_eq_true] at haccepts
        exact haccepts.1

/-- A record cuts its session into what stands before it and the rest, which it begins. -/
theorem session_cut {session : List Record} (hsorted : session.Pairwise sessionLe)
    (hunique : (session.map Record.docId).Nodup) (hanchor : anchor ∈ session) :
    ∃ before after, session = before ++ anchor :: after ∧
      session.filter (fun record => !decide (sessionLe anchor record)) = before ∧
        session.filter (fun record => decide (sessionLe anchor record)) = anchor :: after := by
  have hcut := @filter_append_filter_not _ (fun record => !decide (sessionLe anchor record))
    session ?_
  · simp only [Bool.not_not] at hcut
    have hmem : anchor ∈ session.filter fun record => decide (sessionLe anchor record) :=
      List.mem_filter.mpr ⟨hanchor, decide_eq_true (refl_of sessionLe anchor)⟩
    have hrest : (session.filter fun record => decide (sessionLe anchor record)).Pairwise
        sessionLe := hsorted.sublist List.filter_sublist
    cases hlist : session.filter fun record => decide (sessionLe anchor record) with
    | nil =>
        rw [hlist] at hmem
        cases hmem
    | cons first after =>
        have hfirst : first = anchor := by
          rw [hlist] at hmem hrest
          have hin : first ∈ session.filter fun record => decide (sessionLe anchor record) := by
            rw [hlist]
            exact List.mem_cons_self
          obtain ⟨hsession, hle⟩ := List.mem_filter.mp hin
          obtain rfl | hafter := List.mem_cons.mp hmem
          · rfl
          · have hback := (List.pairwise_cons.mp hrest).1 anchor hafter
            exact List.inj_on_of_nodup_map hunique hsession hanchor
              (docId_eq_of_sessionLe hback (of_decide_eq_true hle))
        rw [hfirst] at hlist ⊢
        refine ⟨_, after, ?_, rfl, rfl⟩
        rw [← hlist]
        exact hcut.symm
  · apply hsorted.imp
    intro left right hle hright
    rw [Bool.not_eq_true', decide_eq_false_iff_not] at hright ⊢
    exact fun hleft => hright (trans_of sessionLe hleft hle)

/-- The part of a session around a record that stands behind `before`. -/
theorem part_around {before after : List Record} {room count : Nat} (hroom : room ≤ before.length) :
    (before.reverse.take room ++ (anchor :: after).take count).Perm
      (((before ++ anchor :: after).drop (before.length - room)).take (room + count)) := by
  have hlength : (before.drop (before.length - room)).length = room := by
    rw [List.length_drop]
    omega
  have hpart : ((before ++ anchor :: after).drop (before.length - room)).take (room + count) =
      before.drop (before.length - room) ++ (anchor :: after).take count := by
    rw [List.drop_append_of_le_length (by omega)]
    conv_lhs => rw [← hlength]
    rw [hlength, List.take_append, hlength, List.take_of_length_le (by omega),
      Nat.add_sub_cancel_left]
  rw [hpart, List.take_reverse]
  exact (List.reverse_perm _).append_right _

/-- How many records a page around a record has before it and from it on. -/
theorem counts_around {anchorOffset total limit : Nat} (h : anchorOffset < total) :
    let pageLimit := min (max limit 1) total
    let beforeLimit := min anchorOffset (pageLimit / 2)
    let afterCount := min (total - anchorOffset) (pageLimit - beforeLimit)
    let beforeCount := min anchorOffset (pageLimit - afterCount)
    beforeLimit ≤ pageLimit ∧ afterCount ≤ pageLimit ∧ beforeCount ≤ anchorOffset ∧
      beforeCount + afterCount = pageLimit ∧ 0 < afterCount ∧
        min (max limit 1) (total - (anchorOffset - beforeCount)) = pageLimit := by
  intro pageLimit beforeLimit afterCount beforeCount
  have hpage : 0 < pageLimit ∧ pageLimit ≤ total ∧ pageLimit ≤ max limit 1 ∧
      (pageLimit = max limit 1 ∨ pageLimit = total) := by omega
  clear_value pageLimit
  obtain ⟨hpositive, htotal, hlimit, hwhole⟩ := hpage
  have hbefore : beforeLimit ≤ anchorOffset ∧ 2 * beforeLimit ≤ pageLimit := by omega
  clear_value beforeLimit
  have hafter : afterCount ≤ total - anchorOffset ∧ afterCount ≤ pageLimit - beforeLimit ∧
      (afterCount = total - anchorOffset ∨ afterCount = pageLimit - beforeLimit) := by omega
  clear_value afterCount
  have hsum : beforeCount ≤ anchorOffset ∧ beforeCount + afterCount = pageLimit := by omega
  clear_value beforeCount
  refine ⟨by omega, by omega, hsum.1, hsum.2, by omega, ?_⟩
  generalize max limit 1 = wanted at *
  omega

/-- The page around a record is the one at the offset it reports, and has the record. -/
theorem recordsBySessionScopeAround_eq
    (hunique : ((index.sessionRecords sessionId sourcePath source).map Record.docId).Nodup)
    {recordId : String} {anchors : List Record}
    (hlookup : index.recordsByCanonicalIdInSessionScope recordId sessionId sourcePath source =
      .ok anchors)
    (hhead : anchors.head? = some anchor)
    (hanchor : anchor ∈ index.sessionRecords sessionId sourcePath source) (limit : Nat) :
    ∃ records offset,
      index.recordsBySessionScopeAround sessionId sourcePath source recordId limit =
        .ok (some (records, (index.sessionRecords sessionId sourcePath source).length, offset)) ∧
      index.recordsBySessionScopePage sessionId sourcePath source offset limit =
        .ok (records, (index.sessionRecords sessionId sourcePath source).length) ∧
      anchor ∈ records ∧
      records.length =
        min (max limit 1) (index.sessionRecords sessionId sourcePath source).length := by
  have hsorted := pairwise_inOrder index
    (sessionQuery index.fields sessionId sourcePath source none)
  obtain ⟨before, after, hsession, hbefore, hafter⟩ := session_cut hsorted hunique hanchor
  have hbeforeQuery := inOrder_some hunique (SearchIndex.predecessors anchor)
    (fun record => !decide (sessionLe anchor record)) (fun doc hdoc => by
      rw [Bool.eq_iff_iff, accepts_predecessors_iff hdoc]
      simp)
  have hafterQuery := inOrder_some hunique (SearchIndex.successors anchor)
    (fun record => decide (sessionLe anchor record)) (fun doc hdoc => by
      rw [Bool.eq_iff_iff, accepts_successors_iff hdoc]
      simp)
  replace hbeforeQuery := hbeforeQuery.trans hbefore
  replace hafterQuery := hafterQuery.trans hafter
  have hpage := recordsBySessionScopePage_eq hunique
  change index.sessionRecords sessionId sourcePath source = _ at hsession
  rw [hsession] at hpage hunique ⊢
  have htotal : index.count (sessionQuery index.fields sessionId sourcePath source none) =
      (before ++ anchor :: after).length := by
    rw [← length_inOrder, ← hsession]
    rfl
  have hoffset : index.count (sessionQuery index.fields sessionId sourcePath source
      (some (SearchIndex.predecessors anchor))) = before.length := by
    rw [← length_inOrder, hbeforeQuery]
  have hinside : before.length < (before ++ anchor :: after).length := by simp
  obtain ⟨hfirst, hsecond, hthird, hsum, hpositive, hlimit⟩ := @counts_around _ _ limit hinside
  simp only [SearchIndex.recordsBySessionScopeAround, hlookup, ok_bind, hhead, htotal, hoffset]
  generalize min (max limit 1) (before ++ anchor :: after).length = pageLimit at *
  generalize min before.length (pageLimit / 2) = beforeLimit at *
  rw [checkedSub_of_le hinside.le, ok_bind, checkedSub_of_le hfirst, ok_bind]
  generalize min ((before ++ anchor :: after).length - before.length) (pageLimit - beforeLimit) =
    afterCount at *
  rw [checkedSub_of_le hsecond, ok_bind]
  generalize min before.length (pageLimit - afterCount) = beforeCount at *
  rw [checkedSub_of_le hthird, ok_bind]
  obtain ⟨docsBefore, hdocsBefore, hrecordsBefore⟩ :=
    @topDocs_backward index (sessionQuery index.fields sessionId sourcePath source
      (some (SearchIndex.predecessors anchor))) (max beforeCount 1) (by omega) 0 (by
        rw [hbeforeQuery]
        exact hunique.sublist ((List.sublist_append_left _ _).map _))
  obtain ⟨docsAfter, hdocsAfter, hrecordsAfter⟩ :=
    @topDocs_forward index (sessionQuery index.fields sessionId sourcePath source
      (some (SearchIndex.successors anchor))) (max afterCount 1) (by omega) 0
  rw [hbeforeQuery, List.drop_zero] at hrecordsBefore
  rw [hafterQuery, List.drop_zero] at hrecordsAfter
  rw [hdocsBefore, ok_bind, hdocsAfter, ok_bind]
  have hfound : (docsBefore.take beforeCount ++ docsAfter.take afterCount).map index.recordOf =
      before.reverse.take beforeCount ++ (anchor :: after).take afterCount := by
    rw [List.map_append, List.map_take, List.map_take, hrecordsBefore, hrecordsAfter,
      List.take_take, List.take_take, Nat.min_eq_left (Nat.le_max_left _ _),
      Nat.min_eq_left (Nat.le_max_left _ _)]
  have hpart : ((before ++ anchor :: after).drop (before.length - beforeCount)).take
      (max limit 1) = ((before ++ anchor :: after).drop (before.length - beforeCount)).take
        (beforeCount + afterCount) := by
    rw [List.take_eq_take_min, List.length_drop, hlimit, hsum]
  have hperm := @part_around anchor before after beforeCount afterCount hthird
  have hrecords := sorted_part (hsession ▸ hsorted) hunique hperm
  refine ⟨_, _, rfl, ?_, ?_, ?_⟩
  · rw [hpage, hfound, hrecords, hpart]
  · apply LatestByKey.sorted_perm.mem_iff.mpr
    rw [hfound]
    apply List.mem_append_right
    obtain ⟨count, rfl⟩ := Nat.exists_eq_succ_of_ne_zero hpositive.ne'
    exact List.mem_cons_self
  · rw [hfound, hrecords, List.length_take, List.length_drop, hsum]
    omega

end Around

/-! ## The whole session -/

section Session

variable {index : SearchIndex} {sessionId : String} {sourcePath : Option String}
  {source : Option SourceKind}

/-- The first pages of a session, one after the other. -/
def SearchIndex.firstPages (index : SearchIndex) (sessionId : String)
    (sourcePath : Option String) (source : Option SourceKind) (limit : Nat) :
    Nat → Except Failure (List Record)
  | 0 => return []
  | pages + 1 => do
      let before ← index.firstPages sessionId sourcePath source limit pages
      let (records, _) ← index.recordsBySessionScopePage sessionId sourcePath source
        (pages * limit) limit
      return before ++ records

/-- Each page goes on where the last one ended. -/
theorem firstPages_eq
    (hunique : ((index.sessionRecords sessionId sourcePath source).map Record.docId).Nodup)
    {limit : Nat} (hlimit : 0 < limit) (pages : Nat) :
    index.firstPages sessionId sourcePath source limit pages =
      .ok ((index.sessionRecords sessionId sourcePath source).take (pages * limit)) := by
  induction pages with
  | zero => rw [SearchIndex.firstPages, Nat.zero_mul, List.take_zero]; rfl
  | succ pages ih =>
      have hmax : max limit 1 = limit := Nat.max_eq_left hlimit
      rw [SearchIndex.firstPages, ih, ok_bind, recordsBySessionScopePage_eq hunique, ok_bind,
        hmax, Nat.succ_mul, List.take_add]
      rfl

theorem unique_sessionRecords
    (hunique : ((index.found (sessionQuery index.fields sessionId sourcePath source none)).map
      fun doc => doc.getU64 .docId).Nodup) :
    ((index.sessionRecords sessionId sourcePath source).map Record.docId).Nodup := by
  apply (LatestByKey.sorted_perm.map _).nodup_iff.mpr
  rw [List.map_map]
  exact hunique

/-- A session stands in the order of turn, time and document, its pages are its parts one after
the other, and the page around a record is the page at the offset that is reported. -/
theorem session_pages (index : SearchIndex) (sessionId : String) (sourcePath : Option String)
    (source : Option SourceKind)
    (hunique : ((index.found (sessionQuery index.fields sessionId sourcePath source none)).map
      fun doc => doc.getU64 .docId).Nodup) :
    let session := index.sessionRecords sessionId sourcePath source
    let page := index.recordsBySessionScopePage sessionId sourcePath source
    session.Pairwise (fun left right => sessionOrder left right = .lt) ∧
    session.Perm ((index.found (sessionQuery index.fields sessionId sourcePath source none)).map
      index.recordOf) ∧
    (∀ offset limit, 0 < limit →
      page offset limit = .ok ((session.drop offset).take limit, session.length)) ∧
    (∀ limit pages, 0 < limit → session.length ≤ pages * limit →
      index.firstPages sessionId sourcePath source limit pages = .ok session) ∧
    ∀ recordId limit, 0 < limit → ∃ anchors,
      index.recordsByCanonicalIdInSessionScope recordId sessionId sourcePath source =
        .ok anchors ∧
      (anchors = [] → index.recordsBySessionScopeAround sessionId sourcePath source recordId
        limit = .ok none) ∧
      ∀ anchor ∈ anchors.head?, ∃ records offset,
        index.recordsBySessionScopeAround sessionId sourcePath source recordId limit =
          .ok (some (records, session.length, offset)) ∧
        page offset limit = .ok (records, session.length) ∧ anchor ∈ records ∧
          Retrieval.canonicalRecordId index.readers.digest anchor = recordId ∧
            records.length = min limit session.length := by
  intro session page
  have hrecords := unique_sessionRecords hunique
  refine ⟨?_, LatestByKey.sorted_perm, ?_, ?_, ?_⟩
  · have hne : session.Pairwise fun left right => left.docId ≠ right.docId :=
      List.pairwise_map.mp hrecords
    apply ((pairwise_inOrder index _).and hne).imp
    rintro left right ⟨hle, hapart⟩
    rw [sessionOrder, Ordering.then_eq_lt, Ordering.then_eq_lt, Nat.compare_eq_lt,
      Nat.compare_eq_lt, Nat.compare_eq_lt, Nat.compare_eq_eq, Nat.compare_eq_eq]
    rw [sessionLe_iff] at hle
    omega
  · intro offset limit hlimit
    have hpage := recordsBySessionScopePage_eq hrecords offset limit
    rwa [Nat.max_eq_left hlimit] at hpage
  · intro limit pages hlimit hcovers
    rw [firstPages_eq hrecords hlimit, List.take_of_length_le hcovers]
  · intro recordId limit hlimit
    obtain ⟨anchors, hlookup, hanchors⟩ := recordsByCanonicalIdInSessionScope_eq index recordId
      sessionId sourcePath source
    refine ⟨anchors, hlookup, ?_, ?_⟩
    · rintro rfl
      rw [SearchIndex.recordsBySessionScopeAround, hlookup]
      rfl
    · intro anchor hhead
      obtain ⟨hmem, hid⟩ := hanchors anchor (List.mem_of_mem_head? hhead)
      obtain ⟨records, offset, haround, hpage, hin, hlength⟩ :=
        recordsBySessionScopeAround_eq hrecords hlookup hhead hmem limit
      rw [Nat.max_eq_left hlimit] at hlength
      exact ⟨records, offset, haround, hpage, hin, hid, hlength⟩

end Session

/-! ## A session of two records -/

/-- A record of a session, without a text. -/
def turnRecord (docId turnId : Nat) : Record :=
  { source := .codex, docId, turnId, sessionId := "session", sourcePath := "session.jsonl" }

/-- An index of two records that were added in the reverse order. -/
def twoRecords : SearchIndex where
  fields := {}
  docs := [addRecordOwned plainReaders {} (turnRecord 1 2),
    addRecordOwned plainReaders {} (turnRecord 2 1)]
  stored doc hmem := by
    have hfields : IndexFields.Named {} := ⟨rfl, rfl, rfl⟩
    obtain h | h : doc = addRecordOwned plainReaders {} (turnRecord 1 2) ∨
        doc = addRecordOwned plainReaders {} (turnRecord 2 1) := by simpa using hmem
    · rw [h]
      exact stored_addRecordOwned hfields (by decide) (by decide) (by decide)
    · rw [h]
      exact stored_addRecordOwned hfields (by decide) (by decide) (by decide)
  readers := plainReaders
  parseQuery _ := .ok .all
  relevance _ _ := 0
  fastSessionIdentity := true

/-- Its two pages of one record are the session. -/
theorem session_pages_two :
    twoRecords.firstPages "session" none none 1 2 =
      .ok (twoRecords.sessionRecords "session" none none) ∧
    (twoRecords.sessionRecords "session" none none).map Record.docId = [2, 1] := by
  refine ⟨?_, by decide +kernel⟩
  exact (session_pages twoRecords "session" none none (by decide +kernel)).2.2.2.1 1 2 (by decide)
    (by decide +kernel)

end Memex.Index
