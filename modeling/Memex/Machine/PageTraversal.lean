import Memex.Lib.StableOrder
import Memex.Machine.BoundedAgreement

/-! # Following the pages of sessions

A page of a session is a part of its records in their order. Whoever asks again at the next
offsets comes to the end of every session. -/

namespace Memex.Machine

open LineStream Retrieval

variable {digest : Bytes → String} {discoverCwd : String → String → Option String}

/-! ## The order of a session -/

/-- The records of a session in their order. -/
def sessionInOrder (index : List Record) (sessionId sourcePath : String) : List Record :=
  LatestByKey.sorted sessionOrder (sessionScope index sessionId sourcePath)

/-- No record of a session stands after one that it is before. -/
abbrev sessionLe (left right : Record) : Prop :=
  (sessionOrder left right).isLE = true

theorem sessionLe_iff {left right : Record} : sessionLe left right ↔
    left.turnId < right.turnId ∨ left.turnId = right.turnId ∧
      (left.ts < right.ts ∨ left.ts = right.ts ∧ left.docId ≤ right.docId) := by
  rw [sessionLe, sessionOrder, Ordering.isLE_then_iff_or, Ordering.isLE_then_iff_or,
    Nat.compare_eq_lt,
    Nat.compare_eq_lt, Nat.compare_eq_eq, Nat.compare_eq_eq, Nat.isLE_compare]

instance : Std.Total sessionLe where
  total left right := by
    rw [sessionLe_iff, sessionLe_iff]
    omega

instance : IsTrans Record sessionLe where
  trans left middle right := by
    simp only [sessionLe_iff]
    omega

/-- Records of one place in the order are of one document. -/
theorem docId_eq_of_sessionLe {left right : Record} (h : sessionLe left right)
    (h' : sessionLe right left) : left.docId = right.docId := by
  rw [sessionLe_iff] at h h'
  omega

/-- What is in order stands as it is sorted, whatever the order it was found in. -/
theorem sorted_eq_of_perm {found page : List Record} (hperm : found.Perm page)
    (hpage : page.Pairwise sessionLe)
    (hunique : (page.map Record.docId).Nodup) : LatestByKey.sorted sessionOrder found = page := by
  apply @List.Perm.eq_of_pairwise _ sessionLe
  · intro left right hleft hright h h'
    have hleft := (LatestByKey.sorted_perm.trans hperm).mem_iff.mp hleft
    exact List.inj_on_of_nodup_map hunique hleft hright (docId_eq_of_sessionLe h h')
  · exact List.pairwise_insertionSort _ _
  · exact hpage
  · exact LatestByKey.sorted_perm.trans hperm

/-- Sorted from the last record on, a session stands reversed. -/
theorem sorted_flip {found : List Record} (hunique : (found.map Record.docId).Nodup) :
    LatestByKey.sorted (fun left right => sessionOrder right left) found =
      (LatestByKey.sorted sessionOrder found).reverse := by
  have hreverse := List.reverse_perm (LatestByKey.sorted sessionOrder found)
  apply @List.Perm.eq_of_pairwise _ fun left right => sessionLe right left
  · intro left right hleft hright h h'
    have hleft := LatestByKey.sorted_perm.mem_iff.mp hleft
    have hright := (hreverse.trans LatestByKey.sorted_perm).mem_iff.mp hright
    exact List.inj_on_of_nodup_map hunique hleft hright (docId_eq_of_sessionLe h' h)
  · have : Std.Total fun left right => sessionLe right left :=
      ⟨fun left right => total_of sessionLe right left⟩
    have : IsTrans Record fun left right => sessionLe right left :=
      ⟨fun _ _ _ h h' => trans_of sessionLe h' h⟩
    exact List.pairwise_insertionSort _ _
  · exact List.pairwise_reverse.mpr (List.pairwise_insertionSort _ _)
  · exact LatestByKey.sorted_perm.trans (hreverse.trans LatestByKey.sorted_perm).symm

variable {snapshot : Snapshot} {request : SessionPageRequest}

theorem Snapshot.unique_scope (snapshot : Snapshot) (sessionId sourcePath : String) :
    ((sessionScope snapshot.records sessionId sourcePath).map Record.docId).Nodup :=
  snapshot.unique.sublist (List.filter_sublist.map _)

theorem Snapshot.unique_inOrder (snapshot : Snapshot) (sessionId sourcePath : String) :
    ((sessionInOrder snapshot.records sessionId sourcePath).map Record.docId).Nodup :=
  (LatestByKey.sorted_perm.map _).nodup_iff.mpr (snapshot.unique_scope sessionId sourcePath)

/-- A page is the part of the session from its offset on, wherever it is searched from. -/
theorem recordsForSessionPage_eq (snapshot : Snapshot) (request : SessionPageRequest) :
    recordsForSessionPage snapshot.records request =
      (((sessionInOrder snapshot.records request.sessionId request.sourcePath).drop
          request.offset).take (max request.limit 1),
        (sessionInOrder snapshot.records request.sessionId request.sourcePath).length) := by
  have hlength : (sessionInOrder snapshot.records request.sessionId request.sourcePath).length =
      (sessionScope snapshot.records request.sessionId request.sourcePath).length :=
    LatestByKey.sorted_perm.length_eq
  have hunique := snapshot.unique_inOrder request.sessionId request.sourcePath
  simp only [recordsForSessionPage, ← hlength]
  by_cases hpast : (sessionInOrder snapshot.records request.sessionId
      request.sourcePath).length ≤ request.offset
  · rw [if_pos hpast, List.drop_eq_nil_of_le hpast, List.take_nil]
  · rw [if_neg hpast]
    have hordered : ((sessionInOrder snapshot.records request.sessionId
        request.sourcePath).drop request.offset |>.take (max request.limit 1)).Pairwise
          sessionLe :=
      (List.pairwise_insertionSort _ _).sublist
        ((List.take_sublist _ _).trans (List.drop_sublist _ _))
    have hpage := hunique.sublist
      (((List.take_sublist (max request.limit 1) _).trans
        (List.drop_sublist request.offset _)).map Record.docId)
    congr 1
    apply sorted_eq_of_perm _ hordered hpage
    -- the page is the same from both ends of the session, in one order or the other
    rw [List.take_eq_take_min, List.length_drop]
    split
    · exact List.Perm.refl _
    · rw [topDocs, sorted_flip (snapshot.unique_scope _ _), ← sessionInOrder, List.drop_reverse,
        List.take_reverse, List.length_take]
      generalize hlimit : min (max request.limit 1) ((sessionInOrder snapshot.records
        request.sessionId request.sourcePath).length - request.offset) = pageLimit
      have hleft : (sessionInOrder snapshot.records request.sessionId
          request.sourcePath).length - ((sessionInOrder snapshot.records request.sessionId
          request.sourcePath).length - request.offset - pageLimit) =
          request.offset + pageLimit := by
        omega
      rw [hleft, Nat.min_eq_left (by omega), Nat.add_sub_cancel, List.drop_take,
        Nat.add_sub_cancel_left]
      exact List.reverse_perm _

/-! ## Bounded pages -/

/-- A bounded page is the clipped beginning of a page. -/
structure BoundedSessionPage.PageOf (page : BoundedSessionPage) (digest : Bytes → String)
    (context : SessionPageContext) : Prop where
  sessionId : page.sessionId = context.sessionId
  sourcePath : page.sourcePath = context.sourcePath
  offset : page.offset = context.offset
  total : page.total = context.total
  next : page.nextOffset = boundedNextOffset context.offset page.records.length context.total
  clips : ∃ returned : List (Record × BoundedRecord), page.records = returned.map Prod.snd ∧
    returned.map Prod.fst <+: context.records ∧
      ∀ entry ∈ returned, entry.2.ClipOf digest entry.1

/-- The characters of pages. -/
def charsOfPages (pages : List BoundedSessionPage) : Nat :=
  (pages.map fun page => charsOf page.records).sum

/-- The pages of a batch are clipped within the budget, and the first one makes progress. -/
theorem applyPagesBudget_spec (digest : Bytes → String) (budget : ReadBudget)
    (contexts : List SessionPageContext) :
    ∃ pages, applyPagesBudget digest budget contexts = .ok pages ∧
      List.Forall₂ (fun context (page : BoundedSessionPage) => page.PageOf digest context)
        contexts pages ∧
      (∀ {remaining}, budget.remaining = some remaining → charsOfPages pages ≤ remaining) ∧
      (budget.remaining ≠ some 0 → ∀ first rest, contexts = first :: rest →
        first.records ≠ [] → ∃ page others, pages = page :: others ∧ page.records ≠ []) := by
  induction contexts generalizing budget with
  | nil => exact ⟨[], rfl, .nil, fun _ => Nat.zero_le _, fun _ _ _ h => by cases h⟩
  | cons context rest ih =>
      obtain ⟨left, returned, happlied, hreturned⟩ :=
        applyBudget_spec digest id budget context.records
      obtain ⟨pages, hpages, hforall, hwithin, -⟩ := ih left
      simp only [applyPagesBudget, happlied, hpages]
      refine ⟨_, rfl, .cons ?_ hforall, ?_, ?_⟩
      · refine ⟨rfl, rfl, rfl, rfl, ?_, returned, rfl, hreturned.begins, hreturned.clipped⟩
        dsimp only
        rw [List.length_map]
      · intro remaining hremaining
        obtain ⟨hspent, hleft⟩ := hreturned.spent hremaining
        have := hwithin hleft
        have hsum : ∀ page : BoundedSessionPage,
            charsOfPages (page :: pages) = charsOf page.records + charsOfPages pages :=
          fun page => rfl
        rw [hsum]
        dsimp only
        omega
      · intro hbudget first others hcontexts hrecords
        obtain ⟨rfl, rfl⟩ := List.cons.inj hcontexts
        refine ⟨_, _, rfl, ?_⟩
        intro hnil
        exact hreturned.progress hbudget hrecords (List.map_eq_nil_iff.mp hnil)

/-- Clips of records of the session pass the loop over a page. -/
theorem validatePageRecords_eq_ok {records : List BoundedRecord} {returned : Nat}
    (hclips : ∀ bounded ∈ records, ∃ record, bounded.ClipOf digest record ∧
      outsideSession request record = false)
    (hsize : returned + charsOf records < 2 ^ 64) :
    validatePageRecords digest request returned records = .ok (returned + charsOf records) := by
  induction records generalizing returned with
  | nil => rfl
  | cons bounded rest ih =>
      obtain ⟨record, hclip, hinside⟩ := hclips bounded List.mem_cons_self
      have hchars : charsOf (bounded :: rest) =
          bounded.content.returnedChars + charsOf rest := rfl
      rw [hchars] at hsize
      have hinside : ¬ outsideSession request bounded.record = true := by
        rw [hclip.outside request, hinside]
        exact Bool.false_ne_true
      rw [validatePageRecords, if_neg (not_not.mpr hclip.canonical), if_neg hinside,
        validateContentPage_eq_ok hclip.described]
      dsimp only
      rw [checkedAdd_eq_some (by omega)]
      dsimp only
      rw [ih (fun other hother => hclips other (List.mem_cons_of_mem _ hother)) (by omega),
        hchars, Nat.add_assoc]

/-- The page that is read of a request. -/
abbrev Answers (digest : Bytes → String) (discoverCwd : String → String → Option String)
    (snapshot : Snapshot) (request : SessionPageRequest) (page : BoundedSessionPage) : Prop :=
  page.PageOf digest (sessionPageContextLocal discoverCwd snapshot.records request)

theorem sessionPageContextLocal_eq (discoverCwd : String → String → Option String)
    (snapshot : Snapshot) (request : SessionPageRequest) :
    let session := sessionInOrder snapshot.records request.sessionId request.sourcePath
    (sessionPageContextLocal discoverCwd snapshot.records request).records =
        (session.drop request.offset).take (max request.limit 1) ∧
      (sessionPageContextLocal discoverCwd snapshot.records request).total = session.length := by
  simp only [sessionPageContextLocal, recordsForSessionPage_eq, and_self]

/-- A page read of a valid request is one the request accepts. -/
theorem BoundedSessionPage.PageOf.length_le {page : BoundedSessionPage}
    (h : Answers digest discoverCwd snapshot request page) (hlimit : 0 < request.limit) :
    page.records.length ≤ request.limit ∧
      page.records.length ≤ page.total - request.offset ∧ page.total < 2 ^ 64 := by
  obtain ⟨hrecords, htotal⟩ := sessionPageContextLocal_eq discoverCwd snapshot request
  obtain ⟨returned, hpage, hbegins, -⟩ := h.clips
  rw [hrecords] at hbegins
  have hlength := hbegins.length_le
  rw [List.length_map, List.length_take, List.length_drop] at hlength
  have hcount : (sessionInOrder snapshot.records request.sessionId
      request.sourcePath).length ≤ snapshot.records.length :=
    calc
      _ = (sessionScope snapshot.records request.sessionId request.sourcePath).length :=
        LatestByKey.sorted_perm.length_eq
      _ ≤ snapshot.records.length := List.length_filter_le _ _
  have hcountable := snapshot.countable
  rw [hpage, List.length_map, h.total, htotal]
  omega

theorem BoundedSessionPage.PageOf.inside {page : BoundedSessionPage}
    (h : Answers digest discoverCwd snapshot request page) :
    ∀ bounded ∈ page.records, ∃ record, bounded.ClipOf digest record ∧
      outsideSession request record = false := by
  obtain ⟨hrecords, -⟩ := sessionPageContextLocal_eq discoverCwd snapshot request
  obtain ⟨returned, hpage, hbegins, hclips⟩ := h.clips
  rw [hrecords] at hbegins
  intro bounded hbounded
  rw [hpage] at hbounded
  obtain ⟨⟨record, clip⟩, hentry, rfl⟩ := List.mem_map.mp hbounded
  refine ⟨record, hclips _ hentry, ?_⟩
  have hmem : record ∈ sessionInOrder snapshot.records request.sessionId request.sourcePath :=
    List.mem_of_mem_drop (List.mem_of_mem_take
      (hbegins.mem (List.mem_map.mpr ⟨_, hentry, rfl⟩)))
  obtain ⟨-, hscope⟩ := List.mem_filter.mp (LatestByKey.sorted_perm.mem_iff.mp hmem)
  simp only [Bool.and_eq_true, Bool.or_eq_true, decide_eq_true_eq] at hscope
  simp only [outsideSession, hscope.1, ne_eq, not_true, decide_false, Bool.false_or,
    Bool.and_eq_false_iff, decide_eq_false_iff_not, not_not]
  exact hscope.2

/-- A page for each request passes the loop over the pages. -/
theorem validatePages_eq_ok {requests : List SessionPageRequest}
    {pages : List BoundedSessionPage} {returned : Nat}
    (hpages : List.Forall₂ (Answers digest discoverCwd snapshot) requests pages)
    (hlimits : ∀ request ∈ requests, 0 < request.limit)
    (hsize : returned + charsOfPages pages < 2 ^ 64) :
    validatePages digest returned (pages.zip requests) = .ok (returned + charsOfPages pages) := by
  induction hpages generalizing returned with
  | nil => rfl
  | @cons request page requests pages hpage hrest ih =>
      have hchars : charsOfPages (page :: pages) = charsOf page.records + charsOfPages pages :=
        rfl
      rw [hchars] at hsize
      obtain ⟨hlimit, hlength, htotal⟩ :=
        hpage.length_le (hlimits request List.mem_cons_self)
      have hsame : ¬(page.sessionId ≠ request.sessionId ∨ page.sourcePath ≠ request.sourcePath ∨
          page.offset ≠ request.offset) := by
        rintro (hsession | hpath | hoffset)
        · exact hsession hpage.sessionId
        · exact hpath hpage.sourcePath
        · exact hoffset hpage.offset
      have hpagination : validateBoundedPagination page.offset page.total page.nextOffset
          page.records.length "session-page read" = .ok () := by
        rw [hpage.next, ← hpage.total, ← hpage.offset]
        apply validateBoundedPagination_eq_ok _ _ htotal
        rw [hpage.offset]
        exact hlength
      rw [List.zip_cons_cons, validatePages, if_neg hsame, if_neg (Nat.not_lt.mpr hlimit),
        hpagination]
      dsimp only
      rw [validatePageRecords_eq_ok hpage.inside (by omega)]
      dsimp only
      rw [ih (fun other hother => hlimits other (List.mem_cons_of_mem _ hother)) (by omega),
        hchars, Nat.add_assoc]

/-! ## Reads of pages -/

theorem validateSessionPageRequest_eq_ok :
    validateSessionPageRequest request = .ok () ↔
      request.sessionId ≠ "" ∧ 0 < request.limit ∧ request.limit ≤ maxSessionPageSize := by
  rw [validateSessionPageRequest]
  split
  · next h => exact iff_of_false nofun fun h' => h'.1 h
  · next hsession =>
    split
    · exact iff_of_false nofun fun h => by omega
    · split
      · exact iff_of_false nofun fun h => by omega
      · exact iff_of_true rfl ⟨hsession, by omega, by omega⟩

theorem forM_validate_eq_ok {requests : List SessionPageRequest} :
    requests.forM validateSessionPageRequest = .ok () ↔
      ∀ request ∈ requests, validateSessionPageRequest request = .ok () := by
  induction requests with
  | nil => exact iff_of_true rfl nofun
  | cons request rest ih =>
      rw [List.forall_mem_cons, ← ih]
      simp only [List.forM]
      cases validateSessionPageRequest request with
      | error message => exact iff_of_false nofun fun h => by cases h.1
      | ok _ => exact ⟨fun h => ⟨rfl, h⟩, fun h => h.2⟩

theorem validateSessionBatch_eq_ok {requests : List SessionPageRequest} :
    validateSessionBatch requests = .ok () ↔ requests.length ≤ maxSessionBatchSize ∧
      ∀ request ∈ requests, validateSessionPageRequest request = .ok () := by
  rw [validateSessionBatch]
  split
  · exact iff_of_false nofun fun h => by omega
  · rw [forM_validate_eq_ok]
    exact ⟨fun h => ⟨by omega, h⟩, fun h => h.2⟩

/-- A valid batch is served: a page for each request, within the budget, and records on the first
page if there are any. -/
theorem serveReadSessionPages_spec (digest : Bytes → String)
    (discoverCwd : String → String → Option String) (snapshot : Snapshot)
    {requests : List SessionPageRequest} (hvalid : validateSessionBatch requests = .ok ())
    (maxChars : Nat) :
    ∃ pages, serveReadSessionPages digest discoverCwd snapshot.records requests maxChars =
        .ok pages ∧
      List.Forall₂ (Answers digest discoverCwd snapshot) requests pages ∧
      charsOfPages pages ≤ maxChars ∧
      (0 < maxChars → ∀ first rest, requests = first :: rest →
        (sessionPageContextLocal discoverCwd snapshot.records first).records ≠ [] →
          ∃ page others, pages = page :: others ∧ page.records ≠ []) := by
  obtain ⟨pages, hpages, hforall, hwithin, hprogress⟩ := applyPagesBudget_spec digest
    { remaining := some maxChars }
    (requests.map (sessionPageContextLocal discoverCwd snapshot.records))
  rw [List.forall₂_map_left_iff] at hforall
  refine ⟨pages, ?_, hforall, hwithin rfl, ?_⟩
  · rw [serveReadSessionPages, hvalid]
    exact hpages
  · rintro hpos first rest rfl hrecords
    apply hprogress _ _ _ rfl hrecords
    intro hzero
    have := Option.some.inj hzero
    omega

/-- Bounded pages are accepted and within their budget. -/
theorem serveReadSessionPages_accepted {requests : List SessionPageRequest} {maxChars : Nat}
    {pages : List BoundedSessionPage} (hsize : maxChars < 2 ^ 64)
    (h : serveReadSessionPages digest discoverCwd snapshot.records requests maxChars =
      .ok pages) :
    validateBoundedSessionPages digest pages requests (some maxChars) = .ok () ∧
      charsOfPages pages ≤ maxChars := by
  have hvalid : validateSessionBatch requests = .ok () := by
    rw [serveReadSessionPages] at h
    split at h
    · cases h
    · next hvalid => exact hvalid
  obtain ⟨served, hserved, hforall, hwithin, -⟩ :=
    serveReadSessionPages_spec digest discoverCwd snapshot hvalid maxChars
  obtain rfl := Except.ok.inj (hserved.symm.trans h)
  refine ⟨?_, hwithin⟩
  have hlimits : ∀ request ∈ requests, 0 < request.limit := fun request hrequest =>
    (validateSessionPageRequest_eq_ok.mp
      ((validateSessionBatch_eq_ok.mp hvalid).2 request hrequest)).2.1
  rw [validateBoundedSessionPages, if_neg (not_not.mpr hforall.length_eq.symm),
    validatePages_eq_ok hforall hlimits (by omega)]
  apply if_neg
  rw [Option.any_some, decide_eq_true_eq]
  omega

/-! ## Following the next offsets -/

/-- A session that is read page by page: what to ask next and what was read. -/
structure PageCursor where
  request : SessionPageRequest
  visited : List BoundedRecord := []
  done : Bool := false

/-- The next page is asked for at its next offset, and none when it has none. -/
def PageCursor.advance (cursor : PageCursor) (page : BoundedSessionPage) : PageCursor where
  request := { cursor.request with offset := page.nextOffset.getD cursor.request.offset }
  visited := cursor.visited ++ page.records
  done := page.nextOffset.isNone

/-- Each session that is not read yet is advanced by its page. -/
def advanceAll : List PageCursor → List BoundedSessionPage → List PageCursor
  | [], _ => []
  | cursor :: rest, pages =>
      if cursor.done then cursor :: advanceAll rest pages
      else
        match pages with
        | [] => cursor :: rest
        | page :: pages => cursor.advance page :: advanceAll rest pages

/-- The requests of the next round. -/
def pendingRequests (cursors : List PageCursor) : List SessionPageRequest :=
  (cursors.filter fun cursor => !cursor.done).map PageCursor.request

/-- Ask for pages, with a budget for each round, until no session has a next one. -/
def followPages
    (serve : List SessionPageRequest → Nat → Except String (List BoundedSessionPage))
    (budget : Nat → Nat) : Nat → List PageCursor → Option (List PageCursor)
  | 0, cursors => if cursors.all PageCursor.done then some cursors else none
  | rounds + 1, cursors =>
      if cursors.all PageCursor.done then some cursors
      else
        match serve (pendingRequests cursors) (budget rounds) with
        | .error _ => none
        | .ok pages => followPages serve budget rounds (advanceAll cursors pages)

/-- What is read of a session is its beginning, and all of it when nothing is asked any more. -/
structure PageCursor.Follows (cursor : PageCursor) (digest : Bytes → String)
    (snapshot : Snapshot) (request : SessionPageRequest) : Prop where
  same : ∃ offset, cursor.request = { request with offset }
  read : List.Forall₂ (fun record (bounded : BoundedRecord) => bounded.ClipOf digest record)
    ((sessionInOrder snapshot.records request.sessionId request.sourcePath).take
      cursor.visited.length) cursor.visited
  atOffset : cursor.done = false → cursor.request.offset = cursor.visited.length
  complete : cursor.done = true → cursor.visited.length =
    (sessionInOrder snapshot.records request.sessionId request.sourcePath).length

/-- What is left to be asked of a session. -/
def unread (snapshot : Snapshot) (cursor : PageCursor) : Nat :=
  if cursor.done then 0
  else
    (sessionInOrder snapshot.records cursor.request.sessionId
      cursor.request.sourcePath).length - cursor.visited.length + 1

/-- The records of a page are those of the session behind what is read. -/
theorem BoundedSessionPage.PageOf.kept {page : BoundedSessionPage}
    (h : Answers digest discoverCwd snapshot request page) :
    let session := sessionInOrder snapshot.records request.sessionId request.sourcePath
    List.Forall₂ (fun record (bounded : BoundedRecord) => bounded.ClipOf digest record)
        ((session.drop request.offset).take page.records.length) page.records ∧
      page.records.length ≤ session.length - request.offset ∧
      page.nextOffset = boundedNextOffset request.offset page.records.length session.length ∧
      (request.offset < session.length →
        (sessionPageContextLocal discoverCwd snapshot.records request).records ≠ []) := by
  obtain ⟨hrecords, htotal⟩ := sessionPageContextLocal_eq discoverCwd snapshot request
  obtain ⟨returned, hpage, hbegins, hclips⟩ := h.clips
  have hnext := h.next
  rw [htotal] at hnext
  rw [hrecords] at hbegins ⊢
  have hlength := hbegins.length_le
  rw [List.length_map, List.length_take, List.length_drop] at hlength
  have hkept := List.prefix_iff_eq_take.mp hbegins
  rw [List.length_map, List.take_take, Nat.min_eq_left (by omega)] at hkept
  refine ⟨?_, ?_, hnext, ?_⟩
  · rw [hpage, List.length_map, ← hkept, List.forall₂_map_left_iff, List.forall₂_map_right_iff,
      List.forall₂_same]
    exact hclips
  · rw [hpage, List.length_map]
    omega
  · intro hinside hnil
    have := congrArg List.length hnil
    rw [List.length_take, List.length_drop, List.length_nil] at this
    omega

/-- A page brings a session forward. -/
theorem PageCursor.Follows.advance {cursor : PageCursor} {page : BoundedSessionPage}
    (h : cursor.Follows digest snapshot request) (hpending : cursor.done = false)
    (hpage : Answers digest discoverCwd snapshot cursor.request page) :
    (cursor.advance page).Follows digest snapshot request ∧
      unread snapshot (cursor.advance page) ≤ unread snapshot cursor ∧
      (((sessionPageContextLocal discoverCwd snapshot.records cursor.request).records ≠ [] →
        page.records ≠ []) → unread snapshot (cursor.advance page) < unread snapshot cursor) := by
  obtain ⟨offset, hsame⟩ := h.same
  obtain ⟨hkept, hlength, hnext, hmore⟩ := hpage.kept
  have hread := h.read.length_eq
  rw [List.length_take] at hread
  rw [h.atOffset hpending] at hkept hlength hnext hmore
  have hsession : sessionInOrder snapshot.records cursor.request.sessionId
      cursor.request.sourcePath =
        sessionInOrder snapshot.records request.sessionId request.sourcePath := by
    rw [hsame]
  rw [hsession] at hkept hlength hnext hmore
  have hunread : unread snapshot cursor = (sessionInOrder snapshot.records request.sessionId
      request.sourcePath).length - cursor.visited.length + 1 := by
    rw [unread, hpending, hsession]
    rfl
  have hvisited : (cursor.advance page).visited = cursor.visited ++ page.records := rfl
  have hboth : List.Forall₂ (fun record (bounded : BoundedRecord) => bounded.ClipOf digest record)
      ((sessionInOrder snapshot.records request.sessionId request.sourcePath).take
        (cursor.advance page).visited.length) (cursor.advance page).visited := by
    rw [hvisited, List.length_append, List.take_add]
    exact List.rel_append h.read hkept
  by_cases hend : cursor.visited.length + page.records.length <
      (sessionInOrder snapshot.records request.sessionId request.sourcePath).length
  · rw [boundedNextOffset, if_pos hend] at hnext
    have hdone : (cursor.advance page).done = false := by
      rw [PageCursor.advance, hnext]
      rfl
    have hoffset : (cursor.advance page).request =
        { request with offset := cursor.visited.length + page.records.length } := by
      rw [PageCursor.advance, hnext, hsame]
      rfl
    have hleft : unread snapshot (cursor.advance page) = (sessionInOrder snapshot.records
        request.sessionId request.sourcePath).length -
          (cursor.visited.length + page.records.length) + 1 := by
      rw [unread, hdone, hoffset, hvisited, List.length_append]
      rfl
    rw [hleft, hunread]
    refine ⟨⟨⟨_, hoffset⟩, hboth, fun _ => ?_, fun h => ?_⟩, by omega, fun hprogress => ?_⟩
    · rw [hoffset, hvisited, List.length_append]
    · rw [hdone] at h
      cases h
    · have := List.length_pos_of_ne_nil (hprogress (hmore (by omega)))
      omega
  · rw [boundedNextOffset, if_neg hend] at hnext
    have hdone : (cursor.advance page).done = true := by
      rw [PageCursor.advance, hnext]
      rfl
    have hleft : unread snapshot (cursor.advance page) = 0 := by
      rw [unread, hdone]
      rfl
    rw [hleft, hunread]
    refine ⟨⟨⟨offset, ?_⟩, hboth, fun h => ?_, fun _ => ?_⟩, by omega, fun _ => by omega⟩
    · rw [PageCursor.advance, hnext, hsame]
      rfl
    · rw [hdone] at h
      cases h
    · rw [hvisited, List.length_append]
      omega

/-- What is left to be asked of all sessions. -/
def unreadOf (snapshot : Snapshot) (cursors : List PageCursor) : Nat :=
  (cursors.map (unread snapshot)).sum

theorem unreadOf_cons (cursor : PageCursor) (rest : List PageCursor) :
    unreadOf snapshot (cursor :: rest) = unread snapshot cursor + unreadOf snapshot rest :=
  rfl

theorem pendingRequests_of_done {cursor : PageCursor} (h : cursor.done = true)
    (rest : List PageCursor) : pendingRequests (cursor :: rest) = pendingRequests rest := by
  rw [pendingRequests, List.filter_cons_of_neg (by simp [h])]
  rfl

theorem pendingRequests_of_pending {cursor : PageCursor} (h : cursor.done = false)
    (rest : List PageCursor) :
    pendingRequests (cursor :: rest) = cursor.request :: pendingRequests rest := by
  rw [pendingRequests, List.filter_cons_of_pos (by simp [h])]
  rfl

theorem advanceAll_of_done {cursor : PageCursor} (h : cursor.done = true)
    (rest : List PageCursor) (pages : List BoundedSessionPage) :
    advanceAll (cursor :: rest) pages = cursor :: advanceAll rest pages := by
  cases pages with
  | nil => exact if_pos h
  | cons page pages => exact if_pos h

theorem advanceAll_of_pending {cursor : PageCursor} (h : cursor.done = false)
    (rest : List PageCursor) (page : BoundedSessionPage) (pages : List BoundedSessionPage) :
    advanceAll (cursor :: rest) (page :: pages) =
      cursor.advance page :: advanceAll rest pages :=
  if_neg (by simp [h])

/-- Pages for what is asked bring all sessions forward, and the first page with records brings
them nearer to their end. -/
theorem advanceAll_spec {requests : List SessionPageRequest} {cursors : List PageCursor}
    {pages : List BoundedSessionPage}
    (hfollows : List.Forall₂ (fun request (cursor : PageCursor) =>
      cursor.Follows digest snapshot request) requests cursors)
    (hpages : List.Forall₂ (Answers digest discoverCwd snapshot) (pendingRequests cursors)
      pages) :
    List.Forall₂ (fun request (cursor : PageCursor) => cursor.Follows digest snapshot request)
        requests (advanceAll cursors pages) ∧
      unreadOf snapshot (advanceAll cursors pages) ≤ unreadOf snapshot cursors ∧
      (pendingRequests cursors ≠ [] →
        (∀ first rest, pendingRequests cursors = first :: rest →
          (sessionPageContextLocal discoverCwd snapshot.records first).records ≠ [] →
            ∃ page others, pages = page :: others ∧ page.records ≠ []) →
        unreadOf snapshot (advanceAll cursors pages) < unreadOf snapshot cursors) := by
  induction hfollows generalizing pages with
  | nil => exact ⟨.nil, Nat.le_refl _, fun h => absurd rfl h⟩
  | @cons request cursor requests cursors hcursor hrest ih =>
      cases hdone : cursor.done with
      | true =>
          rw [pendingRequests_of_done hdone] at hpages ⊢
          obtain ⟨hforall, hle, hlt⟩ := ih hpages
          rw [advanceAll_of_done hdone, unreadOf_cons, unreadOf_cons]
          refine ⟨.cons hcursor hforall, by omega, fun hsome hprogress => ?_⟩
          have := hlt hsome hprogress
          omega
      | false =>
          rw [pendingRequests_of_pending hdone] at hpages ⊢
          cases hpages with
          | @cons _ page _ pages hpage hothers =>
              obtain ⟨hforall, hle, -⟩ := ih hothers
              obtain ⟨hadvanced, hnear, hnearer⟩ := hcursor.advance hdone hpage
              rw [advanceAll_of_pending hdone, unreadOf_cons, unreadOf_cons]
              refine ⟨.cons hadvanced hforall, by omega, fun _ hprogress => ?_⟩
              have := hnearer fun hrecords => by
                obtain ⟨first, others, heq, hne⟩ := hprogress _ _ rfl hrecords
                obtain ⟨rfl, rfl⟩ := List.cons.inj heq
                exact hne
              omega

/-- Valid requests stay valid at any offset. -/
theorem validateSessionBatch_pending {requests : List SessionPageRequest}
    {cursors : List PageCursor} (hvalid : validateSessionBatch requests = .ok ())
    (hfollows : List.Forall₂ (fun request (cursor : PageCursor) =>
      cursor.Follows digest snapshot request) requests cursors) :
    validateSessionBatch (pendingRequests cursors) = .ok () := by
  rw [validateSessionBatch_eq_ok] at hvalid ⊢
  constructor
  · have hlength := hfollows.length_eq
    have := List.length_filter_le (fun cursor : PageCursor => !cursor.done) cursors
    rw [pendingRequests, List.length_map]
    omega
  · intro pending hpending
    obtain ⟨cursor, hcursor, rfl⟩ := List.mem_map.mp hpending
    obtain ⟨position, hposition, hat⟩ :=
      List.mem_iff_getElem.mp (List.mem_filter.mp hcursor).1
    have hlength := hfollows.length_eq
    obtain ⟨offset, hsame⟩ := (hfollows.get (by omega) hposition).same
    have hrequest := hvalid.2 _ (List.getElem_mem (by omega : position < requests.length))
    rw [validateSessionPageRequest_eq_ok] at hrequest ⊢
    rw [List.get_eq_getElem, hat] at hsame
    rw [hsame]
    exact hrequest

variable (discoverCwd) in
/-- Enough rounds read all sessions to their end, whatever the positive budgets are. -/
theorem followPages_spec {requests : List SessionPageRequest} {budget : Nat → Nat}
    (hvalid : validateSessionBatch requests = .ok ()) (hbudget : ∀ round, 0 < budget round)
    {cursors : List PageCursor} {rounds : Nat}
    (hfollows : List.Forall₂ (fun request (cursor : PageCursor) =>
      cursor.Follows digest snapshot request) requests cursors)
    (henough : unreadOf snapshot cursors ≤ rounds) :
    ∃ final, followPages (serveReadSessionPages digest discoverCwd snapshot.records) budget
        rounds cursors = some final ∧ final.all PageCursor.done = true ∧
      List.Forall₂ (fun request (cursor : PageCursor) => cursor.Follows digest snapshot request)
        requests final := by
  induction rounds generalizing cursors with
  | zero =>
      have hall : cursors.all PageCursor.done = true := by
        rw [List.all_eq_true]
        intro cursor hcursor
        have hzero : unread snapshot cursor = 0 :=
          List.sum_eq_zero_iff_forall_eq_nat.mp (Nat.le_zero.mp henough) _
            (List.mem_map_of_mem hcursor)
        rw [unread] at hzero
        split at hzero
        · next hdone => exact hdone
        · omega
      exact ⟨cursors, if_pos hall, hall, hfollows⟩
  | succ rounds ih =>
      by_cases hall : cursors.all PageCursor.done = true
      · exact ⟨cursors, if_pos hall, hall, hfollows⟩
      · obtain ⟨pages, hserved, hpages, -, hprogress⟩ :=
          serveReadSessionPages_spec digest discoverCwd snapshot
            (validateSessionBatch_pending hvalid hfollows) (budget rounds)
        have hpending : pendingRequests cursors ≠ [] := by
          intro hnil
          apply hall
          rw [pendingRequests, List.map_eq_nil_iff, List.filter_eq_nil_iff] at hnil
          rw [List.all_eq_true]
          intro cursor hcursor
          simpa using hnil cursor hcursor
        obtain ⟨hadvanced, -, hnearer⟩ := advanceAll_spec hfollows hpages
        have hlt := hnearer hpending (hprogress (hbudget rounds))
        obtain ⟨final, hfinal, hdone, hend⟩ := ih hadvanced (by omega)
        refine ⟨final, ?_, hdone, hend⟩
        rw [followPages, if_neg hall, hserved]
        exact hfinal

/-- A session of which nothing is asked any more is read as a whole. -/
theorem PageCursor.Follows.whole {cursor : PageCursor}
    (h : cursor.Follows digest snapshot request) (hdone : cursor.done = true) :
    List.Forall₂ (fun record (bounded : BoundedRecord) => bounded.ClipOf digest record)
      (sessionInOrder snapshot.records request.sessionId request.sourcePath) cursor.visited := by
  have hread := h.read
  rw [h.complete hdone, List.take_length] at hread
  exact hread

theorem read_of_done {requests : List SessionPageRequest} {cursors : List PageCursor}
    (hread : List.Forall₂ (fun request (cursor : PageCursor) =>
      cursor.Follows digest snapshot request) requests cursors)
    (hdone : cursors.all PageCursor.done = true) :
    List.Forall₂ (fun request (cursor : PageCursor) => cursor.done = true ∧
      ∃ session, session.Perm
          (sessionScope snapshot.records request.sessionId request.sourcePath) ∧
        List.Forall₂ (fun record (bounded : BoundedRecord) => bounded.ClipOf digest record)
          session cursor.visited) requests cursors := by
  induction hread with
  | nil => exact .nil
  | cons hcursor _ ih =>
      rw [List.all_cons, Bool.and_eq_true] at hdone
      exact .cons ⟨hdone.1, _, LatestByKey.sorted_perm, hcursor.whole hdone.1⟩ (ih hdone.2)

/-! ## Both sides of a bounded read -/

/-- The two sides of every bounded read. Records and session pages are accepted and within the
budget; so is a context, unless it starts at an anchor that its selector does not match. Who
follows the next offsets reads every record of every session once, and comes to an end. -/
theorem bounded_reads_agree_iff (digest : Bytes → String)
    (discoverCwd : String → String → Option String) (snapshot : Snapshot) (maxChars : Nat)
    (hpos : 0 < maxChars) (hsize : maxChars < 2 ^ 64) :
    (∀ selector field offsetChars bounded,
      serveReadRecord digest snapshot.records selector field offsetChars maxChars = .ok bounded →
        validateBoundedRecord digest bounded selector (some maxChars) = .ok () ∧
          contentChars bounded.record ≤ maxChars) ∧
    (∀ selector options offset bounded,
      serveReadContext digest snapshot.records selector options offset maxChars = .ok bounded →
        charsOfContext bounded.records ≤ maxChars ∧
          (validateBoundedContext digest bounded selector offset (some maxChars) = .ok () ↔
            (offset = 0 → keepsSelected digest snapshot.records selector = true))) ∧
    (∀ requests pages,
      serveReadSessionPages digest discoverCwd snapshot.records requests maxChars = .ok pages →
        validateBoundedSessionPages digest pages requests (some maxChars) = .ok () ∧
          charsOfPages pages ≤ maxChars) ∧
    (∀ requests budget, validateSessionBatch requests = .ok () →
      (∀ request ∈ requests, request.offset = 0) → (∀ round, 0 < budget round) →
        ∃ rounds cursors,
          followPages (serveReadSessionPages digest discoverCwd snapshot.records) budget rounds
            (requests.map fun request => { request }) = some cursors ∧
          List.Forall₂ (fun request (cursor : PageCursor) => cursor.done = true ∧
            ∃ session, session.Perm
                (sessionScope snapshot.records request.sessionId request.sourcePath) ∧
              List.Forall₂ (fun record (bounded : BoundedRecord) =>
                bounded.ClipOf digest record) session cursor.visited) requests cursors) := by
  refine ⟨fun _ _ _ _ h => serveReadRecord_accepted h,
    fun _ _ _ _ h => serveReadContext_accepted_iff hpos hsize snapshot.countable h,
    fun _ _ h => serveReadSessionPages_accepted hsize h, ?_⟩
  intro requests budget hvalid hstart hbudget
  have hfollows : List.Forall₂ (fun request (cursor : PageCursor) =>
      cursor.Follows digest snapshot request) requests
        (requests.map fun request => { request }) := by
    rw [List.forall₂_map_right_iff, List.forall₂_same]
    intro request hrequest
    exact ⟨⟨request.offset, rfl⟩, .nil, fun _ => hstart request hrequest, fun h => by cases h⟩
  obtain ⟨cursors, hcursors, hdone, hread⟩ :=
    followPages_spec discoverCwd hvalid hbudget hfollows (Nat.le_refl _)
  exact ⟨_, cursors, hcursors, read_of_done hread hdone⟩

/-- A session with two blocks of reasoning of one message. -/
def twoThoughts : Snapshot where
  records :=
    [{ source := .pi, docId := 1, ts := 5, sessionId := "s", turnId := 1, role := "reasoning",
       text := "first", links := { eventId := some "m:reasoning" }, sourcePath := "/s.jsonl" },
     { source := .pi, docId := 2, ts := 5, sessionId := "s", turnId := 2, role := "reasoning",
       text := "second", links := { eventId := some "m:reasoning" }, sourcePath := "/s.jsonl" }]
  unique := by decide
  countable := by decide

/-- The kept one of them is read and accepted, and the pages of the session come to their end. -/
theorem bounded_reads_agree_kept :
    (∃ bounded, serveReadContext (fun _ => "0") twoThoughts.records (.docId 2 none none) {} 0 4 =
        .ok bounded ∧
      validateBoundedContext (fun _ => "0") bounded (.docId 2 none none) 0 (some 4) = .ok ()) ∧
    ∃ rounds cursors,
      followPages (serveReadSessionPages (fun _ => "0") (fun _ _ => none) twoThoughts.records)
        (fun _ => 4) rounds [{ request := ⟨"s", "", 0, 1⟩ }] = some cursors := by
  have hagree := bounded_reads_agree_iff (fun _ => "0") (fun _ _ => none) twoThoughts 4
    (by decide) (by decide)
  constructor
  · have hserved : ∃ bounded, serveReadContext (fun _ => "0") twoThoughts.records
        (.docId 2 none none) {} 0 4 = .ok bounded := by
      refine ⟨_, rfl⟩
    obtain ⟨bounded, hbounded⟩ := hserved
    exact ⟨bounded, hbounded, (hagree.2.1 _ _ _ _ hbounded).2.mpr fun _ => by decide +kernel⟩
  · obtain ⟨rounds, cursors, hcursors, -⟩ := hagree.2.2.2 [⟨"s", "", 0, 1⟩] (fun _ => 4)
      (by decide +kernel) (by decide) (fun _ => by decide)
    exact ⟨rounds, cursors, hcursors⟩

/-- The context of the other one starts at the kept one, which the other side refuses. -/
theorem context_of_older_copy_is_refused :
    ∃ bounded, serveReadContext (fun _ => "0") twoThoughts.records (.docId 1 none none) {} 0 4 =
        .ok bounded ∧
      validateBoundedContext (fun _ => "0") bounded (.docId 1 none none) 0 (some 4) =
        .error "context read returned the wrong anchor record" := by
  refine ⟨_, rfl, ?_⟩
  decide +kernel

end Memex.Machine
