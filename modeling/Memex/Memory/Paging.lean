import Memex.Memory.Reads
import Memex.Memory.SectionRanges

/-! # Pages of one version

A client goes on with the version and the section of the answer before. What it gets then is the
next page of the same text, or an answer that says that the version changed. -/

namespace Memex.Memory

open Sources Machine

theorem bind_eq_ok {ε α β : Type} {first : Except ε α} {next : α → Except ε β} {value : β} :
    first.bind next = .ok value ↔ ∃ between, first = .ok between ∧ next between = .ok value := by
  cases first with
  | error error =>
      constructor
      · intro h
        cases h
      · rintro ⟨_, h, -⟩
        cases h
  | ok between =>
      constructor
      · exact fun h => ⟨between, rfl, h⟩
      · rintro ⟨_, hbetween, h⟩
        cases hbetween
        exact h

/-! ## References -/

theorem splitColon_append {front : List Char} (h : ':' ∉ front) (back : List Char) :
    splitColon (front ++ ':' :: back) = some (front, back) := by
  have hfront : ∀ symbol ∈ front, decide (symbol ≠ ':') = true := by
    intro symbol hsymbol
    apply decide_eq_true
    rintro rfl
    exact h hsymbol
  rw [splitColon, if_pos (List.mem_append_right _ List.mem_cons_self),
    List.takeWhile_append_of_pos hfront, List.dropWhile_append_of_pos hfront]
  simp

theorem splitColon_eq_some {text front back : List Char}
    (h : splitColon text = some (front, back)) :
    ':' ∉ front := by
  rw [splitColon] at h
  split at h
  · obtain ⟨rfl, -⟩ := Prod.mk.inj (Option.some.inj h)
    intro hmem
    simpa using List.mem_takeWhile_imp hmem
  · cases h

/-- A reference that was understood is written the same way again. -/
theorem parseSectionRef_makeSectionRef {sectionRef version sectionId : String}
    (h : parseSectionRef sectionRef = .ok (version, sectionId)) :
    parseSectionRef (makeSectionRef version sectionId) = .ok (version, sectionId) := by
  rw [parseSectionRef] at h
  split at h
  · cases h
  split at h
  · cases h
  next start rest _ front back hsplit =>
    split at h
    next hgood =>
      have hpair := Prod.mk.inj (Except.ok.inj h)
      have hversion : version.toList = front := by rw [← hpair.1, String.toList_ofList]
      have hsection : sectionId.toList = back := by rw [← hpair.2, String.toList_ofList]
      rw [Bool.and_eq_true, Bool.and_eq_true, decide_eq_true_iff, decide_eq_true_iff,
        decide_eq_true_iff] at hgood
      have htext : (makeSectionRef version sectionId).toList =
          sectionRefStart.toList ++ ':' :: (front ++ ':' :: back) := by
        rw [makeSectionRef, String.toList_append, String.toList_append, String.toList_append,
          String.toList_append, hversion, hsection, List.append_assoc, List.append_assoc,
          List.append_assoc]
        rfl
      have hstart : ':' ∉ sectionRefStart.toList := by decide
      simp only [parseSectionRef, htext, splitColon_append hstart,
        splitColon_append (splitColon_eq_some hsplit)]
      rw [if_pos]
      · rw [← hversion, ← hsection, String.ofList_toList, String.ofList_toList]
      · simp [hgood.1.2, hgood.2]
    next => cases h

/-! ## One answer -/

section Answers

variable {parsers : Parsers} {view view' : SourceView} {request : MemoryReadRequest}
  {value value' : MemoryReadValue} {served : Served} {selected : Option MemorySection}

/-- What an answer was made from. -/
structure Answered (parsers : Parsers) (view : SourceView) (request : MemoryReadRequest)
    (value : MemoryReadValue) (served : Served) (parsedRef : Option (String × String))
    (selected : Option MemorySection) : Prop where
  valid : request.validate = .ok ()
  source : servedFor parsers view request.memoryId = .ok served
  parsed : request.sectionRef.mapM parseSectionRef = .ok parsedRef
  stale : changedSinceSearch request parsedRef served = true → selected = none
  chosen : changedSinceSearch request parsedRef served = false →
    selectSection request served.document parsedRef = .ok selected
  inside : (if changedSinceSearch request parsedRef served then 0 else request.offsetChars) ≤
    charCount (fullText served.document selected)
  page : value = pageValue served selected (changedSinceSearch request parsedRef served)
    (if changedSinceSearch request parsedRef served then 0 else request.offsetChars)
    request.maxChars

/-- What an answer says is known from what it was made from. -/
theorem readMemory_eq_ok : readMemory parsers view request = .ok value ↔
    ∃ served parsedRef selected,
      Answered parsers view request value served parsedRef selected := by
  constructor
  · intro h
    obtain ⟨⟨⟩, hvalid, h⟩ := bind_eq_ok.mp h
    obtain ⟨served, hserved, h⟩ := bind_eq_ok.mp h
    obtain ⟨parsedRef, hparsed, h⟩ := bind_eq_ok.mp h
    obtain ⟨selected, hselected, h⟩ := bind_eq_ok.mp h
    have hinside : ¬charCount (fullText served.document selected) <
        if changedSinceSearch request parsedRef served then 0 else request.offsetChars := by
      intro hpast
      dsimp only at h
      rw [if_pos hpast] at h
      cases h
    dsimp only at h
    rw [if_neg hinside] at h
    refine ⟨served, parsedRef, selected, hvalid, hserved, hparsed, ?_, ?_, Nat.not_lt.mp hinside,
      (Except.ok.inj h).symm⟩
    · intro hchanged
      rw [if_pos hchanged] at hselected
      exact (Except.ok.inj hselected).symm
    · intro hsame
      rwa [if_neg (by simp [hsame])] at hselected
  · rintro ⟨served, parsedRef, selected, h⟩
    apply bind_eq_ok.mpr
    refine ⟨(), h.valid,
      bind_eq_ok.mpr ⟨served, h.source, bind_eq_ok.mpr ⟨parsedRef, h.parsed, ?_⟩⟩⟩
    apply bind_eq_ok.mpr
    refine ⟨selected, ?_, ?_⟩
    · cases hchanged : changedSinceSearch request parsedRef served with
      | true =>
          rw [h.stale hchanged]
          rfl
      | false => exact h.chosen hchanged
    · dsimp only
      rw [if_neg (Nat.not_lt.mpr h.inside), h.page]

variable {parsedRef parsedRef' : Option (String × String)} {served' : Served}
  {selected' : Option MemorySection}

/-- A value that is a page of a document or of one of its sections. -/
structure PageOf (document : MemoryDocument) (selected : Option MemorySection)
    (value : MemoryReadValue) : Prop where
  version : value.contentVersion = document.versionSha256
  chosen : ∀ part ∈ selected, document.findSection part.id = some part
  text : value.text = charRange (fullText document selected) value.offsetChars
    value.content.returnedChars
  total : value.content.totalChars = charCount (fullText document selected)
  inside : value.offsetChars + value.content.returnedChars ≤ value.content.totalChars
  next : value.nextOffsetChars =
    if value.offsetChars + value.content.returnedChars < value.content.totalChars then
      some (value.offsetChars + value.content.returnedChars) else none

theorem selectSection_eq_ok {document : MemoryDocument} {part : MemorySection}
    (h : selectSection request document parsedRef = .ok (some part)) :
    document.findSection part.id = some part ∧ ∃ version, parsedRef = some (version, part.id) := by
  rw [selectSection.eq_def] at h
  split at h
  · cases h
  next version sectionId =>
    split at h
    next found hfound =>
      obtain rfl := Option.some.inj (Except.ok.inj h)
      have hid : found.id = sectionId := by simpa using List.find?_some hfound
      subst hid
      exact ⟨hfound, version, rfl⟩
    next => cases h

theorem Answered.findSection (h : Answered parsers view request value served parsedRef selected)
    {part : MemorySection} (hpart : selected = some part) :
    served.document.findSection part.id = some part ∧
      parsedRef = some (served.document.versionSha256, part.id) := by
  cases hchanged : changedSinceSearch request parsedRef served with
  | true =>
      have hnone := h.stale hchanged
      rw [hpart] at hnone
      cases hnone
  | false =>
      have hchosen := h.chosen hchanged
      rw [hpart] at hchosen
      obtain ⟨hfound, version, hparsed⟩ := selectSection_eq_ok hchosen
      refine ⟨hfound, ?_⟩
      rw [changedSinceSearch, requestVersionChanged, Bool.or_eq_false_iff, Bool.or_eq_false_iff,
        hparsed] at hchanged
      have hversion : version = served.document.versionSha256 := by simpa using hchanged.1.2
      rw [hparsed, hversion]

theorem Answered.pageOf (h : Answered parsers view request value served parsedRef selected) :
    PageOf served.document selected value := by
  have hinside := h.inside
  rw [h.page]
  constructor
  · rfl
  · intro part hpart
    exact (h.findSection hpart).1
  · rfl
  · rfl
  · simp only [pageValue, ReadBudget.fieldPage]
    omega
  · rfl

/-- The request for the next page names the version and the section of the answer. -/
theorem Answered.next_parsed (h : Answered parsers view request value served parsedRef selected)
    (offsetChars : Nat) :
    (request.next value offsetChars).sectionRef.mapM parseSectionRef =
      .ok (selected.map fun part => (served.document.versionSha256, part.id)) := by
  have href : (request.next value offsetChars).sectionRef =
      selected.map fun part => makeSectionRef served.document.versionSha256 part.id := by
    rw [MemoryReadRequest.next, h.page]
    rfl
  rw [href]
  cases hselected : selected with
  | none => rfl
  | some part =>
      have hparsed := (h.findSection hselected).2
      have hrequest := h.parsed
      rw [hparsed] at hrequest
      cases hsection : request.sectionRef with
      | none =>
          rw [hsection] at hrequest
          cases hrequest
      | some sectionRef =>
          rw [hsection] at hrequest
          have hread : parseSectionRef sectionRef =
              .ok (served.document.versionSha256, part.id) := by
            cases hread : parseSectionRef sectionRef with
            | error error =>
                rw [Option.mapM_some, hread] at hrequest
                cases hrequest
            | ok pair =>
                rw [Option.mapM_some, hread] at hrequest
                exact congrArg Except.ok (Option.some.inj (Except.ok.inj hrequest))
          rw [Option.map_some, Option.mapM_some, parseSectionRef_makeSectionRef hread]
          rfl

theorem Answered.next_version (h : Answered parsers view request value served parsedRef selected)
    (offsetChars : Nat) (version : String) :
    requestVersionChanged (request.next value offsetChars)
      (selected.map fun part => (served.document.versionSha256, part.id)) version =
        decide (served.document.versionSha256 ≠ version) := by
  have hversion : (request.next value offsetChars).contentVersion =
      some served.document.versionSha256 := by
    rw [MemoryReadRequest.next, h.pageOf.version]
  rw [requestVersionChanged, hversion]
  cases selected with
  | none => simp
  | some part => simp

/-- If the view stays, the next page comes from the document the first one came from, unless that
only stands in for its source. -/
theorem Answered.continue (h : Answered parsers view request value served parsedRef selected)
    (hsource : (served.sourceChanged && !served.reparsedCurrent) = false) {offsetChars : Nat}
    (hoffset : offsetChars ≤ charCount (fullText served.document selected)) :
    Answered parsers view (request.next value offsetChars)
      (pageValue served selected false offsetChars request.maxChars) served
      (selected.map fun part => (served.document.versionSha256, part.id)) selected := by
  have hchanged : changedSinceSearch (request.next value offsetChars)
      (selected.map fun part => (served.document.versionSha256, part.id)) served = false := by
    rw [changedSinceSearch, h.next_version]
    simpa [MemoryReadRequest.next] using hsource
  constructor
  · exact h.valid
  · exact h.source
  · exact h.next_parsed offsetChars
  · intro htrue
    rw [hchanged] at htrue
    cases htrue
  · intro _
    cases hselected : selected with
    | none => rfl
    | some part => simp only [Option.map_some, selectSection, (h.findSection hselected).1]
  · rw [hchanged]
    exact hoffset
  · rw [hchanged]
    rfl

theorem maxChars_pos (h : request.validate = .ok ()) : 0 < request.maxChars := by
  rw [MemoryReadRequest.validate] at h
  split at h
  · cases h
  split at h
  · cases h
  next hmax =>
    rw [Bool.or_eq_true, decide_eq_true_iff, not_or] at hmax
    exact Nat.pos_of_ne_zero hmax.1

theorem Answered.returned (h : Answered parsers view request value served parsedRef selected) :
    value.content.returnedChars =
      min request.maxChars (value.content.totalChars - value.offsetChars) := by
  rw [h.page]
  rfl

/-- The text of a page and what is behind it. -/
theorem PageOf.text_append {document : MemoryDocument} (h : PageOf document selected value) :
    value.text.toList ++ (fullText document selected).toList.drop
        (value.offsetChars + value.content.returnedChars) =
      (fullText document selected).toList.drop value.offsetChars := by
  rw [h.text, charRange, String.toList_ofList, ← List.drop_drop]
  exact List.take_append_drop _ _

/-- The last page is what is left of the text. -/
theorem Answered.followPages_last
    (h : Answered parsers view request value served parsedRef selected)
    (hlast : ¬value.offsetChars + value.content.returnedChars < value.content.totalChars) :
    ∃ steps pages, followPages parsers view steps request = some pages ∧
      (∀ page ∈ pages, PageOf served.document selected page) ∧
      pages.flatMap (·.text.toList) =
        (fullText served.document selected).toList.drop value.offsetChars := by
  have hread := readMemory_eq_ok.mpr ⟨served, parsedRef, selected, h⟩
  have hpage := h.pageOf
  have hnext := hpage.next
  rw [if_neg hlast] at hnext
  refine ⟨1, [value], ?_, fun page hmem => List.mem_singleton.mp hmem ▸ hpage, ?_⟩
  · simp only [followPages, hread, hnext]
  · have htext := hpage.text_append
    rw [List.drop_eq_nil_of_le, List.append_nil] at htext
    · rw [List.flatMap_singleton, htext]
    · have htotal := hpage.total
      rw [charCount] at htotal
      omega

/-- The pages of a source that stays are the rest of its text. -/
theorem Answered.followPages_rest (size : Nat) : ∀ {request : MemoryReadRequest}
    {value : MemoryReadValue} {parsedRef : Option (String × String)},
    Answered parsers view request value served parsedRef selected →
    (served.sourceChanged && !served.reparsedCurrent) = false ∨ value.nextOffsetChars = none →
    value.content.totalChars - value.offsetChars ≤ size →
    ∃ steps pages, followPages parsers view steps request = some pages ∧
      (∀ page ∈ pages, PageOf served.document selected page) ∧
      pages.flatMap (·.text.toList) =
        (fullText served.document selected).toList.drop value.offsetChars := by
  induction size with
  | zero =>
      intro request value parsedRef h _ hsize
      apply h.followPages_last
      omega
  | succ size ih =>
      intro request value parsedRef h hsource hsize
      by_cases hmore : value.offsetChars + value.content.returnedChars < value.content.totalChars
      · have hread := readMemory_eq_ok.mpr ⟨served, parsedRef, selected, h⟩
        have hpage := h.pageOf
        have hnext := hpage.next
        rw [if_pos hmore] at hnext
        have hsource' : (served.sourceChanged && !served.reparsedCurrent) = false := by
          apply hsource.resolve_right
          rw [hnext]
          exact Option.some_ne_none _
        have hinside := hpage.inside
        rw [hpage.total] at hinside
        have hlater := h.continue hsource' hinside
        have hsmaller : charCount (fullText served.document selected) -
            (value.offsetChars + value.content.returnedChars) ≤ size := by
          have hreturned := h.returned
          have hmax := maxChars_pos h.valid
          rw [← hpage.total]
          omega
        obtain ⟨steps, pages, hfollow, hpages, htext⟩ := ih hlater (Or.inl hsource') hsmaller
        refine ⟨steps + 1, value :: pages, ?_, ?_, ?_⟩
        · simp only [followPages, hread, hnext, hfollow, Option.map_some]
        · intro page hmem
          obtain rfl | hmem := List.mem_cons.mp hmem
          · exact hpage
          · exact hpages page hmem
        · rw [List.flatMap_cons, htext]
          exact hpage.text_append
      · exact h.followPages_last hmore

end Answers

/-! ## Views that change -/

section Views

variable {parsers : Parsers} {views : Nat → SourceView}

/-- A document that is what its content says. -/
structure ParsedFrom (parsers : Parsers) (document : MemoryDocument) : Prop where
  version : document.versionSha256 = contentVersion parsers document.content
  sections : document.sections =
    ((parseSections parsers.tables document.content).getD ([], none)).1

/-- A text that is stored or read at some time. -/
def Occurs (views : Nat → SourceView) (content : String) : Prop :=
  ∃ time, (∃ documents, (views time).documents = .ok documents ∧
      ∃ document ∈ documents, document.content = content) ∨
    ∃ metadata, (views time).parsedContent = .ok (content, metadata)

/-- The store holds what refreshes put there, and no two texts that occur have one digest. -/
structure Coherent (parsers : Parsers) (views : Nat → SourceView) : Prop where
  parsed : ∀ time documents, (views time).documents = .ok documents →
    ∀ document ∈ documents, ParsedFrom parsers document
  distinct : ∀ left right, Occurs views left → Occurs views right →
    contentVersion parsers left = contentVersion parsers right → left = right

/-- A document that answers come from at some time. -/
def IsServed (parsers : Parsers) (views : Nat → SourceView) (document : MemoryDocument) : Prop :=
  ∃ time memoryId served, servedFor parsers (views time) memoryId = .ok served ∧
    served.document = document

theorem reparse_eq_ok {view : SourceView} {previous current : MemoryDocument}
    (h : reparseMemoryDocument parsers view previous = .ok current) :
    ∃ candidate content metadata, view.parsedContent = .ok (content, metadata) ∧
      current = parseMemoryContent parsers view.host candidate content metadata := by
  obtain ⟨before, -, h⟩ := bind_eq_ok.mp h
  dsimp only at h
  split at h
  · cases h
  · obtain ⟨⟨content, metadata⟩, hcontent, h⟩ := bind_eq_ok.mp h
    obtain ⟨after, -, h⟩ := bind_eq_ok.mp h
    dsimp only at h
    split at h
    · cases h
    · exact ⟨_, content, metadata, hcontent, (Except.ok.inj h).symm⟩

theorem storedDocument_mem {view : SourceView} {memoryId : String} {document : MemoryDocument}
    (h : storedDocument view memoryId = .ok document) :
    ∃ documents, view.documents = .ok documents ∧ document ∈ documents := by
  obtain ⟨documents, hdocuments, h⟩ := bind_eq_ok.mp h
  split at h
  · cases h
  next found hfound =>
    split at h
    · cases h
    · obtain rfl := Except.ok.inj h
      exact ⟨documents, hdocuments, List.mem_of_find?_eq_some hfound⟩

/-- An answer comes from the stored document or from what was read of its file. -/
theorem servedFor_eq_ok {view : SourceView} {memoryId : String} {served : Served}
    (h : servedFor parsers view memoryId = .ok served) :
    (∃ documents, view.documents = .ok documents ∧ served.document ∈ documents) ∨
      ∃ candidate content metadata, view.parsedContent = .ok (content, metadata) ∧
        served.document = parseMemoryContent parsers view.host candidate content metadata := by
  obtain ⟨stored, hstored, h⟩ := bind_eq_ok.mp h
  have hmem := storedDocument_mem hstored
  rw [serve] at h
  dsimp only at h
  split at h
  · split at h
    next current hcurrent =>
      obtain rfl := Except.ok.inj h
      exact Or.inr (reparse_eq_ok hcurrent)
    next =>
      split at h
      · cases h
      · obtain rfl := Except.ok.inj h
        exact Or.inl hmem
  · obtain rfl := Except.ok.inj h
    exact Or.inl hmem

theorem Coherent.served (h : Coherent parsers views) {document : MemoryDocument}
    (hserved : IsServed parsers views document) :
    ParsedFrom parsers document ∧ Occurs views document.content := by
  obtain ⟨time, memoryId, served, hserved, rfl⟩ := hserved
  obtain ⟨documents, hdocuments, hmem⟩ | ⟨candidate, content, metadata, hcontent, hparsed⟩ :=
    servedFor_eq_ok hserved
  · exact ⟨h.parsed time documents hdocuments _ hmem,
      time, Or.inl ⟨documents, hdocuments, _, hmem, rfl⟩⟩
  · rw [hparsed]
    exact ⟨⟨rfl, rfl⟩, time, Or.inr ⟨metadata, hcontent⟩⟩

/-- A version stands for one text and one list of sections. -/
theorem Coherent.same_text (h : Coherent parsers views) {document other : MemoryDocument}
    (hdocument : IsServed parsers views document) (hother : IsServed parsers views other)
    (hversion : document.versionSha256 = other.versionSha256) :
    document.content = other.content ∧ document.sections = other.sections := by
  obtain ⟨hparsed, hoccurs⟩ := h.served hdocument
  obtain ⟨hparsed', hoccurs'⟩ := h.served hother
  have hcontent : document.content = other.content := by
    apply h.distinct _ _ hoccurs hoccurs'
    rw [← hparsed.version, ← hparsed'.version, hversion]
  refine ⟨hcontent, ?_⟩
  rw [hparsed.sections, hparsed'.sections, hcontent]

theorem PageOf.of_same {document other : MemoryDocument} {selected : Option MemorySection}
    {value : MemoryReadValue} (h : PageOf other selected value)
    (hversion : document.versionSha256 = other.versionSha256)
    (hcontent : document.content = other.content) (hsections : document.sections = other.sections) :
    PageOf document selected value := by
  have htext : fullText document selected = fullText other selected := by
    rw [fullText, fullText, hcontent]
  constructor
  · rw [h.version, hversion]
  · intro part hpart
    rw [MemoryDocument.findSection, hsections]
    exact h.chosen part hpart
  · rw [htext]
    exact h.text
  · rw [htext]
    exact h.total
  · exact h.inside
  · exact h.next

/-- The answer to the request for the next page is that page, or says that the version changed and
begins anew. -/
theorem Coherent.next_page (h : Coherent parsers views) {time later : Nat}
    {request : MemoryReadRequest} {value page : MemoryReadValue} {served served' : Served}
    {parsedRef parsedRef' : Option (String × String)} {selected selected' : Option MemorySection}
    {offsetChars : Nat}
    (hvalue : Answered parsers (views time) request value served parsedRef selected)
    (hpage : Answered parsers (views later) (request.next value offsetChars) page served'
      parsedRef' selected') :
    (page.changedSinceSearch = true ∧ page.offsetChars = 0) ∨
      (page.changedSinceSearch = false ∧ page.offsetChars = offsetChars ∧
        PageOf served.document selected page) := by
  have hparsed := hpage.parsed
  rw [hvalue.next_parsed] at hparsed
  obtain rfl := Except.ok.inj hparsed
  cases hchanged : changedSinceSearch (request.next value offsetChars)
      (selected.map fun part => (served.document.versionSha256, part.id)) served' with
  | true =>
      left
      rw [hpage.page, hchanged]
      exact ⟨rfl, rfl⟩
  | false =>
      right
      have hversion : served.document.versionSha256 = served'.document.versionSha256 := by
        rw [changedSinceSearch, hvalue.next_version, Bool.or_eq_false_iff] at hchanged
        simpa using hchanged.1
      obtain ⟨hcontent, hsections⟩ := h.same_text ⟨time, _, served, hvalue.source, rfl⟩
        ⟨later, _, served', hpage.source, rfl⟩ hversion
      have hselected : selected' = selected := by
        have hchosen := hpage.chosen hchanged
        cases hselected : selected with
        | none =>
            rw [hselected] at hchosen
            exact (Except.ok.inj hchosen).symm
        | some part =>
            have hfound := (hvalue.findSection hselected).1
            rw [MemoryDocument.findSection, hsections] at hfound
            rw [hselected] at hchosen
            simp only [Option.map_some, selectSection, MemoryDocument.findSection,
              hfound] at hchosen
            exact (Except.ok.inj hchosen).symm
      subst hselected
      refine ⟨?_, ?_, hpage.pageOf.of_same hversion hcontent hsections⟩
      · rw [hpage.page, hchanged]
        rfl
      · rw [hpage.page, hchanged]
        rfl

theorem readMachineMemory_eq_ok {view : SourceView} {request : MemoryReadRequest}
    {value : MemoryReadValue} (h : readMachineMemory parsers view request = .ok value) :
    readMemory parsers view request = .ok value := by
  obtain ⟨read, hread, h⟩ := bind_eq_ok.mp h
  split at h
  · cases h
  split at h
  · cases h
  split at h
  · cases h
  · rw [hread, Except.ok.inj h]

theorem pageLoop_none (first : MemoryReadValue) (steps reads : Nat) (request : MemoryReadRequest)
    (text : String) :
    pageLoop parsers views first steps reads request text none = some (.complete text reads) := by
  cases steps with
  | zero => rfl
  | succ steps => rfl

/-- What is behind the pages that were read. -/
def restOf (text : List Char) : Option Nat → List Char
  | some offsetChars => text.drop offsetChars
  | none => []

theorem PageOf.text_append_rest {document : MemoryDocument} {selected : Option MemorySection}
    {value : MemoryReadValue} (h : PageOf document selected value) :
    value.text.toList ++ restOf (fullText document selected).toList value.nextOffsetChars =
      (fullText document selected).toList.drop value.offsetChars := by
  rw [← h.text_append, h.next]
  split
  · rfl
  next hlast =>
    rw [restOf, List.drop_eq_nil_of_le]
    have htotal := h.total
    rw [charCount] at htotal
    omega

/-- The loop ends, and if no answer says that the version changed, with all that was asked for. -/
theorem Coherent.pageLoop_ends (h : Coherent parsers views) {time : Nat}
    {original : MemoryReadRequest} {first : MemoryReadValue} {served : Served}
    {parsedRef : Option (String × String)} {selected : Option MemorySection}
    (hfirst : Answered parsers (views time) original first served parsedRef selected) (size : Nat) :
    ∀ (reads : Nat) (request : MemoryReadRequest) (text : String) (next : Option Nat),
      (∀ offsetChars, request.next first offsetChars = original.next first offsetChars) →
      (∀ offsetChars ∈ next, offsetChars < charCount (fullText served.document selected) ∧
        charCount (fullText served.document selected) - offsetChars ≤ size) →
      text.toList ++ restOf (fullText served.document selected).toList next =
        (fullText served.document selected).toList.drop first.offsetChars →
      ∃ steps outcome, (∀ extra,
          pageLoop parsers views first (steps + extra) reads request text next = some outcome) ∧
        ∀ whole count, outcome = .complete whole count →
          whole.toList = (fullText served.document selected).toList.drop first.offsetChars := by
  induction size with
  | zero =>
      intro reads request text next _ hnext htext
      cases next with
      | none =>
          refine ⟨0, _, fun extra => pageLoop_none first _ reads request text, ?_⟩
          rintro whole count ⟨⟩
          rwa [restOf, List.append_nil] at htext
      | some offsetChars =>
          have hbounds := hnext offsetChars rfl
          omega
  | succ size ih =>
      intro reads request text next hrequest hnext htext
      cases next with
      | none =>
          refine ⟨0, _, fun extra => pageLoop_none first _ reads request text, ?_⟩
          rintro whole count ⟨⟩
          rwa [restOf, List.append_nil] at htext
      | some offsetChars =>
          obtain ⟨hinside, hsize⟩ := hnext offsetChars rfl
          cases hread : readMachineMemory parsers (views reads)
              (original.next first offsetChars) with
          | error error =>
              refine ⟨1, .failed error, fun extra => ?_, fun _ _ heq => nomatch heq⟩
              rw [Nat.add_comm]
              simp only [pageLoop, hrequest, hread]
          | ok page =>
              by_cases hstop : (page.changedSinceSearch ||
                  page.contentVersion ≠ first.contentVersion) = true
              · refine ⟨1, .changedMidRead (reads + 1), fun extra => ?_, fun _ _ heq => nomatch heq⟩
                rw [Nat.add_comm]
                simp only [pageLoop, hrequest, hread, if_pos hstop]
              · obtain ⟨served', parsedRef', selected', hanswer⟩ :=
                  readMemory_eq_ok.mp (readMachineMemory_eq_ok hread)
                have hunchanged : page.changedSinceSearch = false := by
                  rw [Bool.not_eq_true, Bool.or_eq_false_iff] at hstop
                  exact hstop.1
                obtain ⟨hchanged, -⟩ | ⟨-, hoffset, hpage⟩ := h.next_page hfirst hanswer
                · rw [hunchanged] at hchanged
                  cases hchanged
                have hbounds : ∀ later ∈ page.nextOffsetChars,
                    later < charCount (fullText served.document selected) ∧
                      charCount (fullText served.document selected) - later ≤ size := by
                  intro later hlater
                  have hreturned := hanswer.returned
                  have hmax : 0 < original.maxChars := maxChars_pos hfirst.valid
                  rw [Option.mem_def, hpage.next, hpage.total, hoffset] at hlater
                  split at hlater
                  next hmore =>
                    obtain rfl := Option.some.inj hlater
                    refine ⟨hmore, ?_⟩
                    rw [hpage.total, hoffset] at hreturned
                    simp only [MemoryReadRequest.next] at hreturned
                    omega
                  next => cases hlater
                have hgrown : (text ++ page.text).toList ++
                    restOf (fullText served.document selected).toList page.nextOffsetChars =
                    (fullText served.document selected).toList.drop first.offsetChars := by
                  rw [String.toList_append, List.append_assoc, hpage.text_append_rest, hoffset]
                  exact htext
                obtain ⟨steps, outcome, hloop, hwhole⟩ := ih (reads + 1)
                  (original.next first offsetChars) (text ++ page.text) page.nextOffsetChars
                  (fun _ => rfl) hbounds hgrown
                refine ⟨steps + 1, outcome, fun extra => ?_, hwhole⟩
                rw [Nat.add_right_comm]
                simp only [pageLoop, hrequest, hread, if_neg hstop, hloop]

/-- A whole text from the offset that was asked for, or all of it with the word that the version is
another one. -/
structure IsWhole (parsers : Parsers) (views : Nat → SourceView) (original : MemoryReadRequest)
    (value : MemoryReadValue) : Prop where
  complete : value.nextOffsetChars = none ∧ value.content.truncated = false
  offset : value.changedSinceSearch = false ∧ value.offsetChars = original.offsetChars ∨
    value.changedSinceSearch = true ∧ value.offsetChars = 0
  text : ∃ document selected, IsServed parsers views document ∧
    value.contentVersion = document.versionSha256 ∧
    (∀ part ∈ selected, document.findSection part.id = some part) ∧
    value.text.toList = (fullText document selected).toList.drop value.offsetChars

theorem Answered.offset {view : SourceView} {request : MemoryReadRequest} {value : MemoryReadValue}
    {served : Served} {parsedRef : Option (String × String)} {selected : Option MemorySection}
    (h : Answered parsers view request value served parsedRef selected) :
    value.changedSinceSearch = false ∧ value.offsetChars = request.offsetChars ∨
      value.changedSinceSearch = true ∧ value.offsetChars = 0 := by
  cases hchanged : changedSinceSearch request parsedRef served with
  | false =>
      left
      rw [h.page, hchanged]
      exact ⟨rfl, rfl⟩
  | true =>
      right
      rw [h.page, hchanged]
      exact ⟨rfl, rfl⟩

/-- An attempt ends, and what it returns is whole. -/
theorem Coherent.attempt_ends (h : Coherent parsers views) (original : MemoryReadRequest)
    (reads : Nat) :
    ∃ steps outcome,
      (∀ extra, attempt parsers views original (steps + extra) reads = some outcome) ∧
        ∀ value, outcome = .returned value → IsWhole parsers views original value := by
  cases hread : readMachineMemory parsers (views reads)
      { original with maxChars := maxMemoryReadChars } with
  | error error =>
      refine ⟨0, .failed error, fun extra => ?_, fun _ heq => nomatch heq⟩
      simp only [attempt, hread]
  | ok first =>
      obtain ⟨served, parsedRef, selected, hfirst⟩ :=
        readMemory_eq_ok.mp (readMachineMemory_eq_ok hread)
      have hpage := hfirst.pageOf
      have hbounds : ∀ offsetChars ∈ first.nextOffsetChars,
          offsetChars < charCount (fullText served.document selected) ∧
            charCount (fullText served.document selected) - offsetChars ≤
              charCount (fullText served.document selected) := by
        intro offsetChars hoffset
        refine ⟨?_, Nat.sub_le _ _⟩
        rw [Option.mem_def, hpage.next, hpage.total] at hoffset
        split at hoffset
        next hmore =>
          obtain rfl := Option.some.inj hoffset
          exact hmore
        next => cases hoffset
      obtain ⟨steps, outcome, hloop, hwhole⟩ := h.pageLoop_ends hfirst _ (reads + 1) _ first.text
        first.nextOffsetChars (fun _ => rfl) hbounds hpage.text_append_rest
      refine ⟨steps, .ofLoop first outcome, fun extra => ?_, ?_⟩
      · simp only [attempt, hread, hloop, Option.map_some]
      · intro value hvalue
        cases outcome with
        | failed error => cases hvalue
        | changedMidRead count => cases hvalue
        | complete whole count =>
            obtain rfl := Attempt.returned.inj hvalue
            constructor
            · exact ⟨rfl, rfl⟩
            · exact hfirst.offset
            · exact ⟨served.document, selected, ⟨reads, _, served, hfirst.source, rfl⟩,
                hpage.version, hpage.chosen, hwhole whole count rfl⟩

/-- A result that is reached with some steps and with any number of steps more. -/
def Reaches (parsers : Parsers) (views : Nat → SourceView) (original : MemoryReadRequest)
    (restarts reads : Nat) : Prop :=
  ∃ steps result,
    (∀ extra, readFull parsers views original (steps + extra) restarts reads = some result) ∧
      ∀ value, result = .ok value → IsWhole parsers views original value

theorem Reaches.of_failed {original : MemoryReadRequest} {restarts reads steps : Nat}
    {error : String}
    (h : ∀ extra, attempt parsers views original (steps + extra) reads = some (.failed error)) :
    Reaches parsers views original restarts reads := by
  refine ⟨steps, .error error, fun extra => ?_, fun value hvalue => by cases hvalue⟩
  cases restarts <;> simp only [readFull, settle, h]

theorem Reaches.of_returned {original : MemoryReadRequest} {restarts reads steps : Nat}
    {value : MemoryReadValue}
    (h : ∀ extra, attempt parsers views original (steps + extra) reads = some (.returned value))
    (hwhole : IsWhole parsers views original value) :
    Reaches parsers views original restarts reads := by
  refine ⟨steps, .ok value, fun extra => ?_, ?_⟩
  · cases restarts <;> simp only [readFull, settle, h]
  · rintro _ ⟨⟩
    exact hwhole

/-- With the restarts it has, the reader of the whole text ends. -/
theorem Coherent.readFull_ends (h : Coherent parsers views) (original : MemoryReadRequest)
    (restarts : Nat) : ∀ reads : Nat, Reaches parsers views original restarts reads := by
  induction restarts with
  | zero =>
      intro reads
      obtain ⟨steps, outcome, hattempt, hgood⟩ := h.attempt_ends original reads
      cases outcome with
      | failed error => exact Reaches.of_failed hattempt
      | returned value => exact Reaches.of_returned hattempt (hgood value rfl)
      | changedMidRead count =>
          refine ⟨steps, .error changedRepeatedly, fun extra => ?_, fun _ heq => nomatch heq⟩
          simp only [readFull, settle, hattempt]
  | succ restarts ih =>
      intro reads
      obtain ⟨steps, outcome, hattempt, hgood⟩ := h.attempt_ends original reads
      cases outcome with
      | failed error => exact Reaches.of_failed hattempt
      | returned value => exact Reaches.of_returned hattempt (hgood value rfl)
      | changedMidRead count =>
          obtain ⟨steps', result, hresult, hwhole⟩ := ih count
          refine ⟨steps + steps', result, fun extra => ?_, hwhole⟩
          have hmore := hresult (steps + extra)
          rw [Nat.add_left_comm, ← Nat.add_assoc] at hmore
          have hnow := hattempt (steps' + extra)
          rw [← Nat.add_assoc] at hnow
          simp only [readFull, settle, hnow, hmore]

end Views

/-! ## Guarantees -/

/-- A stored text is served in place of a source that changed. -/
def StandsIn (parsers : Parsers) (view : SourceView) (memoryId : String) : Prop :=
  ∃ served, servedFor parsers view memoryId = .ok served ∧
    served.sourceChanged = true ∧ served.reparsedCurrent = false

/-- From offset 0 the pages of a source that stays are one text, unless a longer text stands in for
it. Whatever happens between two pages, the second goes on in the text of the first or says that the
version changed. The reader of whole texts ends with an error, with the text from the offset on that
was asked for, or with all of it and the word that the version changed. -/
theorem memory_pages_of_one_version (parsers : Parsers) (views : Nat → SourceView)
    (h : Coherent parsers views) :
    (∀ time request value, readMemory parsers (views time) request = .ok value →
      request.offsetChars = 0 →
      ¬StandsIn parsers (views time) request.memoryId ∨ value.nextOffsetChars = none →
      ∃ served selected steps pages,
        servedFor parsers (views time) request.memoryId = .ok served ∧
        followPages parsers (views time) steps request = some pages ∧
        (∀ page ∈ pages, PageOf served.document selected page) ∧
        pages.flatMap (·.text.toList) = (fullText served.document selected).toList) ∧
    (∀ time later request value offsetChars page,
      readMemory parsers (views time) request = .ok value →
      value.nextOffsetChars = some offsetChars →
      readMemory parsers (views later) (request.next value offsetChars) = .ok page →
      (page.changedSinceSearch = true ∧ page.offsetChars = 0) ∨
        (page.changedSinceSearch = false ∧ page.offsetChars = offsetChars ∧
          ∃ document selected, IsServed parsers views document ∧
            PageOf document selected value ∧ PageOf document selected page)) ∧
    ∀ original, ∃ steps result,
      (∀ extra, readFullMemory parsers views original (steps + extra) = some result) ∧
        ∀ value, result = .ok value → IsWhole parsers views original value := by
  refine ⟨?_, ?_, fun original => h.readFull_ends original maxVersionRestarts 0⟩
  · intro time request value hread hoffset hsource
    obtain ⟨served, parsedRef, selected, hanswer⟩ := readMemory_eq_ok.mp hread
    have hstays : (served.sourceChanged && !served.reparsedCurrent) = false ∨
        value.nextOffsetChars = none := by
      apply hsource.imp_left
      intro hnot
      by_contra hstands
      rw [Bool.not_eq_false, Bool.and_eq_true, Bool.not_eq_true'] at hstands
      exact hnot ⟨served, hanswer.source, hstands⟩
    obtain ⟨steps, pages, hfollow, hpages, htext⟩ :=
      hanswer.followPages_rest _ hstays (Nat.le_refl _)
    have hstart : value.offsetChars = 0 := by
      obtain ⟨-, heq⟩ | ⟨-, heq⟩ := hanswer.offset
      · rw [heq, hoffset]
      · exact heq
    rw [hstart, List.drop_zero] at htext
    exact ⟨served, selected, steps, pages, hanswer.source, hfollow, hpages, htext⟩
  · intro time later request value offsetChars page hread _ hlater
    obtain ⟨served, parsedRef, selected, hanswer⟩ := readMemory_eq_ok.mp hread
    obtain ⟨served', parsedRef', selected', hpage⟩ := readMemory_eq_ok.mp hlater
    apply (h.next_page hanswer hpage).imp_right
    rintro ⟨hchanged, hoffset, hsame⟩
    exact ⟨hchanged, hoffset, served.document, selected,
      ⟨time, _, served, hanswer.source, rfl⟩, hanswer.pageOf, hsame⟩

/-! A note of two letters, and the same file after three other letters were written to it. -/

private def notePath : Path := ⟨true, ["notes", "ab.md"]⟩

private def noteDigest (bytes : List UInt8) : String :=
  if bytes = [97, 98] then "fb8e20fc2e4c3f248c60c39bd652f3c1347298bb977b8b4d5903b85055620603"
  else if bytes = [99, 100, 101] then
    "08a018a9549220d707e11c5c4fe94d8dd60825f010e71efaa91e5e784f364d7b"
  else "2f00717f353453784c95db64ae9e22776a07e2ac80f0a16d10cdba6a8060a77a"

private def noteParsers : Parsers where
  tables := asciiTables
  sha256Hex := noteDigest
  explicitDates _ := []
  refs _ _ := []
  refs_unresolved _ _ _ h := absurd h List.not_mem_nil

private def noteHost : Host where
  canonicalize path := some path
  repositories _ := none

private def noteMetadata (size : Nat) : Metadata where
  size := size
  modifiedMillis := size
  changedNanos := some size

private def noteCandidate : MemoryCandidate where
  provider := .codex
  sourcePath := notePath
  scope := {}
  kind := .note

private def note : MemoryDocument :=
  parseMemoryContent noteParsers noteHost noteCandidate "ab" (noteMetadata 2)

private def rewrittenNote : MemoryDocument :=
  parseMemoryContent noteParsers noteHost noteCandidate "cde" (noteMetadata 3)

private def untouchedView : SourceView where
  documents := .ok [note]
  isFile := .ok true
  canonical := some notePath
  comparedIsFile := .ok true
  comparedPath := .ok notePath
  comparedBytes := .ok [97, 98]
  pathBefore := .ok notePath
  parsedContent := .ok ("ab", noteMetadata 2)
  pathAfter := .ok notePath
  host := noteHost

private def rewrittenView : SourceView :=
  { untouchedView with
    comparedBytes := .ok [99, 100, 101]
    parsedContent := .ok ("cde", noteMetadata 3) }

private theorem note_occurs {views : Nat → SourceView}
    (h : ∀ time, views time = untouchedView ∨ views time = rewrittenView) {content : String}
    (hoccurs : Occurs views content) : content = "ab" ∨ content = "cde" := by
  obtain ⟨time, hoccurs⟩ := hoccurs
  obtain heq | heq := h time
  · rw [heq] at hoccurs
    obtain ⟨documents, ⟨⟩, document, hmem, rfl⟩ | ⟨metadata, ⟨⟩⟩ := hoccurs
    · obtain rfl := List.mem_singleton.mp hmem
      exact Or.inl rfl
    · exact Or.inl rfl
  · rw [heq] at hoccurs
    obtain ⟨documents, ⟨⟩, document, hmem, rfl⟩ | ⟨metadata, ⟨⟩⟩ := hoccurs
    · obtain rfl := List.mem_singleton.mp hmem
      exact Or.inl rfl
    · exact Or.inr rfl

private theorem note_coherent {views : Nat → SourceView}
    (h : ∀ time, views time = untouchedView ∨ views time = rewrittenView) :
    Coherent noteParsers views := by
  have hdistinct : contentVersion noteParsers "ab" ≠ contentVersion noteParsers "cde" := by
    decide +kernel
  constructor
  · intro time documents hdocuments document hmem
    have hnote : documents = [note] := by
      obtain heq | heq := h time
      · rw [heq] at hdocuments
        exact (Except.ok.inj hdocuments).symm
      · rw [heq] at hdocuments
        exact (Except.ok.inj hdocuments).symm
    rw [hnote] at hmem
    obtain rfl := List.mem_singleton.mp hmem
    exact ⟨rfl, rfl⟩
  · intro left right hleft hright hversion
    obtain rfl | rfl := note_occurs h hleft
    · obtain rfl | rfl := note_occurs h hright
      · rfl
      · exact absurd hversion hdistinct
    · obtain rfl | rfl := note_occurs h hright
      · exact absurd hversion.symm hdistinct
      · rfl

/-- The file is written anew after the first look at it. -/
private def noteViews (time : Nat) : SourceView :=
  if time = 0 then untouchedView else rewrittenView

private theorem noteViews_coherent : Coherent noteParsers noteViews := by
  apply note_coherent
  intro time
  rw [noteViews]
  split
  · exact Or.inl rfl
  · exact Or.inr rfl

private def noteRequest : MemoryReadRequest where
  memoryId := note.stableId
  maxChars := 1

/-- The first of two pages. -/
private def firstPage : MemoryReadValue :=
  pageValue ⟨note, .fresh, false, false⟩ none false 0 1

private theorem stored_note {view : SourceView}
    (h : view = untouchedView ∨ view = rewrittenView) :
    storedDocument view noteRequest.memoryId = .ok note := by
  obtain rfl | rfl := h
  · simp [storedDocument, untouchedView, noteRequest, refusal, Except.bind]
    rfl
  · simp [storedDocument, rewrittenView, untouchedView, noteRequest, refusal, Except.bind]
    rfl

private theorem served_untouched :
    servedFor noteParsers untouchedView noteRequest.memoryId =
      .ok ⟨note, .fresh, false, false⟩ := by
  rw [servedFor, stored_note (Or.inl rfl)]
  rfl

private theorem served_rewritten :
    servedFor noteParsers rewrittenView noteRequest.memoryId =
      .ok ⟨rewrittenNote, .fresh, true, true⟩ := by
  rw [servedFor, stored_note (Or.inr rfl)]
  rfl

private theorem read_firstPage :
    readMemory noteParsers (noteViews 0) noteRequest = .ok firstPage := by
  have hvalid : noteRequest.validate = .ok () := by decide +kernel
  have hview : noteViews 0 = untouchedView := rfl
  rw [readMemory, hvalid, hview, served_untouched]
  rfl

/-- What is said to whoever goes on behind the first page after the file was written. -/
private def restartedPage (maxChars : Nat) : MemoryReadValue :=
  pageValue ⟨rewrittenNote, .fresh, true, true⟩ none true 0 maxChars

private theorem read_restartedPage (maxChars : Nat)
    (h : ({ noteRequest.next firstPage 1 with maxChars } : MemoryReadRequest).validate = .ok ()) :
    readMemory noteParsers rewrittenView { noteRequest.next firstPage 1 with maxChars } =
      .ok (restartedPage maxChars) := by
  rw [readMemory, h]
  have hid : ({ noteRequest.next firstPage 1 with maxChars } : MemoryReadRequest).memoryId =
    noteRequest.memoryId := rfl
  rw [hid, served_rewritten]
  rfl

/-- Two pages of one letter, the second asked for once more after the file was written, and the
rest of the text in one answer. -/
theorem memory_pages_of_one_version_rewritten :
    (firstPage.nextOffsetChars = some 1 ∧
      ∃ served selected steps pages,
        servedFor noteParsers (noteViews 0) note.stableId = .ok served ∧
        followPages noteParsers (noteViews 0) steps noteRequest = some pages ∧
        (∀ page ∈ pages, PageOf served.document selected page) ∧
        pages.flatMap (·.text.toList) = (fullText served.document selected).toList) ∧
    ((restartedPage 1).changedSinceSearch = true ∧ (restartedPage 1).offsetChars = 0 ∨
      (restartedPage 1).changedSinceSearch = false ∧ (restartedPage 1).offsetChars = 1 ∧
        ∃ document selected, IsServed noteParsers noteViews document ∧
          PageOf document selected firstPage ∧ PageOf document selected (restartedPage 1)) ∧
    ∃ steps result,
      (∀ extra, readFullMemory noteParsers noteViews (noteRequest.next firstPage 1)
        (steps + extra) = some result) ∧
        ∀ value, result = .ok value →
          IsWhole noteParsers noteViews (noteRequest.next firstPage 1) value := by
  have hpages := memory_pages_of_one_version noteParsers noteViews noteViews_coherent
  refine ⟨⟨rfl, ?_⟩, ?_, hpages.2.2 _⟩
  · apply hpages.1 0 noteRequest firstPage read_firstPage rfl
    left
    rintro ⟨served, hserved, hchanged, -⟩
    have hfirst := served_untouched.symm.trans hserved
    rw [← Except.ok.inj hfirst] at hchanged
    cases hchanged
  · exact hpages.2.1 0 1 noteRequest firstPage 1 (restartedPage 1) read_firstPage rfl
      (read_restartedPage 1 rfl)

/-- Whoever reads on from a version that is gone gets the new text from its start. -/
theorem stale_version_starts_again :
    ¬∀ (parsers : Parsers) (views : Nat → SourceView) (original : MemoryReadRequest) (steps : Nat)
      (value : MemoryReadValue), Coherent parsers views → original.sectionRef = none →
      readFullMemory parsers views original steps = some (.ok value) →
      ∃ document, IsServed parsers views document ∧
        value.text.toList = document.content.toList.drop original.offsetChars := by
  intro h
  have hviews : ∀ time : Nat, rewrittenView = untouchedView ∨ rewrittenView = rewrittenView :=
    fun _ => Or.inr rfl
  have hmachine : readMachineMemory noteParsers rewrittenView
      { noteRequest.next firstPage 1 with maxChars := maxMemoryReadChars } =
        .ok (restartedPage maxMemoryReadChars) := by
    rw [readMachineMemory, read_restartedPage maxMemoryReadChars rfl]
    rfl
  have hread : readFullMemory noteParsers (fun _ => rewrittenView) (noteRequest.next firstPage 1)
      0 = some (.ok (wholeValue (restartedPage maxMemoryReadChars) "cde")) := by
    rw [readFullMemory, maxVersionRestarts, readFull, attempt]
    simp only [hmachine]
    rfl
  obtain ⟨document, hserved, htext⟩ := h noteParsers (fun _ => rewrittenView) _ 0 _
    (note_coherent hviews) rfl hread
  have hlength := congrArg List.length htext
  have hoccurs := ((note_coherent hviews).served hserved).2
  obtain hcontent | hcontent := note_occurs hviews hoccurs
  · rw [hcontent] at hlength
    revert hlength
    decide
  · rw [hcontent] at hlength
    revert hlength
    decide

end Memex.Memory
