import Memex.Lib.Boundaries
import Memex.Lib.Overlay
import Memex.Usage.Events
import Mathlib.Data.Finset.Sort
import Mathlib.Data.String.Basic

/-! # Compact assemblies of usage events

`usage/compact.rs`: retained events hold numbers instead of texts. The texts are packed into one,
each once, with the offsets where they end. -/

namespace Memex.Usage

open Overlay Boundaries Text

/-- The number of a text, from one on. -/
structure StringId where
  value : Nat
  positive : 0 < value
  deriving DecidableEq

/-- The place of a numbered text. -/
def StringId.index (id : StringId) : Nat :=
  id.value - 1

abbrev Dictionary := Table String StringId

/-- A text already in the dictionary keeps its number. -/
def intern (text : String) : StateM Dictionary StringId := fun dictionary =>
  match dictionary.lookup text with
  | some id => (id, dictionary)
  | none =>
      let next : StringId := ⟨dictionary.keys.card + 1, Nat.succ_pos _⟩
      (next, dictionary.insert text next)

/-- A text is looked up before it is interned. -/
def lookupOrIntern (text : String) : StateM Dictionary StringId := fun dictionary =>
  match dictionary.lookup text with
  | some id => (id, dictionary)
  | none => intern text dictionary

/-- The fields of an event one after the other, with another path and other texts. -/
def UsageEventData.mapText {m : Type → Type} [Monad m] {S P T Q : Type}
    (event : UsageEventData S P) (sourcePath : Q) (map : S → m T) : m (UsageEventData T Q) := do
  let sourceRecordId ← event.sourceRecordId.mapM map
  let sessionId ← event.sessionId.mapM map
  let requestId ← event.requestId.mapM map
  let messageId ← event.messageId.mapM map
  let project ← event.project.mapM map
  let provider ← event.provider.mapM map
  let model ← event.model.mapM map
  return {
    source := event.source
    sourcePath
    sourceRecordId
    sessionId
    requestId
    messageId
    timestampMs := event.timestampMs
    project
    provider
    model
    tokens := event.tokens
    sourceCostUsd := event.sourceCostUsd
    costAuthoritative := event.costAuthoritative
    dedupeConfidence := event.dedupeConfidence
    conservativeUndercount := event.conservativeUndercount
    cacheChainExcluded := event.cacheChainExcluded
    sidechain := event.sidechain
    permissionReview := event.permissionReview
    sourceOrder := event.sourceOrder }

/-- The order in which a hash map is walked. -/
structure Walk where
  entries : Dictionary → List (String × StringId)
  mem_entries : ∀ dictionary text id,
    (text, id) ∈ entries dictionary ↔ dictionary.lookup text = some id

/-- An element is replaced; the program stops when there is none. -/
def setAt (texts : List String) (index : Nat) (text : String) : Option (List String) :=
  if index < texts.length then some (texts.set index text) else none

structure CompactUsageAssembly where
  events : List (UsageEventData StringId StringId) := []
  text : List Char := []
  ends : List Nat := []

namespace CompactUsageAssembly

/-- One more text is packed. -/
def pushText (assembly : CompactUsageAssembly) (value : String) : CompactUsageAssembly :=
  let text := assembly.text ++ value.toList
  { assembly with text, ends := assembly.ends ++ [byteLength text] }

/-- The texts of the dictionary in the order of their numbers. -/
def orderedTexts (walk : Walk) (dictionary : Dictionary) : Option (List String) :=
  (walk.entries dictionary).foldlM
    (fun ordered entry => setAt ordered entry.2.index entry.1)
    (List.replicate dictionary.keys.card "")

def packDictionary (walk : Walk) (assembly : CompactUsageAssembly) (dictionary : Dictionary) :
    Option CompactUsageAssembly :=
  (orderedTexts walk dictionary).map fun ordered => ordered.foldl pushText assembly

/-- The event of an assembly under construction. -/
def compactEvent (event : UsageEventView) :
    StateM Dictionary (UsageEventData StringId StringId) := do
  let path ← lookupOrIntern event.sourcePath
  event.mapText path intern

/-- A new assembly in the buffers of the previous one. -/
def new (walk : Walk) (events : List UsageEventView) (previous : Option CompactUsageAssembly) :
    Option CompactUsageAssembly :=
  let assembly := previous.getD {}
  let assembly := { assembly with events := [], text := [], ends := [] }
  let compacted := (events.mapM compactEvent).run ∅
  packDictionary walk { assembly with events := assembly.events ++ compacted.1 } compacted.2

/-- Where a text begins. -/
def startOf (assembly : CompactUsageAssembly) (id : StringId) : Option Nat :=
  if id.index = 0 then some 0 else assembly.ends[id.index - 1]?

def textOf (assembly : CompactUsageAssembly) (id : StringId) : Option String := do
  let start ← assembly.startOf id
  let stop ← assembly.ends[id.index]?
  let part ← slice assembly.text start stop
  return String.ofList part

def view (assembly : CompactUsageAssembly) (index : Nat) : Option UsageEventView := do
  let event ← assembly.events[index]?
  let path ← assembly.textOf event.sourcePath
  event.mapText path assembly.textOf

/-- Detailed events; those of one path share it. -/
def detailsFrom (assembly : CompactUsageAssembly) :
    List Nat → Table StringId String → Option (List UsageEventView)
  | [], _ => some []
  | index :: rest, paths => do
      let event ← assembly.view index
      let compact ← assembly.events[index]?
      let path := (paths.lookup compact.sourcePath).getD event.sourcePath
      let details ← detailsFrom assembly rest (paths.insert compact.sourcePath path)
      return { event with sourcePath := path } :: details

def details (assembly : CompactUsageAssembly) (indices : List Nat) :
    Option (List UsageEventView) :=
  assembly.detailsFrom indices ∅

end CompactUsageAssembly

/-- An assembly to which events are added one by one. -/
structure UsageAssemblyBuilder where
  assembly : CompactUsageAssembly := {}
  dictionary : Dictionary := ∅

namespace UsageAssemblyBuilder

def push (builder : UsageAssemblyBuilder) (event : UsageEventView) : UsageAssemblyBuilder :=
  let path := lookupOrIntern event.sourcePath builder.dictionary
  let compacted := event.mapText path.1 lookupOrIntern path.2
  { assembly :=
      { builder.assembly with events := builder.assembly.events ++ [compacted.1] }
    dictionary := compacted.2 }

def finish (walk : Walk) (builder : UsageAssemblyBuilder) : Option CompactUsageAssembly :=
  builder.assembly.packDictionary walk builder.dictionary

end UsageAssemblyBuilder

/-! ## Numbered texts -/

/-- The dictionary numbers the texts of a list in their order. -/
structure Numbered (dictionary : Dictionary) (texts : List String) : Prop where
  lookup : ∀ text id, dictionary.lookup text = some id ↔ texts[id.index]? = some text
  card : dictionary.keys.card = texts.length

theorem Numbered.empty : Numbered ∅ [] where
  lookup text id := by simp
  card := rfl

theorem lookupOrIntern_eq : lookupOrIntern = intern := by
  ext1 text
  funext dictionary
  unfold lookupOrIntern intern
  cases dictionary.lookup text <;> rfl

/-- An action numbers texts, after which its result means something for good. -/
def Interns {T : Type} (action : StateM Dictionary T) (means : List String → T → Prop) : Prop :=
  ∀ dictionary texts, Numbered dictionary texts →
    ∃ more, Numbered (action dictionary).2 (texts ++ more) ∧
      ∀ later, means (texts ++ more ++ later) (action dictionary).1

/-- The text of a number. -/
def readText (texts : List String) (id : StringId) : Option String :=
  texts[id.index]?

/-- An event with the texts of its numbers. -/
def readEvent (texts : List String) (event : UsageEventData StringId StringId) :
    Option UsageEventView := do
  let path ← readText texts event.sourcePath
  event.mapText path (readText texts)

private theorem keys_insert (dictionary : Dictionary) (text : String) (id : StringId) :
    (dictionary.insert text id).keys = insert text dictionary.keys := by
  ext other
  rw [Finmap.mem_keys, Finmap.mem_insert, Finset.mem_insert, Finmap.mem_keys]

theorem Numbered.notMem {dictionary : Dictionary} {texts : List String}
    (h : Numbered dictionary texts) {text : String} (hlookup : dictionary.lookup text = none) :
    text ∉ texts := by
  intro hmem
  obtain ⟨index, hindex⟩ := List.mem_iff_getElem?.mp hmem
  have hsome := (h.lookup text ⟨index + 1, Nat.succ_pos _⟩).mpr hindex
  rw [hlookup] at hsome
  cases hsome

/-- A new text gets the next number. -/
theorem Numbered.insert {dictionary : Dictionary} {texts : List String}
    (h : Numbered dictionary texts) {text : String} (hlookup : dictionary.lookup text = none) :
    Numbered (dictionary.insert text ⟨dictionary.keys.card + 1, Nat.succ_pos _⟩)
      (texts ++ [text]) where
  lookup other id := by
    rw [lookup_insert_ite]
    by_cases hsame : other = text
    · subst hsame
      rw [if_pos rfl, Option.some.injEq]
      constructor
      · rintro rfl
        simp [StringId.index, h.card]
      · intro hindex
        have hplace : ¬ id.index < texts.length := by
          intro hlt
          rw [List.getElem?_append_left hlt] at hindex
          exact h.notMem hlookup (List.mem_of_getElem? hindex)
        have hlast : id.index < (texts ++ [other]).length :=
          (List.getElem?_eq_some_iff.mp hindex).1
        have hvalue : id.value = dictionary.keys.card + 1 := by
          have hpositive := id.positive
          rw [List.length_append, List.length_singleton] at hlast
          simp only [StringId.index] at hplace hlast
          rw [h.card]
          omega
        obtain ⟨value, positive⟩ := id
        simpa using hvalue.symm
    · rw [if_neg hsame, h.lookup]
      by_cases hlt : id.index < texts.length
      · rw [List.getElem?_append_left hlt]
      · rw [List.getElem?_append_right (not_lt.mp hlt), List.getElem?_eq_none (not_lt.mp hlt)]
        constructor
        · exact fun hnone => absurd hnone (Option.some_ne_none _).symm
        · intro hindex
          have hmem := List.mem_of_getElem? hindex
          exact absurd (List.mem_singleton.mp hmem) hsame
  card := by
    have hnew : text ∉ dictionary.keys := by
      rw [Finmap.mem_keys]
      exact Finmap.lookup_eq_none.mp hlookup
    rw [keys_insert, Finset.card_insert_of_notMem hnew, h.card, List.length_append,
      List.length_singleton]

theorem interns_intern (text : String) :
    Interns (intern text) fun texts id => readText texts id = some text := by
  intro dictionary texts h
  cases hlookup : dictionary.lookup text with
  | some id =>
      have hmem := (h.lookup text id).mp hlookup
      refine ⟨[], ?_, ?_⟩
      · simpa only [intern, hlookup, List.append_nil] using h
      · intro later
        simp only [intern, hlookup, readText, List.append_nil]
        rw [List.getElem?_append_left (List.getElem?_eq_some_iff.mp hmem).1]
        exact hmem
  | none =>
      refine ⟨[text], ?_, ?_⟩
      · simp only [intern, hlookup]
        exact h.insert hlookup
      · intro later
        simp [intern, hlookup, readText, StringId.index, h.card]

/-- A result that needs no new text. -/
theorem interns_pure {T : Type} {means : List String → T → Prop} {result : T}
    (h : ∀ texts, means texts result) : Interns (pure result) means := by
  intro dictionary texts hnumbered
  refine ⟨[], ?_, fun later => h _⟩
  rwa [List.append_nil]

/-- One action after the other. -/
theorem Interns.bind {T T' : Type} {action : StateM Dictionary T}
    {means : List String → T → Prop} (h : Interns action means)
    {next : T → StateM Dictionary T'} {means' : List String → T' → Prop}
    (hnext : ∀ result, Interns (next result)
      fun texts result' => means texts result → means' texts result') :
    Interns (action >>= next) means' := by
  intro dictionary texts hnumbered
  obtain ⟨more, hmore, hmeans⟩ := h dictionary texts hnumbered
  obtain ⟨more', hmore', hmeans'⟩ := hnext (action dictionary).1 (action dictionary).2 _ hmore
  refine ⟨more ++ more', ?_, fun later => ?_⟩
  · rw [← List.append_assoc]
    exact hmore'
  · have hfirst := hmeans (more' ++ later)
    have hsecond := hmeans' later
    rw [← List.append_assoc] at hfirst ⊢
    exact hsecond hfirst

/-- An optional field. -/
theorem interns_field (field : Option String) :
    Interns (field.mapM intern) fun texts result => result.mapM (readText texts) = some field := by
  cases field with
  | none => exact interns_pure fun _ => rfl
  | some text =>
      change Interns (intern text >>= fun id => pure (some id)) _
      apply (interns_intern text).bind
      intro id
      apply interns_pure
      intro texts hid
      simp [hid]

theorem interns_compactEvent (event : UsageEventView) :
    Interns (CompactUsageAssembly.compactEvent event) fun texts compact =>
      readEvent texts compact = some event := by
  unfold CompactUsageAssembly.compactEvent
  rw [lookupOrIntern_eq]
  apply (interns_intern event.sourcePath).bind
  intro path
  apply (interns_field event.sourceRecordId).bind
  intro sourceRecordId
  apply (interns_field event.sessionId).bind
  intro sessionId
  apply (interns_field event.requestId).bind
  intro requestId
  apply (interns_field event.messageId).bind
  intro messageId
  apply (interns_field event.project).bind
  intro project
  apply (interns_field event.provider).bind
  intro provider
  apply (interns_field event.model).bind
  intro model
  apply interns_pure
  intro texts hmodel hprovider hproject hmessageId hrequestId hsessionId hrecordId hpath
  simp only [readEvent, UsageEventData.mapText, hmodel, hprovider, hproject, hmessageId,
    hrequestId, hsessionId, hrecordId, hpath, Option.bind_eq_bind, Option.bind_some]
  rfl

theorem interns_events (events : List UsageEventView) :
    Interns (events.mapM CompactUsageAssembly.compactEvent) fun texts compacts =>
      compacts.mapM (readEvent texts) = some events := by
  induction events with
  | nil => exact interns_pure fun _ => rfl
  | cons event rest ih =>
      rw [List.mapM_cons]
      apply (interns_compactEvent event).bind
      intro compact
      apply ih.bind
      intro compacts
      apply interns_pure
      intro texts hrest hevent
      rw [List.mapM_cons, hevent, hrest]
      rfl

/-! ## The packed dictionary -/

/-- The texts one after the other. -/
def joined (texts : List String) : List Char :=
  texts.flatMap String.toList

/-- Where each text ends. -/
def endsOf (texts : List String) : List Nat :=
  (List.range texts.length).map fun index => byteLength (joined (texts.take (index + 1)))

theorem endsOf_append (texts : List String) (text : String) :
    endsOf (texts ++ [text]) = endsOf texts ++ [byteLength (joined (texts ++ [text]))] := by
  rw [endsOf, List.length_append, List.length_singleton, List.range_succ, List.map_append]
  congr 1
  · apply List.map_congr_left
    intro index hindex
    have hlt := List.mem_range.mp hindex
    rw [List.take_append_of_le_length hlt]
  · rw [List.map_singleton, List.take_of_length_le]
    rw [List.length_append, List.length_singleton]

namespace CompactUsageAssembly

/-- The texts are packed, each where it is looked for. -/
structure Packs (assembly : CompactUsageAssembly) (texts : List String) : Prop where
  text : assembly.text = joined texts
  ends : assembly.ends = endsOf texts

variable {assembly : CompactUsageAssembly} {texts : List String}

theorem foldl_pushText (events : List (UsageEventData StringId StringId)) (texts : List String) :
    (texts.foldl pushText { events }).Packs texts ∧
      (texts.foldl pushText { events }).events = events := by
  induction texts using List.reverseRecOn with
  | nil => exact ⟨⟨rfl, rfl⟩, rfl⟩
  | append_singleton rest text ih =>
      obtain ⟨hpacks, hevents⟩ := ih
      rw [List.foldl_append, List.foldl_cons, List.foldl_nil]
      have hjoined : joined (rest ++ [text]) = joined rest ++ text.toList := by
        simp [joined]
      refine ⟨⟨?_, ?_⟩, hevents⟩
      · rw [hjoined, pushText, hpacks.text]
      · rw [endsOf_append, hjoined, pushText, hpacks.text, hpacks.ends]

/-- Where the texts up to a place end. -/
theorem getElem?_endsOf (texts : List String) (index : Nat) (h : index < texts.length) :
    (endsOf texts)[index]? = some (byteLength (joined (texts.take (index + 1)))) := by
  simp [endsOf, h]

theorem ends_boundary (texts : List String) {offset : Nat} (h : offset ∈ endsOf texts) :
    isBoundary (joined texts) offset = true := by
  obtain ⟨index, _, rfl⟩ := List.mem_map.mp h
  apply isBoundary_iff.mpr
  refine ⟨joined (texts.take (index + 1)), joined (texts.drop (index + 1)), ?_, rfl⟩
  rw [joined, joined, joined, ← List.flatMap_append, List.take_append_drop]

/-- A packed text is read back. -/
theorem Packs.textOf (h : assembly.Packs texts) {id : StringId} {text : String}
    (hid : readText texts id = some text) : assembly.textOf id = some text := by
  obtain ⟨hlt, htext⟩ := List.getElem?_eq_some_iff.mp hid
  have hstart : assembly.startOf id =
      some (byteLength (joined (texts.take id.index))) := by
    rw [startOf]
    split
    next hzero =>
      rw [hzero]
      rfl
    next hnonzero =>
      have hprevious : id.index - 1 + 1 = id.index := Nat.succ_pred_eq_of_ne_zero hnonzero
      rw [h.ends, getElem?_endsOf texts _ (by omega), hprevious]
  have hjoined : joined (texts.take (id.index + 1)) =
      joined (texts.take id.index) ++ text.toList := by
    rw [List.take_succ_eq_append_getElem hlt, htext]
    simp [joined]
  have hall : joined texts = joined (texts.take id.index) ++
      (text.toList ++ joined (texts.drop (id.index + 1))) := by
    have hparts : joined texts =
        joined (texts.take (id.index + 1)) ++ joined (texts.drop (id.index + 1)) := by
      rw [joined, joined, joined, ← List.flatMap_append, List.take_append_drop]
    rw [hparts, hjoined, List.append_assoc]
  rw [CompactUsageAssembly.textOf, hstart, h.ends, getElem?_endsOf texts _ hlt, hjoined, h.text,
    hall]
  change (slice _ _ _ >>= fun part => some (String.ofList part)) = _
  rw [slice_parts]
  simp

private theorem foldlM_setAt (texts : List String) (entries : List (String × StringId)) :
    ∀ ordered : List String, ordered.length = texts.length →
      (∀ entry ∈ entries, texts[entry.2.index]? = some entry.1) →
      (∀ index, ordered[index]? = texts[index]? ∨ ∃ entry ∈ entries, entry.2.index = index) →
      entries.foldlM (fun ordered entry => setAt ordered entry.2.index entry.1) ordered =
        some texts := by
  induction entries with
  | nil =>
      intro ordered _ _ hplaces
      have hsame : ordered = texts := by
        apply List.ext_getElem?
        intro index
        obtain h | ⟨entry, hentry, _⟩ := hplaces index
        · exact h
        · cases hentry
      rw [List.foldlM_nil, hsame]
      rfl
  | cons entry rest ih =>
      intro ordered hlength hentries hplaces
      have hentry := hentries entry List.mem_cons_self
      have hlt : entry.2.index < ordered.length := by
        rw [hlength]
        exact (List.getElem?_eq_some_iff.mp hentry).1
      rw [List.foldlM_cons, setAt, if_pos hlt]
      change List.foldlM _ (ordered.set entry.2.index entry.1) rest = _
      apply ih
      · rw [List.length_set, hlength]
      · exact fun other hother => hentries other (List.mem_cons_of_mem entry hother)
      · intro index
        by_cases hsame : entry.2.index = index
        · left
          rw [← hsame, List.getElem?_set_self hlt, hentry]
        · rw [List.getElem?_set_ne hsame]
          obtain h | ⟨other, hother, hindex⟩ := hplaces index
          · exact Or.inl h
          · cases List.mem_cons.mp hother with
            | inl h => exact absurd (h ▸ hindex) hsame
            | inr h => exact Or.inr ⟨other, h, hindex⟩

/-- The texts come in the order of their numbers, however the dictionary is walked. -/
theorem orderedTexts_eq (walk : Walk) {dictionary : Dictionary} (h : Numbered dictionary texts) :
    orderedTexts walk dictionary = some texts := by
  apply foldlM_setAt
  · rw [List.length_replicate, h.card]
  · rintro ⟨text, id⟩ hentry
    exact (h.lookup text id).mp ((walk.mem_entries dictionary text id).mp hentry)
  · intro index
    cases htext : texts[index]? with
    | none =>
        left
        rw [List.getElem?_eq_none_iff] at htext ⊢
        rwa [List.length_replicate, h.card]
    | some text =>
        right
        refine ⟨(text, ⟨index + 1, Nat.succ_pos _⟩), ?_, rfl⟩
        exact (walk.mem_entries _ _ _).mpr ((h.lookup _ _).mpr htext)

theorem packDictionary_eq (walk : Walk) {dictionary : Dictionary}
    (h : Numbered dictionary texts) :
    assembly.packDictionary walk dictionary = some (texts.foldl pushText assembly) := by
  rw [packDictionary, orderedTexts_eq walk h, Option.map_some]

/-- The assembly of a list of events: they are read back from its texts. -/
structure Holds (assembly : CompactUsageAssembly) (events : List UsageEventView)
    (texts : List String) : Prop extends assembly.Packs texts where
  read : assembly.events.mapM (readEvent texts) = some events

/-- Numbered events are packed. -/
theorem holds_packed {events : List UsageEventView}
    {compacts : List (UsageEventData StringId StringId)}
    (hread : compacts.mapM (readEvent texts) = some events) :
    (texts.foldl pushText { events := compacts }).Holds events texts := by
  obtain ⟨hpacks, hevents⟩ := foldl_pushText compacts texts
  refine ⟨hpacks, ?_⟩
  rwa [hevents]

private theorem mapM_textOf (h : assembly.Packs texts) {field : Option StringId}
    {value : Option String} (hfield : field.mapM (readText texts) = some value) :
    field.mapM assembly.textOf = some value := by
  cases field with
  | none => exact hfield
  | some id =>
      obtain ⟨text, htext, rfl⟩ := Option.map_eq_some_iff.mp hfield
      change Option.map some (assembly.textOf id) = _
      rw [h.textOf htext]
      rfl

/-- The texts of an event are read from the assembly. -/
theorem Packs.mapText (h : assembly.Packs texts) {compact : UsageEventData StringId StringId}
    {event : UsageEventView} (hevent : readEvent texts compact = some event) :
    (assembly.textOf compact.sourcePath >>= fun path => compact.mapText path assembly.textOf) =
      some event := by
  simp only [readEvent, UsageEventData.mapText, Option.bind_eq_bind,
    Option.bind_eq_some_iff] at hevent
  obtain ⟨path, hpath, recordId, hrecordId, sessionId, hsessionId, requestId, hrequestId,
    messageId, hmessageId, project, hproject, provider, hprovider, model, hmodel, heq⟩ := hevent
  simp only [UsageEventData.mapText, Option.bind_eq_bind, h.textOf hpath,
    mapM_textOf h hrecordId, mapM_textOf h hsessionId, mapM_textOf h hrequestId,
    mapM_textOf h hmessageId, mapM_textOf h hproject, mapM_textOf h hprovider,
    mapM_textOf h hmodel, Option.bind_some]
  exact heq

/-- A mapped list has its results at the places of its items. -/
private theorem getElem?_mapM {α β : Type} {f : α → Option β} {items : List α} {results : List β}
    (h : items.mapM f = some results) (index : Nat) :
    (items[index]? = none ∧ results[index]? = none) ∨
      ∃ item result, items[index]? = some item ∧ f item = some result ∧
        results[index]? = some result := by
  induction items generalizing results index with
  | nil =>
      obtain rfl : results = [] := by simpa using h.symm
      exact Or.inl ⟨rfl, rfl⟩
  | cons item rest ih =>
      rw [List.mapM_cons] at h
      obtain ⟨result, hresult, h⟩ := Option.bind_eq_some_iff.mp h
      obtain ⟨others, hothers, h⟩ := Option.bind_eq_some_iff.mp h
      obtain rfl : result :: others = results := Option.some.inj h
      cases index with
      | zero => exact Or.inr ⟨item, result, rfl, hresult, rfl⟩
      | succ index => exact ih hothers index

variable {events : List UsageEventView}

theorem Holds.length_eq (h : assembly.Holds events texts) :
    assembly.events.length = events.length := by
  have hends : ∀ index : Nat, assembly.events[index]? = none ↔ events[index]? = none := by
    intro index
    obtain ⟨hnone, hnone'⟩ | ⟨_, _, hsome, _, hsome'⟩ := getElem?_mapM h.read index
    · simp [hnone, hnone']
    · simp [hsome, hsome']
  have hleft := (hends events.length).mpr (List.getElem?_eq_none le_rfl)
  have hright := (hends assembly.events.length).mp (List.getElem?_eq_none le_rfl)
  exact le_antisymm (List.getElem?_eq_none_iff.mp hleft) (List.getElem?_eq_none_iff.mp hright)

/-- The views are the events. -/
theorem Holds.view (h : assembly.Holds events texts) (index : Nat) :
    assembly.view index = events[index]? := by
  obtain ⟨hnone, hnone'⟩ | ⟨compact, event, hcompact, hread, hevent⟩ :=
    getElem?_mapM h.read index
  · rw [CompactUsageAssembly.view, hnone, hnone']
    rfl
  · rw [CompactUsageAssembly.view, hcompact, hevent]
    exact h.mapText hread

/-- The path of a view is the text of the event's path. -/
theorem Holds.sourcePath (h : assembly.Holds events texts) {index : Nat}
    {compact : UsageEventData StringId StringId} {event : UsageEventView}
    (hcompact : assembly.events[index]? = some compact) (hevent : events[index]? = some event) :
    assembly.textOf compact.sourcePath = some event.sourcePath := by
  obtain ⟨hnone, _⟩ | ⟨compact', event', hcompact', hread, hevent'⟩ := getElem?_mapM h.read index
  · rw [hcompact] at hnone
    cases hnone
  · obtain rfl : compact = compact' := Option.some.inj (hcompact.symm.trans hcompact')
    obtain rfl : event = event' := Option.some.inj (hevent.symm.trans hevent')
    simp only [readEvent, UsageEventData.mapText, Option.bind_eq_bind,
      Option.bind_eq_some_iff] at hread
    obtain ⟨path, hpath, _, _, _, _, _, _, _, _, _, _, _, _, _, _, heq⟩ := hread
    rw [h.textOf hpath, ← Option.some.inj heq]

/-- Shared paths are the paths of the views. -/
theorem Holds.detailsFrom (h : assembly.Holds events texts) (indices : List Nat)
    {paths : Table StringId String}
    (hpaths : ∀ id path, paths.lookup id = some path → assembly.textOf id = some path) :
    assembly.detailsFrom indices paths = indices.mapM fun index : Nat => events[index]? := by
  induction indices generalizing paths with
  | nil => rfl
  | cons index rest ih =>
      rw [CompactUsageAssembly.detailsFrom, List.mapM_cons, h.view]
      cases hevent : events[index]? with
      | none => rfl
      | some event =>
          obtain ⟨_, hnone⟩ | ⟨compact, _, hcompact, _, _⟩ := getElem?_mapM h.read index
          · rw [hevent] at hnone
            cases hnone
          · have htext := h.sourcePath hcompact hevent
            have hpath : (paths.lookup compact.sourcePath).getD event.sourcePath =
                event.sourcePath := by
              cases hlookup : paths.lookup compact.sourcePath with
              | none => rfl
              | some path =>
                  rw [hpaths _ _ hlookup] at htext
                  exact Option.some.inj htext
            simp only [hcompact, Option.bind_eq_bind, Option.bind_some, hpath]
            rw [ih]
            intro id path hlookup
            rw [lookup_insert_ite] at hlookup
            split at hlookup
            next hsame =>
              rw [hsame, ← Option.some.inj hlookup]
              exact htext
            next => exact hpaths id path hlookup

end CompactUsageAssembly

/-- The numbers in an event. -/
def UsageEventData.ids (event : UsageEventData StringId StringId) : List StringId :=
  event.sourcePath :: [event.sourceRecordId, event.sessionId, event.requestId, event.messageId,
    event.project, event.provider, event.model].flatMap Option.toList

private theorem readText_of_mapM {texts : List String} {field : Option StringId}
    {value : Option String} (h : field.mapM (readText texts) = some value) :
    ∀ id ∈ field.toList, id.index < texts.length := by
  intro id hid
  obtain rfl : field = some id := Option.mem_toList.mp hid
  obtain ⟨text, htext, _⟩ := Option.map_eq_some_iff.mp h
  exact (List.getElem?_eq_some_iff.mp htext).1

/-- The numbers of an event that is read stand for texts. -/
theorem ids_lt_of_readEvent {texts : List String} {compact : UsageEventData StringId StringId}
    {event : UsageEventView} (h : readEvent texts compact = some event) :
    ∀ id ∈ compact.ids, id.index < texts.length := by
  simp only [readEvent, UsageEventData.mapText, Option.bind_eq_bind,
    Option.bind_eq_some_iff] at h
  obtain ⟨path, hpath, recordId, hrecordId, sessionId, hsessionId, requestId, hrequestId,
    messageId, hmessageId, project, hproject, provider, hprovider, model, hmodel, _⟩ := h
  intro id hid
  cases List.mem_cons.mp hid with
  | inl h => exact h ▸ (List.getElem?_eq_some_iff.mp hpath).1
  | inr h =>
      obtain ⟨field, hfield, hmem⟩ := List.mem_flatMap.mp h
      simp only [List.mem_cons, List.not_mem_nil, or_false] at hfield
      obtain rfl | rfl | rfl | rfl | rfl | rfl | rfl := hfield
      · exact readText_of_mapM hrecordId id hmem
      · exact readText_of_mapM hsessionId id hmem
      · exact readText_of_mapM hrequestId id hmem
      · exact readText_of_mapM hmessageId id hmem
      · exact readText_of_mapM hproject id hmem
      · exact readText_of_mapM hprovider id hmem
      · exact readText_of_mapM hmodel id hmem

namespace CompactUsageAssembly

theorem Holds.ids_lt {assembly : CompactUsageAssembly} {events : List UsageEventView}
    {texts : List String} (h : assembly.Holds events texts)
    {compact : UsageEventData StringId StringId} (hcompact : compact ∈ assembly.events) :
    ∀ id ∈ compact.ids, id.index < assembly.ends.length := by
  have hlength : assembly.ends.length = texts.length := by
    rw [h.ends, endsOf, List.length_map, List.length_range]
  obtain ⟨index, hindex⟩ := List.mem_iff_getElem?.mp hcompact
  obtain ⟨hnone, _⟩ | ⟨compact', event, hcompact', hread, _⟩ := getElem?_mapM h.read index
  · rw [hindex] at hnone
    cases hnone
  · obtain rfl : compact = compact' := Option.some.inj (hindex.symm.trans hcompact')
    rw [hlength]
    exact ids_lt_of_readEvent hread

end CompactUsageAssembly

namespace UsageAssemblyBuilder

theorem push_eq (builder : UsageAssemblyBuilder) (event : UsageEventView) :
    builder.push event =
      { assembly :=
          { builder.assembly with
            events := builder.assembly.events ++
              [(CompactUsageAssembly.compactEvent event builder.dictionary).1] }
        dictionary := (CompactUsageAssembly.compactEvent event builder.dictionary).2 } := by
  unfold push CompactUsageAssembly.compactEvent
  rw [lookupOrIntern_eq]
  rfl

/-- The builder compacts its events as a new assembly does. -/
theorem foldl_push (events : List UsageEventView) (builder : UsageAssemblyBuilder) :
    events.foldl push builder =
      { assembly :=
          { builder.assembly with
            events := builder.assembly.events ++
              (events.mapM CompactUsageAssembly.compactEvent builder.dictionary).1 }
        dictionary := (events.mapM CompactUsageAssembly.compactEvent builder.dictionary).2 } := by
  induction events generalizing builder with
  | nil =>
      obtain ⟨⟨events, text, ends⟩, dictionary⟩ := builder
      change _ = UsageAssemblyBuilder.mk ⟨events ++ [], text, ends⟩ dictionary
      rw [List.append_nil, List.foldl_nil]
  | cons event rest ih =>
      rw [List.foldl_cons, ih, push_eq, List.mapM_cons]
      simp only [List.append_assoc, List.singleton_append]
      rfl

end UsageAssemblyBuilder

/-- What goes into an assembly is read from it: the views and the details are the events, in their
order, whatever buffers are used again and whichever way the dictionaries are walked. The offsets
are boundaries of the packed text, every number has one, and the builder makes the same
assembly. -/
theorem usage_assembly_round_trip (walk walk' : Walk) (events : List UsageEventView)
    (previous : Option CompactUsageAssembly) :
    ∃ assembly, CompactUsageAssembly.new walk events previous = some assembly ∧
      assembly.events.length = events.length ∧
      (∀ index, assembly.view index = events[index]?) ∧
      (∀ indices, assembly.details indices = indices.mapM fun index : Nat => events[index]?) ∧
      (∀ offset ∈ assembly.ends,
        offset ≤ byteLength assembly.text ∧ isBoundary assembly.text offset = true) ∧
      (∀ compact ∈ assembly.events, ∀ id ∈ compact.ids, id.index < assembly.ends.length) ∧
      (events.foldl UsageAssemblyBuilder.push {}).finish walk' = some assembly := by
  obtain ⟨texts, hnumbered, hread⟩ := interns_events events ∅ [] Numbered.empty
  have hread := hread []
  rw [List.append_nil] at hread
  rw [List.nil_append] at hread hnumbered
  have hholds := CompactUsageAssembly.holds_packed hread
  refine ⟨_, CompactUsageAssembly.packDictionary_eq walk hnumbered, hholds.length_eq,
    hholds.view, ?_, ?_, ?_, ?_⟩
  · intro indices
    apply hholds.detailsFrom
    intro id path hlookup
    rw [Finmap.lookup_empty] at hlookup
    cases hlookup
  · intro offset hoffset
    have hmem : offset ∈ endsOf texts := hholds.ends ▸ hoffset
    have hboundary := CompactUsageAssembly.ends_boundary texts hmem
    rw [← hholds.text] at hboundary
    exact ⟨le_of_isBoundary hboundary, hboundary⟩
  · exact fun compact hcompact => hholds.ids_lt hcompact
  · rw [UsageAssemblyBuilder.foldl_push, UsageAssemblyBuilder.finish]
    exact CompactUsageAssembly.packDictionary_eq walk' hnumbered

end Memex.Usage
