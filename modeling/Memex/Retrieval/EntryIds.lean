import Memex.Retrieval.CanonicalId

/-! # Identities of the records of an entry

One entry of a transcript makes records of its reasoning, its tool calls, its tool results and its
text. They are told apart by what the parsers put behind the id of the entry, by the ids of the
calls, by their roles and by the names of the tools. -/

namespace Memex.Retrieval

/-- Who an entry quotes. -/
inductive Speaker where
  | user
  | assistant
  deriving DecidableEq, Repr

def Speaker.role : Speaker → String
  | user => "user"
  | assistant => "assistant"

/-- What a block of an entry makes a record of. A parser may number the reasoning of an entry, and
may quote the answered call in the id of a result. -/
inductive EntryBlock where
  | reasoning (index : Option Nat)
  | namedCall (id tool : String)
  | call (tool : String)
  | result (answered : Option String) (tool : String)
  deriving DecidableEq, Repr

/-- What the text of an entry makes. Attachments without a text are filed under the offset of
their line. -/
inductive EntryText where
  | spoken (speaker : Speaker)
  | shown (speaker : Speaker) (offset : Nat)
  deriving DecidableEq, Repr

/-- An entry of a transcript with the session it is filed under. -/
structure Entry where
  session : String
  id : Option String
  blocks : List EntryBlock := []
  text : Option EntryText := none
  deriving DecidableEq, Repr

def reasoningEvent (id : String) : Option Nat → String
  | none => id ++ ":reasoning"
  | some index => id ++ ":reasoning:" ++ toString index

def resultEvent (id : String) : Option String → String
  | none => id
  | some call => id ++ ":tool_result:" ++ call

/-- The identity of a record with an event. -/
def eventIdentity (source : SourceKind) (session event role tool : String) : List Field :=
  [("version", canonicalRecordIdVersion), ("source", source.storageLabel), ("session", session),
    ("event", event), ("role", role), ("tool", tool)]

/-- The identity of a record that is told by its line. -/
def offsetIdentity (source : SourceKind) (session path : String) (offset : Nat)
    (role tool : String) : List Field :=
  [("version", canonicalRecordIdVersion), ("source", source.storageLabel), ("session", session),
    ("source-path", path), ("source-record-offset", toString offset), ("role", role),
    ("tool", tool)]

namespace EntryBlock

def identity (source : SourceKind) (session id : String) : EntryBlock → List Field
  | reasoning index => eventIdentity source session (reasoningEvent id index) "reasoning" ""
  | namedCall callId tool => eventIdentity source session callId "tool_use" tool
  | call tool => eventIdentity source session id "tool_use" tool
  | result answered tool =>
      eventIdentity source session (resultEvent id answered) "tool_result" tool

def reasoningIndex : EntryBlock → Option (Option Nat)
  | reasoning index => some index
  | _ => none

def callId : EntryBlock → Option String
  | namedCall id _ => some id
  | _ => none

/-- The tool of a call without an id. -/
def unnamedTool : EntryBlock → Option String
  | call tool => some tool
  | _ => none

/-- The event of a result, with the name of the tool. -/
def resultKey (id : String) : EntryBlock → Option (String × String)
  | result answered tool => some (resultEvent id answered, tool)
  | _ => none

end EntryBlock

def EntryText.identity (source : SourceKind) (session path id : String) : EntryText → List Field
  | spoken speaker => eventIdentity source session id speaker.role ""
  | shown speaker offset => offsetIdentity source session path offset speaker.role ""

namespace Entry

variable (entry : Entry)

/-- The identities of the records of an entry. -/
def identities (source : SourceKind) (path : String) : List (List Field) :=
  entry.blocks.map (EntryBlock.identity source entry.session (entry.id.getD "")) ++
    entry.text.toList.map (EntryText.identity source entry.session path (entry.id.getD ""))

def callIds : List String :=
  entry.blocks.filterMap EntryBlock.callId

/-- The sessions, events and tools of the results. -/
def resultKeys : List (String × String × String) :=
  (entry.blocks.filterMap (EntryBlock.resultKey (entry.id.getD ""))).map (entry.session, ·)

def shownOffset : Option Nat :=
  match entry.text with
  | some (.shown _ offset) => some offset
  | _ => none

end Entry

/-- Entries with records have ids, and the ids of entries and of tool calls are all different. -/
structure IdsDistinct (entries : List Entry) : Prop where
  named : ∀ entry ∈ entries, entry.blocks ≠ [] ∨ entry.text ≠ none → entry.id ≠ none
  distinct : (entries.filterMap Entry.id ++ entries.flatMap Entry.callIds).Nodup

/-- What the identities of a transcript rest on: an entry has no two blocks of reasoning of one
index and no two calls of one tool without ids, and no two results of a session share their event
and their tool. -/
structure Apart (entries : List Entry) : Prop where
  reasoning : ∀ entry ∈ entries, (entry.blocks.filterMap EntryBlock.reasoningIndex).Nodup
  calls : ∀ entry ∈ entries, (entry.blocks.filterMap EntryBlock.unnamedTool).Nodup
  results : (entries.flatMap Entry.resultKeys).Nodup

/-! ## Different identities -/

theorem eventIdentity_inj {source source' : SourceKind}
    {session session' event event' role role' tool tool' : String}
    (h : eventIdentity source session event role tool =
      eventIdentity source' session' event' role' tool') :
    session = session' ∧ event = event' ∧ role = role' ∧ tool = tool' := by
  simp only [eventIdentity, List.cons.injEq, Prod.mk.injEq, true_and, and_true] at h
  exact h.2

theorem eventIdentity_ne_offsetIdentity {source source' : SourceKind}
    {session session' event role role' tool tool' path : String} {offset : Nat} :
    eventIdentity source session event role tool ≠
      offsetIdentity source' session' path offset role' tool' := by
  intro h
  have hlength := congrArg List.length h
  cases hlength

private theorem toString_inj {left right : Nat} (h : toString left = toString right) :
    left = right := by
  have hnumber := congrArg (fun text => Nat.ofDigitChars 10 text.toList 0) h
  simpa [Nat.toString_eq_ofList_toDigits] using hnumber

private theorem isDigit_of_mem_toString {index : Nat} {c : Char} (h : c ∈ (toString index).toList) :
    c.isDigit = true := by
  change c ∈ (Nat.repr index).toList at h
  rw [Nat.toList_repr] at h
  exact Nat.isDigit_of_mem_toDigits (by decide) (by decide) h

/-- Digits behind a colon are told from the text before them. -/
private theorem append_digits_inj {left right : List Char} {digits digits' : List Char}
    (hdigits : ∀ c ∈ digits, c.isDigit = true) (hdigits' : ∀ c ∈ digits', c.isDigit = true)
    (h : left ++ ':' :: digits = right ++ ':' :: digits') : left = right ∧ digits = digits' := by
  have htail (front digits : List Char) (hall : ∀ c ∈ digits, c.isDigit = true) :
      (front ++ ':' :: digits).rtakeWhile Char.isDigit = digits ∧
        (front ++ ':' :: digits).rdropWhile Char.isDigit = front ++ [':'] := by
    induction digits using List.reverseRecOn with
    | nil =>
        constructor
        · exact List.rtakeWhile_concat_neg _ front ':' (by decide)
        · exact List.rdropWhile_concat_neg _ front ':' (by decide)
    | append_singleton digits c ih =>
        have hc : c.isDigit = true := hall c (by simp)
        obtain ⟨htake, hdrop⟩ := ih fun d hd => hall d (List.mem_append_left _ hd)
        rw [← List.cons_append, ← List.append_assoc]
        constructor
        · rw [List.rtakeWhile_concat_pos _ _ _ hc, htake]
        · rw [List.rdropWhile_concat_pos _ _ _ hc, hdrop]
  obtain ⟨htake, hdrop⟩ := htail left digits hdigits
  obtain ⟨htake', hdrop'⟩ := htail right digits' hdigits'
  constructor
  · rw [h, hdrop'] at hdrop
    exact (List.append_cancel_right hdrop).symm
  · rw [← htake, h, htake']

private theorem letter_ne_digits {front back digits : List Char}
    (hdigits : ∀ c ∈ digits, c.isDigit = true) : front ++ ['g'] ≠ back ++ ':' :: digits := by
  intro h
  rcases List.eq_nil_or_concat digits with rfl | ⟨before, c, rfl⟩
  · have hlast := (List.append_inj' h rfl).2
    cases hlast
  · have hmem : c.isDigit = true := hdigits c (by simp)
    rw [List.concat_eq_append, ← List.cons_append, ← List.append_assoc] at h
    have hlast := (List.append_inj' h rfl).2
    obtain rfl := List.singleton_injective hlast
    cases hmem

theorem reasoningEvent_inj {id id' : String} {index index' : Option Nat}
    (h : reasoningEvent id index = reasoningEvent id' index') : id = id' ∧ index = index' := by
  have hlists := congrArg String.toList h
  have hplain (id : String) : (reasoningEvent id none).toList =
      (id.toList ++ ":reasonin".toList) ++ ['g'] := by
    rw [reasoningEvent, String.toList_append]
    simp
  have hnumbered (id : String) (index : Nat) : (reasoningEvent id (some index)).toList =
      (id.toList ++ ":reasoning".toList) ++ ':' :: (toString index).toList := by
    rw [reasoningEvent, String.toList_append, String.toList_append]
    simp
  have hdigits (index : Nat) : ∀ c ∈ (toString index).toList, c.isDigit = true :=
    fun c hc => isDigit_of_mem_toString hc
  cases index with
  | none =>
      cases index' with
      | none =>
          rw [hplain, hplain] at hlists
          have hids := List.append_cancel_right (List.append_cancel_right hlists)
          exact ⟨String.toList_injective hids, rfl⟩
      | some other =>
          rw [hplain, hnumbered] at hlists
          exact absurd hlists (letter_ne_digits (hdigits other))
  | some first =>
      cases index' with
      | none =>
          rw [hplain, hnumbered] at hlists
          exact absurd hlists.symm (letter_ne_digits (hdigits first))
      | some other =>
          rw [hnumbered, hnumbered] at hlists
          obtain ⟨hfront, hsame⟩ := append_digits_inj (hdigits first) (hdigits other) hlists
          refine ⟨String.toList_injective (List.append_cancel_right hfront), ?_⟩
          exact congrArg some (toString_inj (String.toList_injective hsame))

/-- How two blocks come to one identity. -/
inductive Clash (session id session' id' : String) : EntryBlock → EntryBlock → Prop where
  | reasoning (index : Option Nat) (entry : id = id') :
      Clash session id session' id' (.reasoning index) (.reasoning index)
  | named (callId tool : String) :
      Clash session id session' id' (.namedCall callId tool) (.namedCall callId tool)
  | quoted (tool : String) : Clash session id session' id' (.namedCall id' tool) (.call tool)
  | quotes (tool : String) : Clash session id session' id' (.call tool) (.namedCall id tool)
  | call (tool : String) (entry : id = id') :
      Clash session id session' id' (.call tool) (.call tool)
  | result (answered answered' : Option String) (tool : String) (filed : session = session')
      (event : resultEvent id answered = resultEvent id' answered') :
      Clash session id session' id' (.result answered tool) (.result answered' tool)

theorem EntryBlock.clash_of_identity_eq {source : SourceKind} {session id session' id' : String}
    {block block' : EntryBlock}
    (h : block.identity source session id = block'.identity source session' id') :
    Clash session id session' id' block block' := by
  cases block <;> cases block' <;> obtain ⟨hsession, hevent, hrole, htool⟩ := eventIdentity_inj h
  case reasoning.reasoning index index' =>
    obtain ⟨hid, rfl⟩ := reasoningEvent_inj hevent
    exact .reasoning index hid
  case namedCall.namedCall callId tool callId' tool' =>
    subst hevent htool
    exact .named callId tool
  case namedCall.call callId tool tool' =>
    subst hevent htool
    exact .quoted tool
  case call.namedCall tool callId' tool' =>
    subst hevent htool
    exact .quotes tool
  case call.call tool tool' =>
    subst htool
    exact .call tool hevent
  case result.result answered tool answered' tool' =>
    subst htool
    exact .result answered answered' tool hsession hevent
  all_goals exact absurd hrole (by decide)

/-- A block and a text never share their identity. -/
theorem EntryBlock.identity_ne_text {source source' : SourceKind}
    {session id session' path id' : String} {block : EntryBlock} {text : EntryText} :
    block.identity source session id ≠ text.identity source' session' path id' := by
  intro h
  cases text with
  | shown speaker offset => cases block <;> exact eventIdentity_ne_offsetIdentity h
  | spoken speaker =>
      cases block <;> cases speaker <;> exact absurd (eventIdentity_inj h).2.2.1 (by decide)

section Entries

variable {source : SourceKind} {path : String} {entries : List Entry} {entry : Entry}

theorem IdsDistinct.id_notMem_callIds (h : IdsDistinct entries) {other : Entry} {id : String}
    (hentry : entry ∈ entries) (hid : id ∈ entry.id) (hother : other ∈ entries) :
    id ∉ other.callIds := by
  intro hmem
  refine (List.nodup_append'.mp h.distinct).2.2 (List.mem_filterMap.mpr ⟨entry, hentry, hid⟩) ?_
  exact List.mem_flatMap.mpr ⟨other, hother, hmem⟩

/-- The entry has an id, as it has records. -/
theorem IdsDistinct.exists_id (h : IdsDistinct entries) (hentry : entry ∈ entries)
    {fields : List Field} (hfields : fields ∈ entry.identities source path) :
    ∃ id, entry.id = some id := by
  apply Option.ne_none_iff_exists'.mp
  apply h.named entry hentry
  rcases List.mem_append.mp hfields with hblock | htext
  · left
    rintro hnil
    rw [hnil] at hblock
    exact absurd hblock List.not_mem_nil
  · right
    rintro hnone
    rw [hnone] at htext
    exact absurd htext List.not_mem_nil

/-- The identities of one entry are different. -/
theorem IdsDistinct.nodup_identities (h : IdsDistinct entries) (hentry : entry ∈ entries)
    (hreasoning : (entry.blocks.filterMap EntryBlock.reasoningIndex).Nodup)
    (hcalls : (entry.blocks.filterMap EntryBlock.unnamedTool).Nodup)
    (hresults : entry.resultKeys.Nodup) : (entry.identities source path).Nodup := by
  have hnamed : entry.callIds.Nodup :=
    (List.nodup_flatMap.mp (List.nodup_append'.mp h.distinct).2.1).1 entry hentry
  have hresults : (entry.blocks.filterMap (EntryBlock.resultKey (entry.id.getD ""))).Nodup :=
    List.Nodup.of_map _ hresults
  apply List.Nodup.append
  · rw [List.Nodup, List.pairwise_map]
    rw [List.Nodup, List.pairwise_filterMap] at hreasoning hcalls hresults
    rw [Entry.callIds, List.Nodup, List.pairwise_filterMap] at hnamed
    apply (((hreasoning.and hcalls).and hresults).and hnamed).imp_of_mem
    rintro block block' hmem hmem' ⟨⟨⟨hreasoning, hcalls⟩, hresults⟩, hnamed⟩ hsame
    have hid : ∃ id, entry.id = some id := by
      apply Option.ne_none_iff_exists'.mp
      exact h.named entry hentry (.inl (List.ne_nil_of_mem hmem))
    obtain ⟨id, hid⟩ := hid
    have hforeign : id ∉ entry.callIds := h.id_notMem_callIds hentry hid hentry
    rw [hid] at hsame hresults
    cases EntryBlock.clash_of_identity_eq hsame with
    | reasoning index _ => exact hreasoning _ rfl _ rfl rfl
    | named callId tool => exact hnamed _ rfl _ rfl rfl
    | quoted tool => exact hforeign (List.mem_filterMap.mpr ⟨_, hmem, rfl⟩)
    | quotes tool => exact hforeign (List.mem_filterMap.mpr ⟨_, hmem', rfl⟩)
    | call tool _ => exact hcalls _ rfl _ rfl rfl
    | result answered answered' tool _ hevent =>
        exact hresults _ rfl _ rfl (congrArg (·, tool) hevent)
  · cases entry.text with
    | none => exact List.nodup_nil
    | some text => exact List.nodup_singleton _
  · intro fields hblock htext
    obtain ⟨block, -, rfl⟩ := List.mem_map.mp hblock
    obtain ⟨text, -, hsame⟩ := List.mem_map.mp htext
    exact EntryBlock.identity_ne_text hsame.symm

/-- Two entries share no identity but those of results. -/
theorem disjoint_identities {other : Entry} {id id' : String} (hid : entry.id = some id)
    (hid' : other.id = some id') (hne : id ≠ id') (hcalls : entry.callIds.Disjoint other.callIds)
    (hforeign : id ∉ other.callIds) (hforeign' : id' ∉ entry.callIds)
    (hresults : entry.resultKeys.Disjoint other.resultKeys)
    (hoffsets : ∀ offset ∈ entry.shownOffset, offset ∉ other.shownOffset) :
    (entry.identities source path).Disjoint (other.identities source path) := by
  intro fields hmem hmem'
  simp only [Entry.identities, hid, hid', Option.getD_some, List.mem_append, List.mem_map,
    Option.mem_toList] at hmem hmem'
  rcases hmem with ⟨block, hblock, rfl⟩ | ⟨text, htext, rfl⟩
  · rcases hmem' with ⟨block', hblock', hsame⟩ | ⟨text', htext', hsame⟩
    · cases EntryBlock.clash_of_identity_eq hsame.symm with
      | reasoning index hids => exact hne hids
      | named callId tool =>
          exact hcalls (List.mem_filterMap.mpr ⟨_, hblock, rfl⟩)
            (List.mem_filterMap.mpr ⟨_, hblock', rfl⟩)
      | quoted tool => exact hforeign' (List.mem_filterMap.mpr ⟨_, hblock, rfl⟩)
      | quotes tool => exact hforeign (List.mem_filterMap.mpr ⟨_, hblock', rfl⟩)
      | call tool hids => exact hne hids
      | result answered answered' tool hsession hevent =>
          refine @hresults (entry.session, resultEvent id answered, tool) ?_ ?_
          · simp only [Entry.resultKeys, hid, Option.getD_some]
            exact List.mem_map_of_mem (List.mem_filterMap.mpr ⟨_, hblock, rfl⟩)
          · simp only [Entry.resultKeys, hid', Option.getD_some, hsession, hevent]
            exact List.mem_map_of_mem (List.mem_filterMap.mpr ⟨_, hblock', rfl⟩)
    · exact EntryBlock.identity_ne_text hsame.symm
  · rcases hmem' with ⟨block', -, hsame⟩ | ⟨text', htext', hsame⟩
    · exact EntryBlock.identity_ne_text hsame
    · cases text with
      | spoken speaker =>
          cases text' with
          | spoken speaker' => exact hne (eventIdentity_inj hsame).2.1.symm
          | shown speaker' offset' => exact eventIdentity_ne_offsetIdentity hsame.symm
      | shown speaker offset =>
          cases text' with
          | spoken speaker' => exact eventIdentity_ne_offsetIdentity hsame
          | shown speaker' offset' =>
              have hoffset : offset' = offset := by
                simp only [EntryText.identity, offsetIdentity, List.cons.injEq, Prod.mk.injEq,
                  true_and, and_true] at hsame
                exact toString_inj hsame.2.1
              refine hoffsets offset ?_ ?_
              · rw [Entry.shownOffset, htext]
                rfl
              · rw [Entry.shownOffset, htext', hoffset]
                rfl

/-- The results of an entry are among its records. -/
theorem map_resultKeys_sublist (entry : Entry) :
    (entry.resultKeys.map fun key =>
      eventIdentity source key.1 key.2.1 "tool_result" key.2.2).Sublist
        (entry.identities source path) := by
  apply List.Sublist.trans _ (List.sublist_append_left _ _)
  rw [Entry.resultKeys]
  induction entry.blocks with
  | nil => exact List.Sublist.slnil
  | cons block rest ih =>
      cases block with
      | result answered tool => exact ih.cons_cons _
      | reasoning index => exact ih.cons _
      | namedCall callId tool => exact ih.cons _
      | call tool => exact ih.cons _

theorem flatMap_resultKeys_sublist :
    ((entries.flatMap Entry.resultKeys).map fun key =>
      eventIdentity source key.1 key.2.1 "tool_result" key.2.2).Sublist
        (entries.flatMap fun entry => entry.identities source path) := by
  induction entries with
  | nil => exact List.Sublist.slnil
  | cons entry rest ih =>
      rw [List.flatMap_cons, List.flatMap_cons, List.map_append]
      exact (map_resultKeys_sublist entry).append ih

/-- The identities of a transcript are different exactly when its entries keep them apart. -/
theorem IdsDistinct.nodup_flatMap_identities_iff (h : IdsDistinct entries)
    (hoffsets : (entries.filterMap Entry.shownOffset).Nodup) :
    (entries.flatMap fun entry => entry.identities source path).Nodup ↔ Apart entries := by
  constructor
  · intro hnodup
    have hblocks (entry : Entry) (hentry : entry ∈ entries) :
        entry.blocks.Pairwise fun block block' =>
          block.identity source entry.session (entry.id.getD "") ≠
            block'.identity source entry.session (entry.id.getD "") := by
      have hown := (List.nodup_flatMap.mp hnodup).1 entry hentry
      exact List.pairwise_map.mp (List.nodup_append'.mp hown).1
    constructor
    · intro entry hentry
      rw [List.Nodup, List.pairwise_filterMap]
      apply (hblocks entry hentry).imp
      rintro block block' hne index hindex _ hindex' rfl
      cases block <;> cases hindex
      cases block' <;> cases hindex'
      exact hne rfl
    · intro entry hentry
      rw [List.Nodup, List.pairwise_filterMap]
      apply (hblocks entry hentry).imp
      rintro block block' hne tool htool _ htool' rfl
      cases block <;> cases htool
      cases block' <;> cases htool'
      exact hne rfl
    · exact List.Nodup.of_map _ (flatMap_resultKeys_sublist.nodup hnodup)
  · rintro ⟨hreasoning, hcalls, hresults⟩
    obtain ⟨hids, hcallIds, -⟩ := List.nodup_append'.mp h.distinct
    obtain ⟨hresultsEach, hresultsPairs⟩ := List.nodup_flatMap.mp hresults
    obtain ⟨-, hcallPairs⟩ := List.nodup_flatMap.mp hcallIds
    rw [List.Nodup, List.pairwise_filterMap] at hids hoffsets
    apply List.nodup_flatMap.mpr
    constructor
    · intro entry hentry
      exact h.nodup_identities hentry (hreasoning entry hentry) (hcalls entry hentry)
        (hresultsEach entry hentry)
    · apply (((hids.and hoffsets).and hcallPairs).and hresultsPairs).imp_of_mem
      rintro entry other hentry hother ⟨⟨⟨hids, hoffsets⟩, hcallIds⟩, hresults⟩ fields hmem hmem'
      obtain ⟨id, hid⟩ := h.exists_id hentry hmem
      obtain ⟨id', hid'⟩ := h.exists_id hother hmem'
      exact disjoint_identities hid hid' (hids id hid id' hid') hcallIds
        (h.id_notMem_callIds hentry hid hother) (h.id_notMem_callIds hother hid' hentry) hresults
        (fun offset hoffset hoffset' => hoffsets offset hoffset offset hoffset' rfl) hmem hmem'

end Entries

end Memex.Retrieval
