import Memex.Lib.Transaction
import Memex.State.CheckpointObjects

/-! # Payloads of the checkpoint store

The JSON payloads of `state/checkpoint/codec.rs`: a typed update is written over the payload that
is stored, and what the stored one has besides is kept. Payloads are values, as they are parsed;
an error is `none`. -/

namespace Memex.State

open Sources Overlay

/-! ### Equality of stored values -/

/-- Numbers with the same text, as it is written, and the two zeros. -/
def sameFloat (left right : String) : Bool :=
  left = right || (left ∈ ["0.0", "-0.0"] && right ∈ ["0.0", "-0.0"])

mutual

/-- `Value: PartialEq`. The order of the members of an object does not matter. -/
def sameValue : Json → Json → Bool
  | .null, .null => true
  | .bool left, .bool right => left = right
  | .int left, .int right => left = right
  | .float left, .float right => sameFloat left right
  | .string left, .string right => left = right
  | .array left, .array right => sameItems left right
  | .object left, .object right =>
      sameMembers left right && right.all fun member => (left.lookup member.1).isSome
  | _, _ => false

def sameItems : List Json → List Json → Bool
  | [], [] => true
  | left :: lefts, right :: rights => sameValue left right && sameItems lefts rights
  | _, _ => false

/-- Every member of the first object has its equal in the second. -/
def sameMembers : List (String × Json) → List (String × Json) → Bool
  | [], _ => true
  | (key, value) :: rest, others =>
      (match others.lookup key with
        | some other => sameValue value other
        | none => false) && sameMembers rest others

end

theorem sameFloat_trans {first second third : String} (h : sameFloat first second)
    (h' : sameFloat second third) : sameFloat first third := by
  simp only [sameFloat, Bool.or_eq_true, Bool.and_eq_true, decide_eq_true_eq] at h h' ⊢
  obtain rfl | ⟨hfirst, hsecond⟩ := h
  · exact h'
  · obtain rfl | ⟨_, hthird⟩ := h'
    · exact Or.inr ⟨hfirst, hsecond⟩
    · exact Or.inr ⟨hfirst, hthird⟩

theorem mem_of_lookup {β : Type} {members : List (String × β)} {key : String} {value : β}
    (h : members.lookup key = some value) : (key, value) ∈ members := by
  induction members with
  | nil => cases h
  | cons member rest ih =>
      obtain ⟨name, old⟩ := member
      rw [lookup_cons_ite] at h
      split at h
      · rename_i hname
        obtain rfl := Option.some.inj h
        exact hname ▸ List.mem_cons_self
      · exact List.mem_cons_of_mem _ (ih h)

theorem sameMembers_iff {left right : List (String × Json)} :
    sameMembers left right ↔
      ∀ member ∈ left, ∃ other, right.lookup member.1 = some other ∧
        sameValue member.2 other := by
  induction left with
  | nil => simp [sameMembers]
  | cons member rest ih =>
      obtain ⟨key, value⟩ := member
      rw [sameMembers, Bool.and_eq_true, ih, List.forall_mem_cons]
      apply and_congr_left
      intro _
      cases right.lookup key <;> simp

mutual

theorem sameValue_trans : ∀ {first second third : Json}, sameValue first second →
    sameValue second third → sameValue first third
  | .null, .null, _, _, h' => h'
  | .bool _, .bool _, .bool _, h, h' => by
      simp only [sameValue, decide_eq_true_eq] at h h' ⊢
      exact h.trans h'
  | .int _, .int _, .int _, h, h' => by
      simp only [sameValue, decide_eq_true_eq] at h h' ⊢
      exact h.trans h'
  | .float _, .float _, .float _, h, h' => by
      simp only [sameValue] at h h' ⊢
      exact sameFloat_trans h h'
  | .string _, .string _, .string _, h, h' => by
      simp only [sameValue, decide_eq_true_eq] at h h' ⊢
      exact h.trans h'
  | .array _, .array _, .array _, h, h' => by
      simp only [sameValue] at h h' ⊢
      exact sameItems_trans h h'
  | .object first, .object second, .object third, h, h' => by
      simp only [sameValue, Bool.and_eq_true, List.all_eq_true] at h h' ⊢
      refine ⟨sameMembers_trans h.1 (sameMembers_iff.mp h'.1), fun member hmember => ?_⟩
      obtain ⟨value, hvalue⟩ := Option.isSome_iff_exists.mp (h'.2 member hmember)
      exact h.2 (member.1, value) (mem_of_lookup hvalue)

theorem sameItems_trans : ∀ {first second third : List Json}, sameItems first second →
    sameItems second third → sameItems first third
  | [], [], _, _, h' => h'
  | _ :: _, _ :: _, _ :: _, h, h' => by
      simp only [sameItems, Bool.and_eq_true] at h h' ⊢
      exact ⟨sameValue_trans h.1 h'.1, sameItems_trans h.2 h'.2⟩

theorem sameMembers_trans : ∀ {first second third : List (String × Json)},
    sameMembers first second → (∀ member ∈ second, ∃ other, third.lookup member.1 = some other ∧
      sameValue member.2 other) → sameMembers first third
  | [], _, _, _, _ => rfl
  | (key, value) :: rest, second, third, h, h' => by
      rw [sameMembers, Bool.and_eq_true] at h ⊢
      refine ⟨?_, sameMembers_trans h.2 h'⟩
      cases hsecond : second.lookup key with
      | none =>
          rw [hsecond] at h
          exact absurd h.1 Bool.false_ne_true
      | some middle =>
          rw [hsecond] at h
          obtain ⟨other, hother, hsame⟩ := h' _ (mem_of_lookup hsecond)
          rw [hother]
          exact sameValue_trans h.1 hsame

end

/-! ### The payloads -/

/-- `value[key] = new` on an object. -/
def setMember (key : String) (new : Json) : Json → Json
  | .object members => .object (insertMember key new members)
  | value => value

def asMembers : Json → Option (List (String × Json))
  | .object members => some members
  | _ => none

/-- The stored form of one pending tool call. -/
def storedCall (id : String) (old : Json) : Option Json :=
  (old.get "pending_tool_calls").bind (·.get id)

def filePayload (file : FileState) (previous : Option Json) : Option Json := do
  let value ← fileStateObject.preserve file previous
  let identity ← fileIdentityObject.preserve file.identity (previous.bind (·.get "identity"))
  let value := setMember "identity" identity value
  let calls ← (value.get "pending_tool_calls").bind asMembers
  let calls ← pendingToolCallObject.preserveEach file.pendingToolCalls
    (fun id => previous.bind (storedCall id)) calls
  some (setMember "pending_tool_calls" (.object calls) value)

def databasePayload (databases : Table String OpencodeDatabaseState) (previous : Json) :
    Option Json :=
  (databaseObject.preserveEach databases previous.get []).map .object

def pendingDocument : Option Json → Option (Option Json)
  | none => some none
  | some value =>
      if value.isObject then (pendingObject.fromValue value).map fun _ => some value else none

/-- The scopes that a payload lists. -/
def storedScopes (old : Option Json) : List Json :=
  ((old.bind (·.get "session_scopes")).bind Json.asArray).getD []

/-- Remember a stored scope under its identity. An unequal one of the same identity is an
error. -/
def collectScope (scopes : Table SessionScope Json) (scope : Json) :
    Option (Table SessionScope Json) :=
  (sessionScopeObject.fromValue scope).bind fun identity =>
    if ∀ previous ∈ scopes.lookup identity, sameValue previous scope then
      some (scopes.insert identity scope)
    else
      none

def collectScopes (scopes : List Json) : Option (Table SessionScope Json) :=
  scopes.foldlM collectScope ∅

def pendingPayload (pending : PendingIntent) (previous : Option Json) : Option Json := do
  let old ← pendingDocument previous
  let value ← pendingObject.preserve pending old
  let scopes ← collectScopes (storedScopes old)
  let kept ← pending.sessionScopes.mapM fun scope =>
    sessionScopeObject.preserve scope (scopes.lookup scope)
  some (setMember "session_scopes" (.array kept) value)

/-- The text of a sidecar: its length, and its value where it can be parsed. -/
structure RawDocument where
  bytes : Nat
  parsed : Option Json

/-- `ScanCache::MAX_JSON_BYTES`. -/
def maxJsonBytes : Nat := 80 * 1024 * 1024

def scanCacheDocument (raw : Option RawDocument) : Option Json :=
  ((raw.filter (·.bytes ≤ maxJsonBytes)).bind (·.parsed)).filter (·.isObject)

def scanCachePayload (cache : ScanCache) (previous : Option RawDocument) : Json :=
  match scanCacheDocument previous with
  | some (.object old) =>
      .object (extendMembers (scanCacheObject.members cache) (old.filter fun member =>
        member.1 ∉ (scanCacheObject.members cache).map Prod.fst))
  | _ => scanCacheObject.toValue cache

/-- The pending column after `commit_intent`, and whether the transaction has committed. -/
def commitPending (pending : PendingIntent) (fault : Option Nat) (stored : Option Json) :
    Option Json × Bool :=
  Transaction.commitAll [fun stored => (pendingPayload pending stored).map some] fault stored

/-! ### Rows of source files -/

/-- What a stored row has to be like for an update. -/
structure FileReadable (file : FileState) (old : Json) : Prop where
  row : fileStateObject.Readable old
  identity : ∀ stored ∈ old.get "identity", stored.isObject
  calls : ∀ id ∈ file.pendingToolCalls, ∀ stored ∈ storedCall id old, stored.isObject

/-- A payload that stands for a row and keeps what the stored row has besides, in the row, in
its identity and in each of its calls. -/
structure FileKept (file : FileState) (previous : Option Json) (value : Json) : Prop where
  row : fileStateObject.Preserved file previous value
  identity : ∃ identity, value.get "identity" = some identity ∧
    fileIdentityObject.Preserved file.identity (previous.bind (·.get "identity")) identity
  calls : ∀ id, ∀ call ∈ file.pendingToolCalls.lookup id, ∃ kept,
    storedCall id value = some kept ∧
      pendingToolCallObject.Preserved call (previous.bind (storedCall id)) kept

theorem isObject_iff {value : Json} : value.isObject ↔ ∃ members, value = .object members := by
  cases value <;> simp [Json.isObject]

theorem get_setMember {value : Json} (h : value.isObject) (key : String) (new : Json)
    (other : String) :
    (setMember key new value).get other = if other = key then some new else value.get other := by
  obtain ⟨members, rfl⟩ := isObject_iff.mp h
  exact lookup_insertMember key other new members

theorem isObject_setMember {value : Json} (h : value.isObject) (key : String) (new : Json) :
    (setMember key new value).isObject := by
  obtain ⟨members, rfl⟩ := isObject_iff.mp h
  rfl

/-- The parts of a payload that has been written. -/
theorem filePayload_eq_some {file : FileState} {previous : Option Json} {value : Json}
    (h : filePayload file previous = some value) :
    ∃ row identity calls, fileStateObject.preserve file previous = some row ∧
      fileIdentityObject.preserve file.identity (previous.bind (·.get "identity")) =
        some identity ∧
      pendingToolCallObject.preserveEach file.pendingToolCalls
        (fun id => previous.bind (storedCall id))
        (membersOf (fun key => (file.pendingToolCalls.lookup key).map
          pendingToolCallObject.toValue) (Codec.sortedKeys file.pendingToolCalls)) = some calls ∧
      value.isObject ∧ ∀ key, value.get key =
        if key = "pending_tool_calls" then some (.object calls)
        else if key = "identity" then some identity
        else row.get key := by
  simp only [filePayload, Option.bind_eq_bind, Option.bind_eq_some_iff] at h
  obtain ⟨row, hrow, identity, hidentity, members,
    ⟨stored, hstored, hmembers⟩, calls, hcalls, h⟩ := h
  obtain ⟨fields, rfl, hlookup⟩ := ObjectCodec.preserve_eq_some hrow
  have hobject : (Json.object fields).isObject := rfl
  rw [get_setMember hobject, if_neg (by decide), Json.get, hlookup, if_pos (by decide)] at hstored
  obtain rfl := Option.some.inj hstored
  obtain rfl := Option.some.inj hmembers
  obtain rfl := Option.some.inj h
  refine ⟨_, identity, calls, hrow, hidentity, hcalls, rfl, fun key => ?_⟩
  rw [get_setMember (isObject_setMember hobject _ _), get_setMember hobject]

/-- A payload stands for the row it was written from, and nothing unknown is lost. -/
theorem filePayload_kept {file : FileState} {previous : Option Json} {value : Json}
    (hfits : file.Fits) (h : filePayload file previous = some value) :
    FileKept file previous value := by
  obtain ⟨row, identity, calls, hrow, hidentity, hcalls, hobject, hget⟩ := filePayload_eq_some h
  obtain ⟨fields, rfl, hlookup⟩ := ObjectCodec.preserve_eq_some hrow
  have hkeptIdentity := ObjectCodec.preserved_of_preserve hfits.identity hidentity
  obtain ⟨hread, hkept⟩ := ObjectCodec.preserveEach_spec hfits.pendingToolCalls
    (fun key hkey => by rw [lookup_membersOf, if_neg hkey]) hcalls
  -- The members besides the two that were replaced.
  have hplain : ∀ key, key ≠ "identity" → key ≠ "pending_tool_calls" → value.get key =
      if key ∈ fileStateNames then fileStateSlot file key else previous.bind (·.get key) := by
    intro key hidentity hcalls
    rw [hget, if_neg hcalls, if_neg hidentity]
    exact hlookup key
  have hvalueIdentity : value.get "identity" = some identity := by
    rw [hget, if_neg (by decide), if_pos rfl]
  have hvalueCalls : value.get "pending_tool_calls" = some (.object calls) := by
    rw [hget, if_pos rfl]
  obtain ⟨members, rfl⟩ := isObject_iff.mp hobject
  refine ⟨⟨?_, ?_, ?_⟩, ⟨identity, hvalueIdentity, hkeptIdentity⟩, fun id call hcall => ?_⟩
  · change fileStateFields (fun name => members.lookup name) = some file
    apply fileStateFields_eq hfits
    · intro name hname hidentity hcalls
      exact (hplain name hidentity hcalls).trans (if_pos hname)
    · rw [show members.lookup "identity" = some identity from hvalueIdentity]
      exact hkeptIdentity.decodes
    · rw [show members.lookup "pending_tool_calls" = some (.object calls) from hvalueCalls]
      exact hread
  · intro key hkey
    have hne : key ≠ "identity" ∧ key ≠ "pending_tool_calls" := by
      constructor <;> rintro rfl <;> exact hkey (by decide)
    exact (hplain key hne.1 hne.2).trans (if_neg hkey)
  · intro key hkey hnone
    have hne : key ≠ "identity" ∧ key ≠ "pending_tool_calls" := by
      constructor <;> rintro rfl <;> cases hnone
    exact (hplain key hne.1 hne.2).trans ((if_pos hkey).trans hnone)
  · obtain ⟨kept, hlookupCall, hpreserved⟩ := hkept id call hcall
    refine ⟨kept, ?_, hpreserved⟩
    rw [storedCall, hvalueCalls]
    exact hlookupCall

theorem fileStateFields_parts {found : String → Option Json} {file : FileState}
    (h : fileStateFields found = some file) :
    fileIdentityObject.asValue.defaulted {} (found "identity") = some file.identity ∧
      (Codec.table pendingToolCallObject.asValue).defaulted ∅ (found "pending_tool_calls") =
        some file.pendingToolCalls := by
  simp only [fileStateFields, Option.bind_eq_bind, Option.bind_eq_some_iff] at h
  obtain ⟨size, _, mtime, _, offset, _, turn, _, legacy, _, parser, _, calls, hcalls, identity,
    hidentity, background, _, codex, _, h⟩ := h
  obtain rfl := Option.some.inj h
  exact ⟨hidentity, hcalls⟩

/-- A stored row that can be read has an identity and calls that can be read. -/
theorem parts_of_readable {old : Json} (h : fileStateObject.Readable old) :
    (∀ stored ∈ old.get "identity", (fileIdentityObject.fromValue stored).isSome) ∧
      ∀ id, ∀ stored ∈ storedCall id old, (pendingToolCallObject.fromValue stored).isSome := by
  obtain ⟨hobject, hread⟩ := h
  obtain ⟨members, rfl⟩ := isObject_iff.mp hobject
  obtain ⟨file, hfile⟩ := Option.isSome_iff_exists.mp hread
  have hfields : fileStateFields (fun name => members.lookup name) = some file := hfile
  obtain ⟨hidentity, hcalls⟩ := fileStateFields_parts hfields
  constructor
  · intro stored hstored
    rw [show members.lookup "identity" = some stored from hstored] at hidentity
    exact Option.isSome_of_eq_some hidentity
  · intro id stored hstored
    obtain ⟨calls, hstoredCalls, hcall⟩ := Option.bind_eq_some_iff.mp hstored
    rw [show members.lookup "pending_tool_calls" = some calls from hstoredCalls] at hcalls
    cases calls with
    | object calls => exact Codec.isSome_of_readTable (Option.isSome_of_eq_some hcalls) hcall
    | _ => cases hcall

theorem filePayload_isSome_iff {file : FileState} {previous : Option Json} :
    (filePayload file previous).isSome ↔ ∀ old ∈ previous, FileReadable file old := by
  constructor
  · intro h old hold
    obtain ⟨value, hvalue⟩ := Option.isSome_iff_exists.mp h
    obtain ⟨row, identity, calls, hrow, hidentity, hcalls, _⟩ := filePayload_eq_some hvalue
    obtain rfl := Option.mem_def.mp hold
    refine ⟨?_, fun stored hstored => ?_, fun id hid stored hstored => ?_⟩
    · exact ObjectCodec.preserve_isSome_iff.mp (Option.isSome_of_eq_some hrow) old rfl
    · exact (ObjectCodec.preserve_isSome_iff.mp (Option.isSome_of_eq_some hidentity) stored
        hstored).1
    · exact (ObjectCodec.preserveEach_isSome_iff.mp (Option.isSome_of_eq_some hcalls) id hid
        stored hstored).1
  · intro h
    have hrow : (fileStateObject.preserve file previous).isSome :=
      ObjectCodec.preserve_isSome_iff.mpr fun old hold => (h old hold).row
    have hidentity : (fileIdentityObject.preserve file.identity
        (previous.bind (·.get "identity"))).isSome := by
      rw [ObjectCodec.preserve_isSome_iff]
      intro stored hstored
      obtain ⟨old, hold, hstored⟩ := Option.bind_eq_some_iff.mp hstored
      exact ⟨(h old hold).identity stored hstored,
        (parts_of_readable (h old hold).row).1 stored hstored⟩
    have hcalls : ∀ members, (pendingToolCallObject.preserveEach file.pendingToolCalls
        (fun id => previous.bind (storedCall id)) members).isSome := by
      intro members
      rw [ObjectCodec.preserveEach_isSome_iff]
      intro id hid stored hstored
      obtain ⟨old, hold, hstored⟩ := Option.bind_eq_some_iff.mp hstored
      exact ⟨(h old hold).calls id hid stored hstored,
        (parts_of_readable (h old hold).row).2 id stored hstored⟩
    obtain ⟨row, hrow⟩ := Option.isSome_iff_exists.mp hrow
    obtain ⟨identity, hidentity⟩ := Option.isSome_iff_exists.mp hidentity
    obtain ⟨fields, rfl, hlookup⟩ := ObjectCodec.preserve_eq_some hrow
    have hstored : (setMember "identity" identity (.object fields)).get "pending_tool_calls" =
        fileStateSlot file "pending_tool_calls" := by
      rw [get_setMember rfl, if_neg (by decide)]
      exact (hlookup _).trans (if_pos (by decide))
    obtain ⟨calls, hcalls⟩ := Option.isSome_iff_exists.mp (hcalls
      (membersOf (fun key => (file.pendingToolCalls.lookup key).map
        pendingToolCallObject.toValue) (Codec.sortedKeys file.pendingToolCalls)))
    simp only [filePayload, hrow, hidentity, Option.bind_eq_bind, Option.bind_some, hstored]
    exact Option.isSome_of_eq_some (Option.bind_eq_some_iff.mpr
      ⟨_, rfl, Option.bind_eq_some_iff.mpr ⟨calls, hcalls, rfl⟩⟩)

/-! ### OpenCode databases -/

/-- A payload that stands for the databases, each with what was stored under its path. -/
structure DatabasesKept (databases : Table String OpencodeDatabaseState) (previous value : Json) :
    Prop where
  decodes : (Codec.table databaseObject.asValue).fromValue value = some databases
  databases : ∀ path, ∀ database ∈ databases.lookup path, ∃ kept, value.get path = some kept ∧
    databaseObject.Preserved database (previous.get path) kept

theorem databasePayload_kept {databases : Table String OpencodeDatabaseState}
    {previous value : Json} (hfits : (Codec.table databaseObject.asValue).Fits databases)
    (h : databasePayload databases previous = some value) :
    DatabasesKept databases previous value := by
  obtain ⟨members, hmembers, rfl⟩ := Option.map_eq_some_iff.mp h
  obtain ⟨hread, hkept⟩ := ObjectCodec.preserveEach_spec hfits (fun _ _ => rfl) hmembers
  exact ⟨hread, hkept⟩

theorem databasePayload_isSome_iff {databases : Table String OpencodeDatabaseState}
    {previous : Json} : (databasePayload databases previous).isSome ↔
      ∀ path ∈ databases, ∀ stored ∈ previous.get path, databaseObject.Readable stored := by
  rw [databasePayload, Option.isSome_map, ObjectCodec.preserveEach_isSome_iff]

/-! ### Scopes by their identity -/

/-- Stored scopes of one identity are equal. -/
def Agree (earlier later : Json) : Prop :=
  ∀ identity, sessionScopeObject.fromValue earlier = some identity →
    sessionScopeObject.fromValue later = some identity → sameValue earlier later

/-- What has been remembered of the stored scopes seen so far: the last one of each identity,
which the others of that identity are equal to. -/
structure Collected (seen : List Json) (scopes : Table SessionScope Json) : Prop where
  known : ∀ scope ∈ seen, ∃ identity kept, sessionScopeObject.fromValue scope = some identity ∧
    scopes.lookup identity = some kept ∧ (scope = kept ∨ sameValue scope kept)
  found : ∀ identity, ∀ kept ∈ scopes.lookup identity,
    kept ∈ seen ∧ sessionScopeObject.fromValue kept = some identity
  agree : seen.Pairwise Agree

theorem collected_nil : Collected [] ∅ where
  known := by simp
  found := by simp
  agree := List.Pairwise.nil

theorem collectScope_eq_some {scopes next : Table SessionScope Json} {scope : Json}
    (h : collectScope scopes scope = some next) :
    ∃ identity, sessionScopeObject.fromValue scope = some identity ∧
      (∀ previous ∈ scopes.lookup identity, sameValue previous scope) ∧
      next = scopes.insert identity scope := by
  obtain ⟨identity, hidentity, h⟩ := Option.bind_eq_some_iff.mp h
  split at h
  · rename_i hsame
    exact ⟨identity, hidentity, hsame, (Option.some.inj h).symm⟩
  · cases h

/-- A scope is remembered when those of its identity seen before are equal to it. -/
theorem Collected.step {seen : List Json} {scopes next : Table SessionScope Json} {scope : Json}
    (h : Collected seen scopes) (hstep : collectScope scopes scope = some next) :
    Collected (seen ++ [scope]) next := by
  obtain ⟨identity, hidentity, hsame, rfl⟩ := collectScope_eq_some hstep
  -- Equality with the one remembered reaches every scope before it.
  have hall : ∀ earlier ∈ seen, sessionScopeObject.fromValue earlier = some identity →
      sameValue earlier scope := by
    intro earlier hearlier hread
    obtain ⟨other, kept, hother, hkept, hequal⟩ := h.known earlier hearlier
    obtain rfl := Option.some.inj (hread.symm.trans hother)
    obtain rfl | hequal := hequal
    · exact hsame _ hkept
    · exact sameValue_trans hequal (hsame kept hkept)
  refine ⟨fun earlier hearlier => ?_, fun other kept hkept => ?_, ?_⟩
  · obtain hearlier | hearlier := List.mem_append.mp hearlier
    · obtain ⟨other, kept, hother, hkept, hequal⟩ := h.known earlier hearlier
      by_cases hsameIdentity : other = identity
      · subst hsameIdentity
        exact ⟨other, scope, hother, Finmap.lookup_insert _, Or.inr (hall earlier hearlier hother)⟩
      · refine ⟨other, kept, hother, ?_, hequal⟩
        rw [Finmap.lookup_insert_of_ne _ hsameIdentity, hkept]
    · obtain rfl := List.mem_singleton.mp hearlier
      exact ⟨identity, earlier, hidentity, Finmap.lookup_insert _, Or.inl rfl⟩
  · rw [lookup_insert_ite] at hkept
    split at hkept
    · rename_i hother
      obtain rfl := Option.some.inj hkept
      exact ⟨List.mem_append_right _ List.mem_cons_self, hother ▸ hidentity⟩
    · obtain ⟨hmem, hread⟩ := h.found other kept hkept
      exact ⟨List.mem_append_left _ hmem, hread⟩
  · rw [List.pairwise_append]
    refine ⟨h.agree, List.pairwise_singleton _ _, fun earlier hearlier later hlater => ?_⟩
    obtain rfl := List.mem_singleton.mp hlater
    intro other hread hother
    obtain rfl := Option.some.inj (hother.symm.trans hidentity)
    exact hall earlier hearlier hread

theorem Collected.run {seen rest : List Json} {scopes result : Table SessionScope Json}
    (h : Collected seen scopes) (hrun : rest.foldlM collectScope scopes = some result) :
    Collected (seen ++ rest) result := by
  induction rest generalizing seen scopes with
  | nil =>
      obtain rfl := Option.some.inj hrun
      rwa [List.append_nil]
  | cons scope rest ih =>
      rw [List.foldlM_cons] at hrun
      obtain ⟨next, hnext, hrest⟩ := Option.bind_eq_some_iff.mp hrun
      rw [List.append_cons]
      exact ih (h.step hnext) hrest

theorem collected {stored : List Json} {scopes : Table SessionScope Json}
    (h : collectScopes stored = some scopes) : Collected stored scopes :=
  collected_nil.run h

theorem Collected.run_isSome {seen rest : List Json} {scopes : Table SessionScope Json}
    (h : Collected seen scopes)
    (hread : ∀ scope ∈ rest, (sessionScopeObject.fromValue scope).isSome)
    (hagree : (seen ++ rest).Pairwise Agree) :
    (rest.foldlM collectScope scopes).isSome := by
  induction rest generalizing seen scopes with
  | nil => rfl
  | cons scope rest ih =>
      obtain ⟨identity, hidentity⟩ := Option.isSome_iff_exists.mp
        (hread scope List.mem_cons_self)
      have hsame : ∀ previous ∈ scopes.lookup identity, sameValue previous scope := by
        intro previous hprevious
        obtain ⟨hmem, hother⟩ := h.found identity previous hprevious
        exact (List.pairwise_append.mp hagree).2.2 previous hmem scope List.mem_cons_self
          identity hother hidentity
      have hnext : collectScope scopes scope = some (scopes.insert identity scope) := by
        rw [collectScope, hidentity, Option.bind_some, if_pos hsame]
      rw [List.foldlM_cons, hnext]
      apply ih (h.step hnext) fun other hother => hread other (List.mem_cons_of_mem _ hother)
      rwa [← List.append_cons]

/-- The stored scopes are collected when all can be read and those of one identity are equal. -/
theorem collectScopes_isSome_iff {stored : List Json} :
    (collectScopes stored).isSome ↔
      (∀ scope ∈ stored, (sessionScopeObject.fromValue scope).isSome) ∧
        stored.Pairwise Agree := by
  constructor
  · intro h
    obtain ⟨scopes, hscopes⟩ := Option.isSome_iff_exists.mp h
    have hcollected := collected hscopes
    refine ⟨fun scope hscope => ?_, hcollected.agree⟩
    obtain ⟨identity, _, hidentity, _⟩ := hcollected.known scope hscope
    exact Option.isSome_of_eq_some hidentity
  · rintro ⟨hread, hagree⟩
    exact collected_nil.run_isSome hread hagree

/-! ### The pending intent -/

/-- What is stored of a scope: the last stored one of its identity, which the others of that
identity are equal to. -/
structure StoredAs (scope : SessionScope) (stored : List Json) (before : Option Json) : Prop where
  last : ∀ kept ∈ before, kept ∈ stored ∧ sessionScopeObject.fromValue kept = some scope
  all : ∀ other ∈ stored, sessionScopeObject.fromValue other = some scope →
    ∃ kept, before = some kept ∧ (other = kept ∨ sameValue other kept)

/-- What a stored intent has to be like for an update. -/
structure PendingReadable (pending : PendingIntent) (old : Json) : Prop where
  intent : pendingObject.Readable old
  agree : (storedScopes (some old)).Pairwise Agree
  scopes : ∀ stored ∈ storedScopes (some old), ∀ scope ∈ pending.sessionScopes,
    sessionScopeObject.fromValue stored = some scope → stored.isObject

/-- A payload that stands for an intent and keeps what the stored one has besides, in the intent
and in each scope by its identity. -/
structure PendingKept (pending : PendingIntent) (previous : Option Json) (value : Json) :
    Prop where
  intent : pendingObject.Preserved pending previous value
  scopes : ∃ kept, value.get "session_scopes" = some (.array kept) ∧
    List.Forall₂ (fun scope written => ∃ before, StoredAs scope (storedScopes previous) before ∧
      sessionScopeObject.Preserved scope before written) pending.sessionScopes kept

theorem Collected.storedAs {stored : List Json} {scopes : Table SessionScope Json}
    (h : Collected stored scopes) (scope : SessionScope) :
    StoredAs scope stored (scopes.lookup scope) where
  last := h.found scope
  all other hother hread := by
    obtain ⟨identity, kept, hidentity, hkept, hequal⟩ := h.known other hother
    obtain rfl := Option.some.inj (hread.symm.trans hidentity)
    exact ⟨kept, hkept, hequal⟩

theorem pendingDocument_eq_some {previous old : Option Json}
    (h : pendingDocument previous = some old) :
    old = previous ∧ ∀ stored ∈ previous, pendingObject.Readable stored := by
  cases previous with
  | none =>
      obtain rfl := Option.some.inj h
      exact ⟨rfl, by simp⟩
  | some stored =>
      rw [pendingDocument] at h
      split at h
      · rename_i hobject
        obtain ⟨pending, hpending, rfl⟩ := Option.map_eq_some_iff.mp h
        refine ⟨rfl, fun other hother => ?_⟩
        obtain rfl := Option.some.inj hother
        exact ⟨hobject, Option.isSome_of_eq_some hpending⟩
      · cases h

theorem pendingDocument_of_readable {previous : Option Json}
    (h : ∀ stored ∈ previous, pendingObject.Readable stored) :
    pendingDocument previous = some previous := by
  cases previous with
  | none => rfl
  | some stored =>
      obtain ⟨hobject, hread⟩ := h stored rfl
      obtain ⟨pending, hpending⟩ := Option.isSome_iff_exists.mp hread
      rw [pendingDocument, if_pos hobject, hpending]
      rfl

/-- The parts of a payload that has been written. -/
theorem pendingPayload_eq_some {pending : PendingIntent} {previous : Option Json} {value : Json}
    (h : pendingPayload pending previous = some value) :
    ∃ row scopes kept, (∀ stored ∈ previous, pendingObject.Readable stored) ∧
      pendingObject.preserve pending previous = some row ∧
      collectScopes (storedScopes previous) = some scopes ∧
      List.Forall₂ (fun scope written =>
        sessionScopeObject.preserve scope (scopes.lookup scope) = some written)
        pending.sessionScopes kept ∧
      value = setMember "session_scopes" (.array kept) row := by
  simp only [pendingPayload, Option.bind_eq_bind, Option.bind_eq_some_iff] at h
  obtain ⟨old, hold, row, hrow, scopes, hscopes, kept, hkept, h⟩ := h
  obtain ⟨rfl, hreadable⟩ := pendingDocument_eq_some hold
  obtain rfl := Option.some.inj h
  exact ⟨row, scopes, kept, hreadable, hrow, hscopes, mapM_eq_some_iff.mp hkept, rfl⟩

/-- A payload stands for the intent it was written from, and nothing unknown is lost. -/
theorem pendingPayload_kept {pending : PendingIntent} {previous : Option Json} {value : Json}
    (hfits : pending.Fits) (h : pendingPayload pending previous = some value) :
    PendingKept pending previous value := by
  obtain ⟨row, scopes, kept, _, hrow, hscopes, hkept, rfl⟩ := pendingPayload_eq_some h
  obtain ⟨fields, rfl, hlookup⟩ := ObjectCodec.preserve_eq_some hrow
  have hcollected := collected hscopes
  have hwritten : List.Forall₂ (fun scope written => ∃ before,
      StoredAs scope (storedScopes previous) before ∧
        sessionScopeObject.Preserved scope before written) pending.sessionScopes kept :=
    hkept.imp fun scope written hwritten => ⟨scopes.lookup scope, hcollected.storedAs scope,
      ObjectCodec.preserved_of_preserve trivial hwritten⟩
  have hget := get_setMember (rfl : (Json.object fields).isObject) "session_scopes" (.array kept)
  have hvalueScopes := (hget "session_scopes").trans (if_pos rfl)
  have hplain : ∀ key, key ≠ "session_scopes" →
      (setMember "session_scopes" (.array kept) (.object fields)).get key =
        if key ∈ pendingNames then pendingSlot pending key else previous.bind (·.get key) :=
    fun key hne => ((hget key).trans (if_neg hne)).trans (hlookup key)
  refine ⟨⟨?_, ?_, ?_⟩, ⟨kept, hvalueScopes, hwritten⟩⟩
  · change pendingFields (fun name => (insertMember "session_scopes" (.array kept) fields).lookup
      name) = some pending
    apply pendingFields_eq hfits
    · intro name hname hne
      exact (hplain name hne).trans (if_pos hname)
    · rw [lookup_insertMember, if_pos rfl]
      apply mapM_eq_some_iff.mpr
      apply List.Forall₂.flip
      apply hwritten.imp
      rintro scope written ⟨_, _, hpreserved⟩
      exact hpreserved.decodes
  · intro key hkey
    have hne : key ≠ "session_scopes" := by
      rintro rfl
      exact hkey (by decide)
    exact (hplain key hne).trans (if_neg hkey)
  · intro key hkey hnone
    have hne : key ≠ "session_scopes" := by
      rintro rfl
      cases hnone
    exact (hplain key hne).trans ((if_pos hkey).trans hnone)

theorem isSome_of_mapM {α β : Type} {f : α → Option β} {items : List α} {results : List β}
    (h : items.mapM f = some results) {item : α} (hitem : item ∈ items) : (f item).isSome := by
  have hforall := mapM_eq_some_iff.mp h
  clear h
  induction hforall with
  | nil => cases hitem
  | cons hhead _ ih =>
      obtain rfl | hlater := List.mem_cons.mp hitem
      · exact Option.isSome_of_eq_some hhead
      · exact ih hlater

/-- The scopes of an intent that can be read can be read. -/
theorem scopes_of_readable {old : Json} (h : pendingObject.Readable old) :
    ∀ scope ∈ storedScopes (some old), (sessionScopeObject.fromValue scope).isSome := by
  obtain ⟨hobject, hread⟩ := h
  obtain ⟨members, rfl⟩ := isObject_iff.mp hobject
  obtain ⟨pending, hpending⟩ := Option.isSome_iff_exists.mp hread
  have hfields : pendingFields (fun name => members.lookup name) = some pending := hpending
  simp only [pendingFields, Option.bind_eq_bind, Option.bind_eq_some_iff] at hfields
  obtain ⟨next, _, sources, _, vectors, _, scopes, hscopes, _⟩ := hfields
  intro scope hscope
  rw [storedScopes, Option.bind_some] at hscope
  cases hlookup : (Json.object members).get "session_scopes" with
  | none =>
      rw [hlookup] at hscope
      cases hscope
  | some stored =>
      rw [hlookup] at hscope
      rw [show members.lookup "session_scopes" = some stored from hlookup] at hscopes
      cases stored with
      | array items =>
          exact isSome_of_mapM hscopes hscope
      | _ => cases hscope

theorem isObject_of_sameValue {left right : Json} (h : sameValue left right)
    (hobject : right.isObject) : left.isObject := by
  obtain ⟨members, rfl⟩ := isObject_iff.mp hobject
  cases left with
  | object _ => rfl
  | _ => simp [sameValue] at h

/-- Every scope of the intent takes what is stored of it when that is an object. -/
theorem preserveScopes_isSome_iff {scopes : Table SessionScope Json} {wanted : List SessionScope} :
    (wanted.mapM fun scope => sessionScopeObject.preserve scope (scopes.lookup scope)).isSome ↔
      ∀ scope ∈ wanted, ∀ stored ∈ scopes.lookup scope, sessionScopeObject.Readable stored := by
  induction wanted with
  | nil => simp
  | cons scope rest ih =>
      rw [List.mapM_cons, List.forall_mem_cons, ← ih, ← ObjectCodec.preserve_isSome_iff]
      cases sessionScopeObject.preserve scope (scopes.lookup scope) with
      | none => simp
      | some written =>
          cases rest.mapM fun scope => sessionScopeObject.preserve scope (scopes.lookup scope) <;>
            simp

theorem pendingPayload_isSome_iff {pending : PendingIntent} {previous : Option Json} :
    (pendingPayload pending previous).isSome ↔
      ∀ old ∈ previous, PendingReadable pending old := by
  constructor
  · intro h old hold
    obtain ⟨value, hvalue⟩ := Option.isSome_iff_exists.mp h
    obtain ⟨row, scopes, kept, hreadable, hrow, hscopes, hkept, rfl⟩ :=
      pendingPayload_eq_some hvalue
    obtain rfl := Option.mem_def.mp hold
    have hcollected := collected hscopes
    refine ⟨hreadable old rfl, hcollected.agree, fun stored hstored scope hscope hread => ?_⟩
    obtain ⟨last, hlast, hequal⟩ := (hcollected.storedAs scope).all stored hstored hread
    have hobject := (preserveScopes_isSome_iff.mp (Option.isSome_of_eq_some
      (mapM_eq_some_iff.mpr hkept)) scope hscope last hlast).1
    obtain rfl | hequal := hequal
    · exact hobject
    · exact isObject_of_sameValue hequal hobject
  · intro h
    have hdocument := pendingDocument_of_readable fun old hold => (h old hold).intent
    have hrow : (pendingObject.preserve pending previous).isSome :=
      ObjectCodec.preserve_isSome_iff.mpr fun old hold => (h old hold).intent
    have hscopes : (collectScopes (storedScopes previous)).isSome := by
      rw [collectScopes_isSome_iff]
      cases previous with
      | none => exact ⟨by simp [storedScopes], List.Pairwise.nil⟩
      | some old => exact ⟨scopes_of_readable (h old rfl).intent, (h old rfl).agree⟩
    obtain ⟨row, hrow⟩ := Option.isSome_iff_exists.mp hrow
    obtain ⟨scopes, hscopes⟩ := Option.isSome_iff_exists.mp hscopes
    have hkept : (pending.sessionScopes.mapM fun scope =>
        sessionScopeObject.preserve scope (scopes.lookup scope)).isSome := by
      rw [preserveScopes_isSome_iff]
      intro scope hscope stored hstored
      obtain ⟨hmem, hread⟩ := (collected hscopes).found scope stored hstored
      refine ⟨?_, Option.isSome_of_eq_some hread⟩
      cases previous with
      | none => cases hmem
      | some old => exact (h old rfl).scopes stored hmem scope hscope hread
    obtain ⟨kept, hkept⟩ := Option.isSome_iff_exists.mp hkept
    simp [pendingPayload, hdocument, hrow, hscopes, hkept]

/-- An error leaves the pending column as it was. -/
theorem commitPending_of_conflict {pending : PendingIntent} {stored : Option Json}
    (h : ¬ (storedScopes stored).Pairwise Agree) (fault : Option Nat) :
    commitPending pending fault stored = (stored, false) := by
  have hnone : pendingPayload pending stored = none := by
    rw [← Option.not_isSome_iff_eq_none, pendingPayload_isSome_iff]
    intro hreadable
    cases stored with
    | none => exact h List.Pairwise.nil
    | some old => exact h (hreadable old rfl).agree
  obtain ⟨copy, hcopy, _⟩ | hfailed := Transaction.commitAll_cases
    [fun stored => (pendingPayload pending stored).map some] fault stored
  · rw [Transaction.runAll_cons, hnone] at hcopy
    cases hcopy
  · exact hfailed

/-! ### The scan cache -/

theorem scanCacheDocument_eq {raw : RawDocument} (h : raw.bytes ≤ maxJsonBytes) :
    scanCacheDocument (some raw) = raw.parsed.filter (·.isObject) := by
  rw [scanCacheDocument, Option.filter_some, if_pos (decide_eq_true h), Option.bind_some]

/-- The scan cache keeps what the stored object has besides; what is no object is dropped. -/
theorem scanCachePayload_kept {cache : ScanCache} (hfits : cache.Fits)
    (previous : Option RawDocument) :
    scanCacheObject.Preserved cache (scanCacheDocument previous)
      (scanCachePayload cache previous) := by
  rw [scanCachePayload]
  cases hdocument : scanCacheDocument previous with
  | none => exact ObjectCodec.preserved_of_preserve hfits rfl
  | some old =>
      have hobject : old.isObject := (Option.mem_filter_iff.mp hdocument).2
      obtain ⟨members, rfl⟩ := isObject_iff.mp hobject
      apply ObjectCodec.preserved_of_lookup hfits
      intro key
      have hnames : (scanCacheObject.members cache).map Prod.fst = scanCacheObject.fields := rfl
      rw [lookup_extendMembers, hnames, lookup_filter_key fun name =>
        decide (name ∉ scanCacheObject.fields), ObjectCodec.members, lookup_membersOf]
      by_cases hkey : key ∈ scanCacheObject.fields <;> simp [hkey, Json.get]

/-! ### Preservation -/

/-- A payload is written exactly over a stored one whose known parts are objects that can be
read. It then stands for the typed value and keeps what the stored one has besides, at each
level; unequal stored scopes of one identity are an error that leaves the stored value. A stored
scan cache is never an error, and is kept within its bound. -/
theorem payloads_keep_extensions {file : FileState}
    {databases : Table String OpencodeDatabaseState} {pending : PendingIntent} {cache : ScanCache}
    (hfile : file.Fits) (hdatabases : (Codec.table databaseObject.asValue).Fits databases)
    (hpending : pending.Fits) (hcache : cache.Fits) :
    (∀ previous, ((filePayload file previous).isSome ↔
        ∀ old ∈ previous, FileReadable file old) ∧
      ∀ value ∈ filePayload file previous, FileKept file previous value) ∧
    (∀ previous, ((databasePayload databases previous).isSome ↔
        ∀ path ∈ databases, ∀ stored ∈ previous.get path, databaseObject.Readable stored) ∧
      ∀ value ∈ databasePayload databases previous, DatabasesKept databases previous value) ∧
    (∀ previous, ((pendingPayload pending previous).isSome ↔
        ∀ old ∈ previous, PendingReadable pending old) ∧
      ∀ value ∈ pendingPayload pending previous, PendingKept pending previous value) ∧
    (∀ stored, ¬ (storedScopes stored).Pairwise Agree → ∀ fault,
      commitPending pending fault stored = (stored, false)) ∧
    (∀ previous : Option RawDocument,
      scanCacheObject.Preserved cache (scanCacheDocument previous)
        (scanCachePayload cache previous)) ∧
    ∀ raw : RawDocument, raw.bytes ≤ maxJsonBytes →
      scanCacheDocument (some raw) = raw.parsed.filter (·.isObject) := by
  refine ⟨fun previous => ⟨filePayload_isSome_iff, ?_⟩,
    fun previous => ⟨databasePayload_isSome_iff, ?_⟩,
    fun previous => ⟨pendingPayload_isSome_iff, ?_⟩,
    fun stored hconflict fault => commitPending_of_conflict hconflict fault,
    scanCachePayload_kept hcache, fun raw hraw => scanCacheDocument_eq hraw⟩
  · exact fun value hvalue => filePayload_kept hfile hvalue
  · exact fun value hvalue => databasePayload_kept hdatabases hvalue
  · exact fun value hvalue => pendingPayload_kept hpending hvalue

def plainRow : FileState where
  size := 6
  mtime := 4
  offset := 6
  turnId := 2

/-! A row, a database and an intent that were stored with members the program does not know. -/

def callRow : FileState :=
  { plainRow with pendingToolCalls := Finmap.singleton "call" { toolName := some "shell" } }

/-- Its identity used to have a device, and its call a name for the session. -/
def extendedRow : Json :=
  .object [("extension", .int 7), ("size", .int 5), ("mtime", .int 3), ("offset", .int 5),
    ("turn_id", .int 1), ("legacy_turn_id", .int 9),
    ("identity", .object [("device", .int 2), ("label", .string "kept")]),
    ("pending_tool_calls", .object
      [("call", .object [("session_id", .string "s"), ("label", .string "kept")])])]

def oneDatabase : Table String OpencodeDatabaseState :=
  Finmap.singleton "/a.db" { eventRowid := 5 }

def extendedDatabases : Json :=
  .object [("/a.db", .object [("parser_version", .int 1), ("event_rowid", .int 3),
    ("event_id", .null), ("owned_session_ids", .array []), ("label", .string "kept")])]

def twoScopes : PendingIntent where
  nextDocId := 4
  sourcePaths := ["/b"]
  sessionScopes := [⟨"/b", "t"⟩, ⟨"/a", "s"⟩]

/-- The intent before had one of the scopes. -/
def extendedIntent : Json :=
  .object [("next_doc_id", .int 1), ("source_paths", .array []), ("extension", .int 7),
    ("session_scopes", .array [.object [("source_path", .string "/a"), ("session_id", .string "s"),
      ("label", .string "kept")]])]

theorem fits_singleton {α : Type} {codec : ValueCodec α} {key : String} {value : α}
    (h : codec.Fits value) : (Codec.table codec).Fits (Finmap.singleton key value) := by
  intro other row hrow
  have hmem : other ∈ (Finmap.singleton key value : Table String α) :=
    Finmap.lookup_isSome.mp (Option.isSome_of_eq_some hrow)
  obtain rfl := (Finmap.mem_singleton other key value).mp hmem
  obtain rfl := Option.some.inj (Finmap.lookup_singleton_eq.symm.trans hrow)
  exact h

theorem callRow_fits : callRow.Fits := by
  constructor <;> simp [callRow, plainRow, Codec.u64, Codec.i64, Codec.u32]
  · exact fits_singleton ⟨by simp, by simp [Codec.u64], by simp⟩
  · exact ⟨by simp, by simp, by simp, by simp [Codec.u64], by simp, by simp⟩

/-- What was stored besides is kept at each level, and what the values have cleared is gone. -/
theorem payloads_keep_extensions_of_checkpoint :
    (∃ value, filePayload callRow (some extendedRow) = some value ∧
      fileStateObject.fromValue value = some callRow ∧
      value.get "extension" = some (.int 7) ∧ value.get "legacy_turn_id" = none ∧
      (value.get "identity").bind (·.get "label") = some (.string "kept") ∧
      (value.get "identity").bind (·.get "device") = none ∧
      (storedCall "call" value).bind (·.get "label") = some (.string "kept") ∧
      (storedCall "call" value).bind (·.get "session_id") = none) ∧
    (∃ value, databasePayload oneDatabase extendedDatabases = some value ∧
      (value.get "/a.db").bind (·.get "label") = some (.string "kept")) ∧
    ∃ value old fresh, pendingPayload twoScopes (some extendedIntent) = some value ∧
      value.get "session_scopes" = some (.array [fresh, old]) ∧
      old.get "label" = some (.string "kept") ∧ value.get "extension" = some (.int 7) := by
  have hdatabase : (Codec.table databaseObject.asValue).Fits oneDatabase :=
    fits_singleton ⟨by simp [Codec.u32], by simp [Codec.i64], by simp [Codec.table]⟩
  obtain ⟨hrows, hdatabases, hintents, _⟩ := @payloads_keep_extensions callRow oneDatabase twoScopes
    {} callRow_fits hdatabase ⟨by simp [twoScopes, Codec.u64]⟩
    (by constructor <;> simp [Codec.u64])
  refine ⟨?_, ?_, ?_⟩
  · obtain ⟨haccepts, hkept⟩ := hrows (some extendedRow)
    obtain ⟨value, hvalue⟩ := Option.isSome_iff_exists.mp (haccepts.mpr (by
      rintro old ⟨⟩
      refine ⟨⟨rfl, by decide⟩, ?_, ?_⟩
      · rintro stored ⟨⟩
        rfl
      · intro id hid stored hstored
        obtain rfl := Finmap.mem_singleton id "call" _ |>.mp hid
        cases hstored
        rfl))
    obtain ⟨hrow, ⟨identity, hidentity, hpreserved⟩, hcalls⟩ := hkept value hvalue
    obtain ⟨call, hcall, hcallKept⟩ := hcalls "call" _ Finmap.lookup_singleton_eq
    refine ⟨value, hvalue, hrow.decodes, ?_, ?_, ?_, ?_, ?_, ?_⟩
    · exact hrow.unknown "extension" (by decide)
    · exact hrow.cleared "legacy_turn_id" (by decide) rfl
    · rw [hidentity]
      exact hpreserved.unknown "label" (by decide)
    · rw [hidentity]
      exact hpreserved.cleared "device" (by decide) rfl
    · rw [hcall]
      exact hcallKept.unknown "label" (by decide)
    · rw [hcall]
      exact hcallKept.cleared "session_id" (by decide) rfl
  · obtain ⟨haccepts, hkept⟩ := hdatabases extendedDatabases
    obtain ⟨value, hvalue⟩ := Option.isSome_iff_exists.mp (haccepts.mpr (by
      intro path hpath stored hstored
      obtain rfl := Finmap.mem_singleton path "/a.db" _ |>.mp hpath
      cases hstored
      exact ⟨rfl, by decide⟩))
    obtain ⟨kept, hget, hpreserved⟩ :=
      (hkept value hvalue).databases "/a.db" _ Finmap.lookup_singleton_eq
    refine ⟨value, hvalue, ?_⟩
    rw [hget]
    exact hpreserved.unknown "label" (by decide)
  · obtain ⟨haccepts, hkept⟩ := hintents (some extendedIntent)
    obtain ⟨value, hvalue⟩ := Option.isSome_iff_exists.mp (haccepts.mpr (by
      rintro old ⟨⟩
      refine ⟨⟨rfl, by decide⟩, List.pairwise_singleton _ _, ?_⟩
      intro stored hstored scope _ _
      obtain rfl := List.mem_singleton.mp hstored
      rfl))
    obtain ⟨hintent, scopes, hget, hscopes⟩ := hkept value hvalue
    obtain ⟨fresh, others, -, hothers, rfl⟩ := List.forall₂_cons_left_iff.mp hscopes
    obtain ⟨old, rest, ⟨before, hstored, hpreserved⟩, hnone, rfl⟩ :=
      List.forall₂_cons_left_iff.mp hothers
    obtain rfl := List.forall₂_nil_left_iff.mp hnone
    refine ⟨value, old, fresh, hvalue, hget, ?_, hintent.unknown "extension" (by decide)⟩
    rw [hpreserved.unknown "label" (by decide)]
    obtain ⟨found, hfound, -⟩ := hstored.all _ List.mem_cons_self (by decide)
    obtain hmem := List.mem_singleton.mp (hstored.last found hfound).1
    rw [hfound, hmem]
    rfl

/-- A row that can be read, with its identity written by places. -/
def arrayRow : Json :=
  .object [("extension", .int 7), ("size", .int 5), ("mtime", .int 3), ("offset", .int 5),
    ("turn_id", .int 1), ("identity", .array [])]

/-- A stored row without its required members takes no update, and one whose identity is an array
neither, though it can be read; the text of a scan cache beyond its bound is dropped with all it
has. -/
theorem stored_payloads_refused :
    (filePayload plainRow (some (.object [("mtime", .int 3), ("extension", .int 7)]))).isSome =
        false ∧
      (fileStateObject.fromValue arrayRow).isSome = true ∧
      (filePayload plainRow (some arrayRow)).isSome = false ∧
      (scanCachePayload {} (some ⟨maxJsonBytes + 1,
        some (.object [("extension", .int 7)])⟩)).get "extension" = none := by
  refine ⟨rfl, rfl, rfl, rfl⟩

end Memex.State
