import Mathlib.Data.Finset.Sort
import Mathlib.Data.String.Basic
import Memex.Sources.Json
import Memex.Lib.Overlay

/-! # Typed values and the objects they are stored as

How `serde` writes a structure as a JSON object and reads it back, and how
`state/checkpoint/codec.rs` carries along the members that the structure does not know. An
object has each of its keys once; what is said of it is said of the member under a key. -/

namespace Memex.State

open Sources Overlay

/-! ### Members of an object -/

/-- `Map::insert`: in place where the key is there. -/
def insertMember (key : String) (value : Json) : List (String × Json) → List (String × Json)
  | [] => [(key, value)]
  | (name, old) :: rest =>
      if name = key then (key, value) :: rest else (name, old) :: insertMember key value rest

/-- `Map::extend`: later members replace those of the same key. -/
def extendMembers (members extra : List (String × Json)) : List (String × Json) :=
  members.filter (fun member => member.1 ∉ extra.map Prod.fst) ++ extra

/-- The members that a structure writes: those of its fields that it does not leave out. -/
def membersOf (slot : String → Option Json) (fields : List String) : List (String × Json) :=
  fields.filterMap fun name => (slot name).map fun value => (name, value)

/-- Insert what is computed for each key, one after another. -/
def insertEach (row : String → Option Json) (keys : List String)
    (members : List (String × Json)) : Option (List (String × Json)) :=
  keys.foldlM (fun members key => (row key).map fun value => insertMember key value members) members

theorem lookup_cons_ite {β : Type} (name : String) (value : β) (rest : List (String × β))
    (key : String) : ((name, value) :: rest).lookup key =
      if key = name then some value else rest.lookup key := by
  by_cases h : key = name
  · simp [h]
  · have hbeq : (key == name) = false := beq_eq_false_iff_ne.mpr h
    rw [List.lookup_cons, hbeq, if_neg h]

theorem lookup_insertMember (key other : String) (value : Json) (members : List (String × Json)) :
    (insertMember key value members).lookup other =
      if other = key then some value else members.lookup other := by
  induction members with
  | nil => exact lookup_cons_ite key value [] other
  | cons member rest ih =>
      obtain ⟨name, old⟩ := member
      rw [insertMember]
      split
      · rename_i hname
        subst hname
        rw [lookup_cons_ite, lookup_cons_ite]
        by_cases h : other = name <;> simp [h]
      · rename_i hname
        rw [lookup_cons_ite, lookup_cons_ite, ih]
        by_cases h : other = name
        · simp [h, hname]
        · simp [h]

theorem lookup_filter_key {β : Type} (keep : String → Bool) (members : List (String × β))
    (key : String) : (members.filter fun member => keep member.1).lookup key =
      if keep key then members.lookup key else none := by
  induction members with
  | nil => simp
  | cons member rest ih =>
      obtain ⟨name, value⟩ := member
      rw [List.filter_cons, lookup_cons_ite]
      by_cases hsame : key = name
      · subst hsame
        cases hkeep : keep key with
        | true => simp
        | false => simpa [hkeep] using ih
      · cases hkeep : keep name with
        | true => simp [lookup_cons_ite, hsame, ih]
        | false => simp [hsame, ih]

theorem lookup_isSome_iff {β : Type} {members : List (String × β)} {key : String} :
    (members.lookup key).isSome ↔ key ∈ members.map Prod.fst := by
  induction members with
  | nil => simp
  | cons member rest ih =>
      obtain ⟨name, value⟩ := member
      rw [lookup_cons_ite, List.map_cons, List.mem_cons, ← ih]
      by_cases hsame : key = name <;> simp [hsame]

theorem lookup_extendMembers (members extra : List (String × Json)) (key : String) :
    (extendMembers members extra).lookup key = (extra.lookup key).or (members.lookup key) := by
  rw [extendMembers, List.lookup_append, lookup_filter_key fun name =>
    decide (name ∉ extra.map Prod.fst)]
  by_cases hextra : key ∈ extra.map Prod.fst
  · obtain ⟨value, hvalue⟩ := Option.isSome_iff_exists.mp (lookup_isSome_iff.mpr hextra)
    simp [hextra, hvalue]
  · have hnone : extra.lookup key = none := by
      rw [← Option.not_isSome_iff_eq_none, lookup_isSome_iff]
      exact hextra
    simp [hextra, hnone]

theorem lookup_membersOf (slot : String → Option Json) (fields : List String) (key : String) :
    (membersOf slot fields).lookup key = if key ∈ fields then slot key else none := by
  induction fields with
  | nil => simp [membersOf]
  | cons name rest ih =>
      rw [membersOf] at ih
      rw [membersOf, List.filterMap_cons]
      by_cases hsame : key = name
      · subst hsame
        cases hslot : slot key with
        | none => simp [ih, hslot]
        | some value => simp
      · cases hslot : slot name with
        | none => simp [ih, hsame]
        | some value => simp [lookup_cons_ite, ih, hsame]

@[simp] theorem insertEach_cons (row : String → Option Json) (key : String) (rest : List String)
    (members : List (String × Json)) : insertEach row (key :: rest) members =
      (row key).bind fun value => insertEach row rest (insertMember key value members) := by
  rw [insertEach, List.foldlM_cons]
  cases row key <;> rfl

/-- Every key has got what was computed for it, and no other member has changed. -/
theorem lookup_insertEach {row : String → Option Json} {keys : List String}
    {members result : List (String × Json)} (h : insertEach row keys members = some result)
    (key : String) :
    result.lookup key = if key ∈ keys then row key else members.lookup key := by
  induction keys generalizing members with
  | nil =>
      obtain rfl := Option.some.inj h
      simp
  | cons head rest ih =>
      rw [insertEach_cons] at h
      obtain ⟨value, hvalue, hrest⟩ := Option.bind_eq_some_iff.mp h
      rw [ih hrest, lookup_insertMember]
      by_cases hlater : key ∈ rest
      · simp [hlater]
      · by_cases hhead : key = head
        · subst hhead
          simp [hlater, hvalue]
        · simp [hlater, hhead]

theorem insertEach_isSome_iff {row : String → Option Json} {keys : List String}
    {members : List (String × Json)} :
    (insertEach row keys members).isSome ↔ ∀ key ∈ keys, (row key).isSome := by
  induction keys generalizing members with
  | nil => simp [insertEach]
  | cons head rest ih =>
      rw [insertEach_cons, List.forall_mem_cons]
      cases hrow : row head with
      | none => simp
      | some value => simpa using ih

/-! ### Single values -/

/-- How a value is written and read, and which values its type can hold. -/
structure ValueCodec (α : Type) where
  toValue : α → Json
  fromValue : Json → Option α
  Fits : α → Prop
  fromValue_toValue : ∀ value, Fits value → fromValue (toValue value) = some value
  toValue_ne_null : ∀ value, toValue value ≠ .null

namespace ValueCodec

variable {α : Type} (codec : ValueCodec α)

/-- A member that has to be there. -/
def required (found : Option Json) : Option α := found.bind codec.fromValue

/-- `#[serde(default)]`. -/
def defaulted (fallback : α) : Option Json → Option α
  | none => some fallback
  | some value => codec.fromValue value

/-- An `Option`, absent or null where there is no value. -/
def optional : Option Json → Option (Option α)
  | none => some none
  | some .null => some none
  | some value => (codec.fromValue value).map some

/-- An `Option` that is written as null where there is no value. -/
def nullable (value : Option α) : Json := (value.map codec.toValue).getD .null

variable {codec}

theorem required_toValue {value : α} (h : codec.Fits value) :
    codec.required (some (codec.toValue value)) = some value :=
  codec.fromValue_toValue value h

theorem defaulted_toValue {value fallback : α} (h : codec.Fits value) :
    codec.defaulted fallback (some (codec.toValue value)) = some value :=
  codec.fromValue_toValue value h

theorem optional_toValue {value : α} (h : codec.Fits value) :
    codec.optional (some (codec.toValue value)) = some (some value) := by
  have hread := codec.fromValue_toValue value h
  have hnull := codec.toValue_ne_null value
  cases hvalue : codec.toValue value with
  | null => exact absurd hvalue hnull
  | _ =>
      rw [hvalue] at hread
      simp [optional, hread]

/-- `skip_serializing_if = "Option::is_none"`. -/
theorem optional_map {value : Option α} (h : ∀ inner ∈ value, codec.Fits inner) :
    codec.optional (value.map codec.toValue) = some value := by
  cases value with
  | none => rfl
  | some inner => exact optional_toValue (h inner rfl)

theorem optional_nullable {value : Option α} (h : ∀ inner ∈ value, codec.Fits inner) :
    codec.optional (some (codec.nullable value)) = some value := by
  cases value with
  | none => rfl
  | some inner => exact optional_toValue (h inner rfl)

end ValueCodec

namespace Codec

def string : ValueCodec String where
  toValue := .string
  fromValue := Json.asStr
  Fits _ := True
  fromValue_toValue _ _ := rfl
  toValue_ne_null _ h := by cases h

def bool : ValueCodec Bool where
  toValue := .bool
  fromValue := Json.asBool
  Fits _ := True
  fromValue_toValue _ _ := rfl
  toValue_ne_null _ h := by cases h

def u64 : ValueCodec Nat where
  toValue value := .int value
  fromValue := Json.asU64
  Fits value := value < 2 ^ 64
  fromValue_toValue value h := by
    rw [Json.asU64, if_pos ⟨Int.natCast_nonneg value, by omega⟩, Int.toNat_natCast]
  toValue_ne_null _ h := by cases h

def u32 : ValueCodec Nat where
  toValue value := .int value
  fromValue value := value.asU64.filter (· < 2 ^ 32)
  Fits value := value < 2 ^ 32
  fromValue_toValue value h := by
    rw [Json.asU64, if_pos ⟨Int.natCast_nonneg value, by omega⟩, Int.toNat_natCast]
    simpa using h
  toValue_ne_null _ h := by cases h

def i64 : ValueCodec Int where
  toValue value := .int value
  fromValue := Json.asI64
  Fits value := -2 ^ 63 ≤ value ∧ value < 2 ^ 63
  fromValue_toValue value h := if_pos h
  toValue_ne_null _ h := by cases h

end Codec

/-! ### Lists, sets and tables -/

/-- Reading a list is reading every item. -/
theorem mapM_eq_some_iff {α β : Type} {f : α → Option β} {items : List α} {results : List β} :
    items.mapM f = some results ↔
      List.Forall₂ (fun item result => f item = some result) items results := by
  induction items generalizing results with
  | nil =>
      rw [List.mapM_nil, List.forall₂_nil_left_iff]
      exact ⟨fun h => (Option.some.inj h).symm, fun h => congrArg some h.symm⟩
  | cons item rest ih =>
      rw [List.mapM_cons]
      constructor
      · intro h
        obtain ⟨result, hresult, h⟩ := Option.bind_eq_some_iff.mp h
        obtain ⟨others, hothers, h⟩ := Option.bind_eq_some_iff.mp h
        obtain rfl := Option.some.inj h
        exact .cons hresult (ih.mp hothers)
      · intro h
        obtain ⟨result, others, hresult, hothers, rfl⟩ := List.forall₂_cons_left_iff.mp h
        rw [hresult, ih.mpr hothers]
        rfl

namespace Codec

variable {α : Type} (codec : ValueCodec α)

/-- A `Vec`. -/
def list : ValueCodec (List α) where
  toValue items := .array (items.map codec.toValue)
  fromValue value := value.asArray.bind fun items => items.mapM codec.fromValue
  Fits items := ∀ item ∈ items, codec.Fits item
  fromValue_toValue items h := by
    apply mapM_eq_some_iff.mpr
    rw [List.forall₂_map_left_iff]
    exact List.forall₂_same.mpr fun item hitem => codec.fromValue_toValue item (h item hitem)
  toValue_ne_null _ h := by cases h

/-- A `HashSet` of strings. The order it is written in is descending. -/
def stringSet : ValueCodec (Finset String) where
  toValue keys := .array ((keys.sort (· ≥ ·)).map .string)
  fromValue value := value.asArray.bind fun items => (items.mapM Json.asStr).map List.toFinset
  Fits _ := True
  fromValue_toValue keys _ := by
    have hread : ((keys.sort (· ≥ ·)).map Json.string).mapM Json.asStr =
        some (keys.sort (· ≥ ·)) := by
      apply mapM_eq_some_iff.mpr
      rw [List.forall₂_map_left_iff]
      exact List.forall₂_same.mpr fun _ _ => rfl
    simp only [Json.asArray, Option.bind_some, hread, Option.map_some, Finset.sort_toFinset]
  toValue_ne_null _ h := by cases h

/-- The members of a `HashMap` as they are read. -/
def readTable (members : List (String × Json)) : Option (Table String α) :=
  (members.map Prod.fst).foldr (fun key table => do
    let rest ← table
    let value ← members.lookup key
    let row ← codec.fromValue value
    some (rest.insert key row)) (some ∅)

variable {codec}

private theorem readTable_keys {members : List (String × Json)} {table : Table String α}
    (h : ∀ key, (members.lookup key).map codec.fromValue = (table.lookup key).map some)
    (keys : List String) (hkeys : ∀ key ∈ keys, key ∈ members.map Prod.fst) :
    ∃ result : Table String α, keys.foldr (fun key table => do
        let rest ← table
        let value ← members.lookup key
        let row ← codec.fromValue value
        some (rest.insert key row)) (some ∅) = some result ∧
      ∀ key, result.lookup key = if key ∈ keys then table.lookup key else none := by
  induction keys with
  | nil => exact ⟨∅, rfl, by simp⟩
  | cons head rest ih =>
      obtain ⟨result, hresult, hlookup⟩ :=
        ih fun key hkey => hkeys key (List.mem_cons_of_mem _ hkey)
      obtain ⟨value, hvalue⟩ := Option.isSome_iff_exists.mp
        (lookup_isSome_iff.mpr (hkeys head List.mem_cons_self))
      have hhead := h head
      rw [hvalue, Option.map_some] at hhead
      obtain ⟨row, hrow, hread⟩ := Option.map_eq_some_iff.mp hhead.symm
      -- The row of the first key goes over what the other keys have left.
      refine ⟨result.insert head row, ?_, fun key => ?_⟩
      · rw [List.foldr_cons, hresult]
        simp [hvalue, ← hread]
      · rw [lookup_insert_ite, hlookup]
        by_cases hsame : key = head
        · subst hsame
          simp [hrow]
        · simp [hsame]

/-- A table is read back when the member under each key is read as the table's row. -/
theorem readTable_eq {members : List (String × Json)} {table : Table String α}
    (h : ∀ key, (members.lookup key).map codec.fromValue = (table.lookup key).map some) :
    readTable codec members = some table := by
  obtain ⟨result, hresult, hlookup⟩ := readTable_keys h _ fun key hkey => hkey
  rw [readTable, hresult]
  apply congrArg
  refine Finmap.ext_lookup fun key => ?_
  rw [hlookup]
  split
  · rfl
  · rename_i habsent
    have hnone : members.lookup key = none := by
      rw [← Option.not_isSome_iff_eq_none, lookup_isSome_iff]
      exact habsent
    have hrow := h key
    rw [hnone] at hrow
    exact (Option.map_eq_none_iff.mp hrow.symm).symm

/-- What is read of a table has been read under each of its keys. -/
theorem isSome_of_readTable {members : List (String × Json)}
    (h : (readTable codec members).isSome) {key : String} {value : Json}
    (hvalue : members.lookup key = some value) : (codec.fromValue value).isSome := by
  have hkey : key ∈ members.map Prod.fst := lookup_isSome_iff.mp (by simp [hvalue])
  rw [readTable] at h
  generalize members.map Prod.fst = keys at h hkey
  induction keys with
  | nil => cases hkey
  | cons head rest ih =>
      obtain ⟨result, hresult⟩ := Option.isSome_iff_exists.mp h
      simp only [List.foldr_cons, Option.bind_eq_bind, Option.bind_eq_some_iff] at hresult
      obtain ⟨table, hrest, found, hfound, row, hrow, _⟩ := hresult
      obtain rfl | hlater := List.mem_cons.mp hkey
      · rw [hvalue] at hfound
        obtain rfl := Option.some.inj hfound
        simp [hrow]
      · exact ih (by simp [hrest]) hlater

/-- The keys of a table in descending order. -/
def sortedKeys (table : Table String α) : List String := table.keys.sort (· ≥ ·)

theorem mem_sortedKeys {table : Table String α} {key : String} :
    key ∈ sortedKeys table ↔ (table.lookup key).isSome := by
  rw [sortedKeys, Finset.mem_sort, Finmap.mem_keys, Finmap.lookup_isSome]

variable (codec)

/-- A `HashMap` with strings for keys. The order it is written in is the one of the keys. -/
def table : ValueCodec (Table String α) where
  toValue table :=
    .object (membersOf (fun key => (table.lookup key).map codec.toValue) (sortedKeys table))
  fromValue
    | .object members => readTable codec members
    | _ => none
  Fits table := ∀ key, ∀ row ∈ table.lookup key, codec.Fits row
  fromValue_toValue table h := by
    apply readTable_eq
    intro key
    rw [lookup_membersOf]
    cases hrow : table.lookup key with
    | none => simp
    | some row =>
        have hmem : key ∈ sortedKeys table := mem_sortedKeys.mpr (by simp [hrow])
        simp [hmem, codec.fromValue_toValue row (h key row hrow)]
  toValue_ne_null _ h := by cases h

end Codec

/-! ### Structures -/

/-- A structure with named fields. `leading` of the fields have no default. -/
structure ObjectCodec (T : Type) where
  fields : List String
  leading : Nat
  slot : T → String → Option Json
  ofFields : (String → Option Json) → Option T
  Fits : T → Prop
  ofFields_slot : ∀ value found, Fits value →
    (∀ name ∈ fields, found name = slot value name) → ofFields found = some value

namespace ObjectCodec

variable {T : Type} (codec : ObjectCodec T)

def members (value : T) : List (String × Json) := membersOf (codec.slot value) codec.fields

/-- `serde_json::to_value`. -/
def toValue (value : T) : Json := .object (codec.members value)

/-- `serde_json::from_value`: an object by the names of its members, an array by their places. -/
def fromValue : Json → Option T
  | .object members => codec.ofFields fun name => members.lookup name
  | .array items =>
      if codec.leading ≤ items.length ∧ items.length ≤ codec.fields.length then
        codec.ofFields fun name => items[codec.fields.idxOf name]?
      else
        none
  | _ => none

/-- What the structure does not know of a stored object. The two flattened parts of `Extended`
take an object only. -/
def extensions : Json → Option (List (String × Json))
  | .object members => (codec.fromValue (.object members)).map fun _ =>
      members.filter fun member => member.1 ∉ codec.fields
  | _ => none

/-- The value with what the stored object has besides. -/
def preserve (current : T) : Option Json → Option Json
  | none => some (codec.toValue current)
  | some previous => (codec.extensions previous).map fun extra =>
      .object (extendMembers (codec.members current) extra)

/-- What `preserve` needs of a stored value: an object that the structure can be read from. -/
def Readable (stored : Json) : Prop :=
  stored.isObject ∧ (codec.fromValue stored).isSome

/-- A stored value stands for the typed one, has its other members from the one before, and
has no member for a field that the typed value leaves out. -/
structure Preserved (current : T) (previous : Option Json) (value : Json) : Prop where
  decodes : codec.fromValue value = some current
  unknown : ∀ key ∉ codec.fields, value.get key = previous.bind (·.get key)
  cleared : ∀ key ∈ codec.fields, codec.slot current key = none → value.get key = none

variable {codec}

theorem fromValue_object {value : T} {members : List (String × Json)} (hfits : codec.Fits value)
    (h : ∀ name ∈ codec.fields, members.lookup name = codec.slot value name) :
    codec.fromValue (.object members) = some value :=
  codec.ofFields_slot value _ hfits h

theorem extensions_isSome_iff {stored : Json} :
    (codec.extensions stored).isSome ↔ codec.Readable stored := by
  cases stored <;> simp [extensions, Readable, Json.isObject]

theorem lookup_extensions {stored : Json} {extra : List (String × Json)}
    (h : codec.extensions stored = some extra) (key : String) :
    extra.lookup key = if key ∈ codec.fields then none else stored.get key := by
  cases stored with
  | object members =>
      obtain ⟨_, _, rfl⟩ := Option.map_eq_some_iff.mp h
      rw [lookup_filter_key fun name => decide (name ∉ codec.fields)]
      by_cases hkey : key ∈ codec.fields <;> simp [hkey, Json.get]
  | _ => cases h

/-- The result of `preserve` by its members: the fields of the value, and the rest as before. -/
theorem preserve_eq_some {current : T} {previous : Option Json} {value : Json}
    (h : codec.preserve current previous = some value) :
    ∃ members, value = .object members ∧ ∀ key, members.lookup key =
      if key ∈ codec.fields then codec.slot current key else previous.bind (·.get key) := by
  cases previous with
  | none =>
      obtain rfl := Option.some.inj h
      refine ⟨_, rfl, fun key => ?_⟩
      rw [members, lookup_membersOf]
      rfl
  | some previous =>
      obtain ⟨extra, hextra, rfl⟩ := Option.map_eq_some_iff.mp h
      refine ⟨_, rfl, fun key => ?_⟩
      rw [lookup_extendMembers, lookup_extensions hextra, members, lookup_membersOf]
      by_cases hkey : key ∈ codec.fields <;> simp [hkey]

theorem preserve_isSome_iff {current : T} {previous : Option Json} :
    (codec.preserve current previous).isSome ↔ ∀ stored ∈ previous, codec.Readable stored := by
  cases previous with
  | none => simp [preserve]
  | some previous => simp [preserve, extensions_isSome_iff]

theorem preserved_of_lookup {current : T} {previous : Option Json}
    {members : List (String × Json)} (hfits : codec.Fits current)
    (h : ∀ key, members.lookup key =
      if key ∈ codec.fields then codec.slot current key else previous.bind (·.get key)) :
    codec.Preserved current previous (.object members) where
  decodes := fromValue_object hfits fun name hname => by rw [h, if_pos hname]
  unknown key hkey := by rw [Json.get, h, if_neg hkey]
  cleared key hkey hnone := by rw [Json.get, h, if_pos hkey, hnone]

theorem preserved_of_preserve {current : T} {previous : Option Json} {value : Json}
    (hfits : codec.Fits current) (h : codec.preserve current previous = some value) :
    codec.Preserved current previous value := by
  obtain ⟨members, rfl, hlookup⟩ := preserve_eq_some h
  exact preserved_of_lookup hfits hlookup

variable (codec)

/-- Every row of a table, over what is stored under its key. -/
def preserveEach (table : Table String T) (previous : String → Option Json)
    (members : List (String × Json)) : Option (List (String × Json)) :=
  insertEach (fun key => (table.lookup key).bind fun row => codec.preserve row (previous key))
    (Codec.sortedKeys table) members

/-- A structure as a value. -/
def asValue : ValueCodec T where
  toValue := codec.toValue
  fromValue := codec.fromValue
  Fits := codec.Fits
  fromValue_toValue value h := fromValue_object h fun name hname => by
    rw [members, lookup_membersOf, if_pos hname]
  toValue_ne_null _ h := by cases h

variable {codec}

theorem preserveEach_isSome_iff {table : Table String T} {previous : String → Option Json}
    {members : List (String × Json)} :
    (codec.preserveEach table previous members).isSome ↔
      ∀ key ∈ table, ∀ stored ∈ previous key, codec.Readable stored := by
  rw [preserveEach, insertEach_isSome_iff]
  apply forall_congr'
  intro key
  rw [Codec.mem_sortedKeys, ← Finmap.lookup_isSome]
  cases table.lookup key with
  | none => simp
  | some row => simp [preserve_isSome_iff]

/-- The rows are read back, and each has kept what was stored under its key. -/
theorem preserveEach_spec {table : Table String T} {previous : String → Option Json}
    {members kept : List (String × Json)} (hfits : (Codec.table codec.asValue).Fits table)
    (hmembers : ∀ key ∉ Codec.sortedKeys table, members.lookup key = none)
    (h : codec.preserveEach table previous members = some kept) :
    Codec.readTable codec.asValue kept = some table ∧
      ∀ key, ∀ row ∈ table.lookup key, ∃ value, kept.lookup key = some value ∧
        codec.Preserved row (previous key) value := by
  have hrow : ∀ key, ∀ row ∈ table.lookup key, ∃ value, kept.lookup key = some value ∧
      codec.Preserved row (previous key) value := by
    intro key row hrow
    have hmem : key ∈ Codec.sortedKeys table :=
      Codec.mem_sortedKeys.mpr (Option.isSome_of_mem hrow)
    have hsome := insertEach_isSome_iff.mp (Option.isSome_of_eq_some h) key hmem
    obtain ⟨value, hvalue⟩ := Option.isSome_iff_exists.mp hsome
    refine ⟨value, ?_, ?_⟩
    · rw [lookup_insertEach h, if_pos hmem, hvalue]
    · rw [Option.mem_def.mp hrow, Option.bind_some] at hvalue
      exact preserved_of_preserve (hfits key row hrow) hvalue
  refine ⟨Codec.readTable_eq fun key => ?_, hrow⟩
  cases hlookup : table.lookup key with
  | none =>
      have habsent : key ∉ Codec.sortedKeys table := by
        rw [Codec.mem_sortedKeys, hlookup]
        exact Bool.false_ne_true
      rw [lookup_insertEach h, if_neg habsent, hmembers key habsent]
      rfl
  | some row =>
      obtain ⟨value, hvalue, hpreserved⟩ := hrow key row hlookup
      rw [hvalue]
      exact congrArg some hpreserved.decodes

end ObjectCodec

end Memex.State
