import Mathlib.Data.Finmap

/-! # Edits collected over a keyed base table

A patch records which rows of a base are overwritten, which are hidden and
whether the whole base is hidden. Applying a patch once agrees with applying
the edits it was built from one after another. -/

namespace Memex.Overlay

variable {α β : Type*} [DecidableEq α]

/-- A finite table with at most one row for each key. -/
abbrev Table (α β : Type*) := Finmap fun _ : α => β

/-- A single edit of a table. -/
inductive Edit (α β : Type*) where
  | put (key : α) (row : β)
  | remove (key : α)
  | clear

/-- Perform an edit directly on a full table. -/
def Edit.apply : Edit α β → Table α β → Table α β
  | .put key row, table => table.insert key row
  | .remove key, table => table.erase key
  | .clear, _ => ∅

/-- Perform a list of edits, the first one first. -/
def applyAll (edits : List (Edit α β)) (table : Table α β) : Table α β :=
  edits.foldl (fun table edit => edit.apply table) table

instance : LeftCommutative fun (key : α) (table : Table α β) => table.erase key where
  left_comm _ _ _ := Finmap.erase_erase

/-- Remove each listed key from a table. -/
def eraseAll (keys : Finset α) (table : Table α β) : Table α β :=
  keys.val.foldr (fun key table => table.erase key) table

private theorem lookup_foldr_erase (keys : Multiset α) (table : Table α β) (key : α) :
    (keys.foldr (fun key (table : Table α β) => table.erase key) table).lookup key =
      if key ∈ keys then none else table.lookup key := by
  induction keys using Multiset.induction_on with
  | empty => simp
  | cons head rest ih =>
      rw [Multiset.foldr_cons]
      by_cases h : key = head
      · subst h
        simp
      · rw [Finmap.lookup_erase_ne h, ih]
        simp [h]

@[simp] theorem lookup_eraseAll (keys : Finset α) (table : Table α β) (key : α) :
    (eraseAll keys table).lookup key = if key ∈ keys then none else table.lookup key :=
  lookup_foldr_erase keys.val table key

theorem eraseAll_union (left right : Finset α) (table : Table α β) :
    eraseAll right (eraseAll left table) = eraseAll (left ∪ right) table := by
  refine Finmap.ext_lookup fun key => ?_
  simp only [lookup_eraseAll, Finset.mem_union]
  by_cases hleft : key ∈ left <;> by_cases hright : key ∈ right <;> simp [hleft, hright]

theorem eraseAll_empty (table : Table α β) :
    eraseAll ∅ table = table :=
  Finmap.ext_lookup fun key => by simp

theorem keys_eraseAll (removed : Finset α) (table : Table α β) :
    (eraseAll removed table).keys = table.keys \ removed := by
  ext key
  rw [Finmap.mem_keys, ← Finmap.lookup_isSome, lookup_eraseAll, Finset.mem_sdiff, Finmap.mem_keys]
  by_cases hkey : key ∈ removed <;> simp [hkey, Finmap.lookup_isSome]

theorem lookup_union (left right : Table α β) (key : α) :
    (left ∪ right).lookup key = (left.lookup key).or (right.lookup key) := by
  by_cases h : key ∈ left
  · obtain ⟨row, hrow⟩ := Finmap.mem_iff.mp h
    simp [Finmap.lookup_union_left h, hrow]
  · simp [Finmap.lookup_union_right h, Finmap.lookup_eq_none.mpr h]

theorem lookup_insert_ite (table : Table α β) (key other : α) (row : β) :
    (table.insert key row).lookup other =
      if other = key then some row else table.lookup other := by
  split
  · subst other
    exact Finmap.lookup_insert _
  · rename_i h
    exact Finmap.lookup_insert_of_ne _ h

theorem lookup_erase_ite (table : Table α β) (key other : α) :
    (table.erase key).lookup other = if other = key then none else table.lookup other := by
  split
  · subst other
    exact Finmap.lookup_erase _ _
  · rename_i h
    exact Finmap.lookup_erase_ne h

/-- Give each listed key the row computed for it. -/
def insertAll (row : α → β) (keys : List α) (table : Table α β) : Table α β :=
  keys.foldl (fun table key => table.insert key (row key)) table

@[simp] theorem lookup_insertAll (row : α → β) (keys : List α) (table : Table α β) (key : α) :
    (insertAll row keys table).lookup key =
      if key ∈ keys then some (row key) else table.lookup key := by
  induction keys generalizing table with
  | nil => simp [insertAll]
  | cons head rest ih =>
      have hstep : (insertAll row (head :: rest) table).lookup key =
          (insertAll row rest (table.insert head (row head))).lookup key := rfl
      rw [hstep, ih, lookup_insert_ite]
      by_cases hrest : key ∈ rest
      · simp [hrest]
      · by_cases hhead : key = head
        · subst hhead
          simp
        · simp [hrest, hhead]

@[simp] theorem keys_insertAll (row : α → β) (keys : List α) (table : Table α β) :
    (insertAll row keys table).keys = keys.toFinset ∪ table.keys := by
  ext key
  rw [Finmap.mem_keys, ← Finmap.lookup_isSome, lookup_insertAll]
  by_cases hkey : key ∈ keys
  · simp [hkey]
  · simp [hkey, Finmap.lookup_isSome, Finmap.mem_keys]

/-- Collected edits: rows written over the base, keys hidden from it, and
whether the whole base is hidden. A key is never both written and hidden, and
nothing is hidden singly once everything is. -/
@[ext]
structure Patch (α β : Type*) [DecidableEq α] where
  upserts : Table α β
  deletes : Finset α
  clears : Bool
  disjoint : ∀ key ∈ upserts, key ∉ deletes
  deletes_of_clears : clears = true → deletes = ∅

namespace Patch

/-- The patch that changes nothing. -/
def empty : Patch α β where
  upserts := ∅
  deletes := ∅
  clears := false
  disjoint := by simp
  deletes_of_clears := by simp

instance : Inhabited (Patch α β) := ⟨empty⟩

/-- Overwrite one row. -/
def put (patch : Patch α β) (key : α) (row : β) : Patch α β where
  upserts := patch.upserts.insert key row
  deletes := patch.deletes.erase key
  clears := patch.clears
  disjoint := by
    intro other hother hmem
    obtain ⟨hne, hmem⟩ := Finset.mem_erase.mp hmem
    rcases Finmap.mem_insert.mp hother with rfl | hother
    · exact hne rfl
    · exact patch.disjoint other hother hmem
  deletes_of_clears := by
    intro h
    simp [patch.deletes_of_clears h]

/-- Drop one row. Under a hidden base there is nothing left to hide. -/
def remove (patch : Patch α β) (key : α) : Patch α β where
  upserts := patch.upserts.erase key
  deletes := if patch.clears then patch.deletes else insert key patch.deletes
  clears := patch.clears
  disjoint := by
    intro other hother hmem
    obtain ⟨hne, hother⟩ := Finmap.mem_erase.mp hother
    split at hmem
    · exact patch.disjoint other hother hmem
    · rcases Finset.mem_insert.mp hmem with rfl | hmem
      · exact hne rfl
      · exact patch.disjoint other hother hmem
  deletes_of_clears := by
    intro h
    rw [if_pos h]
    exact patch.deletes_of_clears h

theorem remove_comm (patch : Patch α β) (key other : α) :
    (patch.remove key).remove other = (patch.remove other).remove key := by
  cases hclear : patch.clears with
  | true => ext1 <;> simp [remove, hclear, Finmap.erase_erase]
  | false => ext1 <;> simp [remove, hclear, Finmap.erase_erase, Finset.insert_comm]

/-- Hide the base and forget every earlier edit. -/
def clear (_ : Patch α β) : Patch α β where
  upserts := ∅
  deletes := ∅
  clears := true
  disjoint := by simp
  deletes_of_clears := by simp

/-- Write the patch into a base table: clear, then delete, then upsert. -/
def apply (patch : Patch α β) (base : Table α β) : Table α β :=
  patch.upserts ∪ eraseAll patch.deletes (if patch.clears then ∅ else base)

/-- Whether the patch leaves every base alone. -/
def IsEmpty (patch : Patch α β) : Prop :=
  patch.upserts = ∅ ∧ patch.deletes = ∅ ∧ patch.clears = false

instance [DecidableEq β] : DecidablePred (IsEmpty (α := α) (β := β)) :=
  fun _ => inferInstanceAs (Decidable (_ ∧ _ ∧ _))

variable (patch : Patch α β) (base : Table α β)

/-- A row of the patched table is the written row, else the base row unless it
is hidden. -/
theorem lookup_apply (key : α) :
    (patch.apply base).lookup key =
      (patch.upserts.lookup key).or
        (if patch.clears = true ∨ key ∈ patch.deletes then none else base.lookup key) := by
  rw [apply, lookup_union, lookup_eraseAll]
  by_cases hclear : patch.clears = true
  · simp [hclear]
  · by_cases hdelete : key ∈ patch.deletes <;> simp [hclear, hdelete]

@[simp] theorem apply_empty : (empty : Patch α β).apply base = base := by
  refine Finmap.ext_lookup fun key => ?_
  simp [lookup_apply, empty]

theorem apply_of_isEmpty (h : patch.IsEmpty) : patch.apply base = base := by
  obtain ⟨hupserts, hdeletes, hclears⟩ := h
  refine Finmap.ext_lookup fun key => ?_
  simp [lookup_apply, hupserts, hdeletes, hclears]

theorem apply_put (key : α) (row : β) :
    (patch.put key row).apply base = (patch.apply base).insert key row := by
  refine Finmap.ext_lookup fun other => ?_
  rw [lookup_insert_ite]
  by_cases h : other = key
  · subst h
    simp [lookup_apply, put]
  · simp [lookup_apply, put, h]

theorem apply_remove (key : α) :
    (patch.remove key).apply base = (patch.apply base).erase key := by
  refine Finmap.ext_lookup fun other => ?_
  rw [lookup_erase_ite]
  by_cases h : other = key
  · subst h
    by_cases hclear : patch.clears = true <;> simp [lookup_apply, remove, hclear]
  · by_cases hclear : patch.clears = true <;>
      simp [lookup_apply, remove, h, hclear]

theorem apply_clear : patch.clear.apply base = ∅ := by
  refine Finmap.ext_lookup fun key => ?_
  simp [lookup_apply, clear]

/-- The keys of the patched table, computed without reading any row. -/
theorem keys_apply :
    (patch.apply base).keys =
      ((if patch.clears then ∅ else base.keys) \ patch.deletes) ∪ patch.upserts.keys := by
  ext key
  rw [Finmap.mem_keys, ← Finmap.lookup_isSome, lookup_apply]
  cases hupsert : patch.upserts.lookup key with
  | some row =>
      have hmem : key ∈ patch.upserts := Finmap.mem_of_lookup_eq_some hupsert
      simp [Finmap.mem_keys, hmem]
  | none =>
      have hmem : key ∉ patch.upserts := Finmap.lookup_eq_none.mp hupsert
      by_cases hclear : patch.clears = true
      · simp [Finmap.mem_keys, hmem, hclear]
      · by_cases hdelete : key ∈ patch.deletes
        · simp [Finmap.mem_keys, hmem, hdelete]
        · simp [Finmap.mem_keys, hmem, hclear, hdelete, Finmap.lookup_isSome]

/-- The patched table has a row when something is written, or when some base
row is not hidden. -/
theorem apply_ne_empty_iff :
    patch.apply base ≠ ∅ ↔
      patch.upserts ≠ ∅ ∨ (patch.clears = false ∧ ∃ key ∈ base.keys, key ∉ patch.deletes) := by
  have hne (table : Table α β) : table ≠ ∅ ↔ ∃ key, key ∈ table.keys := by
    constructor
    · intro h
      by_contra hnone
      push Not at hnone
      refine h (Finmap.ext_lookup fun key => ?_)
      rw [Finmap.lookup_empty, Finmap.lookup_eq_none, ← Finmap.mem_keys]
      exact hnone key
    · rintro ⟨key, hkey⟩ rfl
      simp at hkey
  rw [hne, hne, keys_apply]
  cases hclear : patch.clears with
  | true => simp
  | false =>
      constructor
      · rintro ⟨key, hkey⟩
        rcases Finset.mem_union.mp hkey with hkey | hkey
        · obtain ⟨hbase, hdelete⟩ := Finset.mem_sdiff.mp hkey
          exact .inr ⟨rfl, key, by simpa using hbase, hdelete⟩
        · exact .inl ⟨key, hkey⟩
      · rintro (⟨key, hkey⟩ | ⟨-, key, hbase, hdelete⟩)
        · exact ⟨key, Finset.mem_union_right _ hkey⟩
        · exact ⟨key, Finset.mem_union_left _ (by simpa using ⟨hbase, hdelete⟩)⟩

end Patch

/-- A partial cache holds, for the keys it knows, what the table holds. -/
def Caches (cache : Table α (Option β)) (table : Table α β) : Prop :=
  ∀ key row, cache.lookup key = some row → table.lookup key = row

namespace Caches

variable {cache : Table α (Option β)} {table : Table α β}

theorem empty (table : Table α β) : Caches (∅ : Table α (Option β)) table := by
  intro key row h
  simp at h

theorem put (h : Caches cache table) (key : α) (row : β) :
    Caches (cache.insert key (some row)) (table.insert key row) := by
  intro other found hfound
  by_cases hkey : other = key
  · subst hkey
    simpa using hfound
  · rw [Finmap.lookup_insert_of_ne _ hkey] at hfound ⊢
    exact h other found hfound

theorem remove (h : Caches cache table) (key : α) :
    Caches (cache.insert key none) (table.erase key) := by
  intro other found hfound
  by_cases hkey : other = key
  · subst hkey
    simpa using hfound
  · rw [Finmap.lookup_insert_of_ne _ hkey] at hfound
    rw [Finmap.lookup_erase_ne hkey]
    exact h other found hfound

/-- Reading more keys of the table into the cache keeps it right. -/
theorem union {read : Table α (Option β)} (h : Caches cache table) (hread : Caches read table) :
    Caches (cache ∪ read) table := by
  intro key row hrow
  rw [lookup_union] at hrow
  cases hcache : cache.lookup key with
  | some known =>
      rw [hcache, Option.some_or, Option.some.injEq] at hrow
      exact hrow ▸ h key known hcache
  | none =>
      rw [hcache, Option.none_or] at hrow
      exact hread key row hrow

end Caches

end Memex.Overlay
