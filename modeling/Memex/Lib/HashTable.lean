import Mathlib.Data.Option.Basic

/-! # Hash tables

A hash table is known by what a lookup finds in it; the order of its entries is not kept.
Every operation is described by the lookups after it. -/

/-- The value that is stored under each key. -/
structure HashTable (κ β : Type*) where
  get : κ → Option β

namespace HashTable

variable {κ β : Type*}

/-- No entries. -/
def empty : HashTable κ β where
  get _ := none

/-- Set the value of a key, replacing an earlier one. -/
def insert [DecidableEq κ] (table : HashTable κ β) (key : κ) (value : β) : HashTable κ β where
  get other := if other = key then some value else table.get other

/-- Keep the entries that satisfy a condition. -/
def retain (table : HashTable κ β) (keep : κ → β → Bool) : HashTable κ β where
  get key := (table.get key).filter (keep key)

@[ext] theorem ext {left right : HashTable κ β} (h : ∀ key, left.get key = right.get key) :
    left = right := by
  cases left
  cases right
  congr
  funext key
  exact h key

@[simp] theorem get_empty (key : κ) : (empty : HashTable κ β).get key = none := rfl

theorem get_insert [DecidableEq κ] (table : HashTable κ β) (key other : κ) (value : β) :
    (table.insert key value).get other = if other = key then some value else table.get other :=
  rfl

@[simp] theorem get_insert_self [DecidableEq κ] (table : HashTable κ β) (key : κ) (value : β) :
    (table.insert key value).get key = some value := by
  rw [get_insert, if_pos rfl]

theorem get_insert_of_ne [DecidableEq κ] (table : HashTable κ β) {key other : κ} (value : β)
    (h : other ≠ key) : (table.insert key value).get other = table.get other := by
  rw [get_insert, if_neg h]

theorem get_retain_eq_some {table : HashTable κ β} {keep : κ → β → Bool} {key : κ} {value : β} :
    (table.retain keep).get key = some value ↔
      table.get key = some value ∧ keep key value = true :=
  Option.filter_eq_some_iff

end HashTable
