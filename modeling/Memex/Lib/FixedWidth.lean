import Mathlib.Algebra.Order.Ring.Int
import Mathlib.Data.Int.ConditionallyCompleteOrder
import Mathlib.Data.List.Basic
import Mathlib.Data.String.Basic
import Mathlib.Order.Lattice.Nat

/-! # Numbers of a fixed width

A number written as a fixed count of bytes, the low ones first, and a text of such words. -/

namespace FixedWidth

/-- The lowest bytes of a number. -/
def encode : Nat → Nat → List UInt8
  | 0, _ => []
  | width + 1, value => UInt8.ofNat value :: encode width (value / 256)

def decode : List UInt8 → Nat
  | [] => 0
  | byte :: rest => byte.toNat + 256 * decode rest

@[simp] theorem length_encode (width value : Nat) : (encode width value).length = width := by
  induction width generalizing value with
  | zero => rfl
  | succ width ih => rw [encode, List.length_cons, ih]

/-- What was written is read back as far as it fits the width. -/
theorem decode_encode (width value : Nat) : decode (encode width value) = value % 256 ^ width := by
  induction width generalizing value with
  | zero =>
      rw [encode, decode, Nat.pow_zero]
      omega
  | succ width ih =>
      have hbyte : (UInt8.ofNat value).toNat = value % 256 := by simp
      calc decode (encode (width + 1) value)
          = value % 256 + 256 * (value / 256 % 256 ^ width) := by
            rw [encode, decode, hbyte, ih]
        _ = value % (256 * 256 ^ width) := (Nat.mod_mul ..).symm
        _ = value % 256 ^ (width + 1) := by rw [Nat.pow_succ, Nat.mul_comm]

theorem decode_encode_of_lt {width value : Nat} (h : value < 256 ^ width) :
    decode (encode width value) = value := by
  rw [decode_encode, Nat.mod_eq_of_lt h]

theorem decode_lt (bytes : List UInt8) : decode bytes < 256 ^ bytes.length := by
  induction bytes with
  | nil => decide
  | cons byte rest ih =>
      have hbyte : byte.toNat < 256 := byte.toNat_lt
      rw [decode, List.length_cons, Nat.pow_succ]
      omega

/-- Every text of bytes is the number it stands for, written in its width. -/
theorem encode_decode (bytes : List UInt8) : encode bytes.length (decode bytes) = bytes := by
  induction bytes with
  | nil => rfl
  | cons byte rest ih =>
      have hbyte : byte.toNat < 256 := byte.toNat_lt
      have hlow : UInt8.ofNat (byte.toNat + 256 * decode rest) = byte := by
        apply UInt8.toNat_inj.mp
        rw [UInt8.toNat_ofNat']
        omega
      have hhigh : (byte.toNat + 256 * decode rest) / 256 = decode rest := by omega
      rw [List.length_cons, decode, encode, hlow, hhigh, ih]

/-! ## Words -/

variable {α : Type*}

/-- The given number of words a list begins with. -/
def split (width : Nat) : Nat → List α → List (List α)
  | 0, _ => []
  | count + 1, items => items.take width :: split width count (items.drop width)

/-- `as_chunks`: the whole words of a list. -/
def words (width : Nat) (items : List α) : List (List α) :=
  split width (items.length / width) items

theorem split_flatten {width : Nat} {parts : List (List α)}
    (h : ∀ part ∈ parts, part.length = width) : split width parts.length parts.flatten = parts := by
  induction parts with
  | nil => rfl
  | cons part rest ih =>
      have hpart := h part List.mem_cons_self
      rw [List.length_cons, split, List.flatten_cons, List.take_left' hpart,
        List.drop_left' hpart, ih fun other hmem => h other (List.mem_cons_of_mem part hmem)]

theorem length_flatten_words {width : Nat} {parts : List (List α)}
    (h : ∀ part ∈ parts, part.length = width) :
    parts.flatten.length = parts.length * width := by
  induction parts with
  | nil => simp
  | cons part rest ih =>
      rw [List.flatten_cons, List.length_append, h part List.mem_cons_self,
        ih fun other hmem => h other (List.mem_cons_of_mem part hmem), List.length_cons,
        Nat.succ_mul, Nat.add_comm]

/-- The words of what was put together from words. -/
theorem words_flatten {width : Nat} (hwidth : 0 < width) {parts : List (List α)}
    (h : ∀ part ∈ parts, part.length = width) : words width parts.flatten = parts := by
  rw [words, length_flatten_words h, Nat.mul_div_cancel _ hwidth, split_flatten h]

theorem flatten_split {width count : Nat} {items : List α} (h : items.length = count * width) :
    (split width count items).flatten = items := by
  induction count generalizing items with
  | zero =>
      rw [Nat.zero_mul] at h
      rw [List.length_eq_zero_iff.mp h]
      rfl
  | succ count ih =>
      have hdrop : (items.drop width).length = count * width := by
        rw [List.length_drop, h, Nat.succ_mul, Nat.add_sub_cancel]
      rw [split, List.flatten_cons, ih hdrop, List.take_append_drop]

theorem length_of_mem_split {width count : Nat} {items part : List α}
    (h : items.length = count * width) (hmem : part ∈ split width count items) :
    part.length = width := by
  induction count generalizing items with
  | zero => cases hmem
  | succ count ih =>
      have hdrop : (items.drop width).length = count * width := by
        rw [List.length_drop, h, Nat.succ_mul, Nat.add_sub_cancel]
      obtain rfl | hmem := List.mem_cons.mp hmem
      · rw [List.length_take, h, Nat.succ_mul]
        omega
      · exact ih hdrop hmem

/-- A list of whole words is what its words make. -/
theorem flatten_words {width : Nat} {items : List α} (h : items.length % width = 0) :
    (words width items).flatten = items ∧ ∀ part ∈ words width items, part.length = width := by
  have hlength : items.length = items.length / width * width :=
    (Nat.div_mul_cancel (Nat.dvd_of_mod_eq_zero h)).symm
  exact ⟨flatten_split hlength, fun part hmem => length_of_mem_split hlength hmem⟩

end FixedWidth
