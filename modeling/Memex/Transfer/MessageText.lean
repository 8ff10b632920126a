import Memex.Sources.Json

/-! # Texts of messages

How `transfer.rs` compares texts: their words, joined by single spaces, in lower case. -/

namespace Memex.Transfer

open Sources

/-- `str::to_lowercase`: what a symbol becomes, between the symbols before and after it. An ASCII
letter becomes its small letter; of the others only a dotted capital I and the sign of the kelvin
become ASCII letters. -/
structure Lowercase where
  lowerAt : List Char → Char → List Char → List Char
  ascii : ∀ before symbol after, symbol.toNat < 128 →
    lowerAt before symbol after = [symbol.toLower]
  nonempty : ∀ before symbol after, lowerAt before symbol after ≠ []
  other : ∀ before symbol after, 128 ≤ symbol.toNat →
    ∀ lowered ∈ lowerAt before symbol after, lowered.toNat < 128 → lowered = 'i' ∨ lowered = 'k'

variable (lower : Lowercase)

/-- A part of a text in lower case. -/
def Lowercase.part (before : List Char) : List Char → List Char → List Char
  | [], _ => []
  | symbol :: rest, after =>
      lower.lowerAt before symbol (rest ++ after) ++ part (before ++ [symbol]) rest after

/-- `to_lowercase`. -/
def toLowercase (text : List Char) : List Char :=
  lower.part [] text []

/-- `str::trim`. -/
def trimText (text : List Char) : List Char :=
  (text.dropWhile isWhitespace).rdropWhile isWhitespace

/-- `split_whitespace`. -/
def words (text : List Char) : List (List Char) :=
  (text.splitOnP isWhitespace).filter (· ≠ [])

/-- `split_whitespace().collect().join(" ")`. -/
def joinWords (text : List Char) : List Char :=
  [' '].intercalate (words text)

def normalizeText (text : List Char) : List Char :=
  toLowercase lower (trimText (joinWords text))

@[simp] theorem Lowercase.part_nil (before after : List Char) : lower.part before [] after = [] :=
  rfl

/-- Two parts that stand together. -/
theorem Lowercase.part_append (before left right after : List Char) :
    lower.part before (left ++ right) after =
      lower.part before left (right ++ after) ++ lower.part (before ++ left) right after := by
  induction left generalizing before with
  | nil => rw [List.nil_append, List.append_nil, part_nil, List.nil_append]
  | cons symbol left ih =>
      rw [List.cons_append, part, ih, part, List.append_assoc, List.append_assoc,
        List.append_assoc, List.singleton_append]

/-- The lower case of a text that is ASCII otherwise: a concrete choice, of the letters that
change their length. -/
def plainLowercase : Lowercase where
  lowerAt _ symbol _ :=
    if symbol.toNat < 128 then [symbol.toLower]
    else if symbol = 'İ' then ['i', '\u0307']
    else if symbol = 'ẞ' then ['ß']
    else [symbol]
  ascii _ _ _ h := if_pos h
  nonempty _ _ _ := by split_ifs <;> exact List.cons_ne_nil _ _
  other before symbol after h lowered hmem hascii := by
    rw [if_neg (Nat.not_lt.mpr h)] at hmem
    split at hmem
    · obtain rfl | rfl := List.mem_pair.mp hmem
      · exact .inl rfl
      · exact absurd hascii (by decide)
    · split at hmem
      · obtain rfl := List.mem_singleton.mp hmem
        exact absurd hascii (by decide)
      · obtain rfl := List.mem_singleton.mp hmem
        exact absurd hascii (Nat.not_lt.mpr h)

end Memex.Transfer
