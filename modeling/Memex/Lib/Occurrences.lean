import Mathlib.Data.List.Infix
import Mathlib.Data.List.Pairwise

/-! # The occurrences of a pattern in a text

Where a pattern occurs in a text, from the left and without overlaps. -/

namespace Occurrences

variable {α : Type*} [DecidableEq α]

/-- The starts of a pattern in a text that begins at a position, after so many symbols that
belong to an occurrence already. -/
def startsFrom (pattern : List α) : Nat → Nat → List α → List Nat
  | _, _, [] => []
  | skipped + 1, position, _ :: rest => startsFrom pattern skipped (position + 1) rest
  | 0, position, symbol :: rest =>
    if pattern.isPrefixOf (symbol :: rest) then
      position :: startsFrom pattern (pattern.length - 1) (position + 1) rest
    else startsFrom pattern 0 (position + 1) rest

/-- The starts of a pattern in a text; an empty pattern occurs between any two symbols. -/
def starts (pattern text : List α) : List Nat :=
  if pattern = [] then List.range (text.length + 1) else startsFrom pattern 0 0 text

end Occurrences
