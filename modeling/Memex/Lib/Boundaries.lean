import Memex.Lib.Text

/-! # Byte positions in texts

A text is cut at byte positions of its UTF-8 encoding. The positions between its symbols are
its boundaries; others are moved to the next boundary before or after them. -/

namespace Boundaries

open Text

variable {text front back : List Char} {position : Nat}

@[simp] theorem byteLength_nil : byteLength [] = 0 := rfl

@[simp] theorem byteLength_cons (first : Char) (rest : List Char) :
    byteLength (first :: rest) = first.utf8Size + byteLength rest := by
  simp [byteLength]

@[simp] theorem byteLength_append (front back : List Char) :
    byteLength (front ++ back) = byteLength front + byteLength back := by
  simp [byteLength]

/-- A text is cut once so many bytes have been taken. -/
def cut : List Char → Nat → List Char × List Char
  | [], _ => ([], [])
  | first :: rest, position =>
      if position = 0 then ([], first :: rest)
      else
        let parts := cut rest (position - first.utf8Size)
        (first :: parts.1, parts.2)

theorem cut_zero (text : List Char) : cut text 0 = ([], text) := by
  cases text with
  | nil => rfl
  | cons first rest => rw [cut, if_pos rfl]

/-- The bytes before a position are whole symbols. -/
def isBoundary (text : List Char) (position : Nat) : Bool :=
  byteLength (cut text position).1 = position

theorem cut_append (text : List Char) (position : Nat) :
    (cut text position).1 ++ (cut text position).2 = text := by
  induction text generalizing position with
  | nil => rfl
  | cons first rest ih =>
      rw [cut]
      split
      · rfl
      · exact congrArg (first :: ·) (ih _)

/-- The parts of a text are cut where the first ends. -/
theorem cut_byteLength (front back : List Char) :
    cut (front ++ back) (byteLength front) = (front, back) := by
  induction front with
  | nil => cases back <;> rfl
  | cons first rest ih =>
      have hpositive : first.utf8Size + byteLength rest ≠ 0 := by
        have hsize := first.utf8Size_pos
        omega
      rw [byteLength_cons, List.cons_append, cut, if_neg hpositive, Nat.add_sub_cancel_left, ih]

theorem isBoundary_iff : isBoundary text position = true ↔
    ∃ front back, text = front ++ back ∧ byteLength front = position := by
  rw [isBoundary, decide_eq_true_iff]
  constructor
  · exact fun h => ⟨_, _, (cut_append text position).symm, h⟩
  · rintro ⟨front, back, rfl, rfl⟩
    rw [cut_byteLength]

theorem isBoundary_zero (text : List Char) : isBoundary text 0 = true :=
  isBoundary_iff.mpr ⟨[], text, rfl, rfl⟩

theorem isBoundary_byteLength (text : List Char) : isBoundary text (byteLength text) = true :=
  isBoundary_iff.mpr ⟨text, [], (List.append_nil text).symm, rfl⟩

theorem le_of_isBoundary (h : isBoundary text position = true) : position ≤ byteLength text := by
  obtain ⟨front, back, rfl, rfl⟩ := isBoundary_iff.mp h
  rw [byteLength_append]
  exact Nat.le_add_right _ _

/-- The last boundary that is not after a position. -/
def boundaryBefore (text : List Char) : Nat → Nat
  | 0 => 0
  | position + 1 =>
      if isBoundary text (position + 1) then position + 1 else boundaryBefore text position

/-- The first boundary among so many positions from one on. -/
def boundaryFrom (text : List Char) : Nat → Nat → Nat
  | 0, position => position
  | steps + 1, position =>
      if isBoundary text position then position else boundaryFrom text steps (position + 1)

/-- The first boundary that is not before a position. -/
def boundaryAfter (text : List Char) (position : Nat) : Nat :=
  boundaryFrom text (byteLength text - position) position

theorem boundaryBefore_le (text : List Char) (position : Nat) :
    boundaryBefore text position ≤ position := by
  induction position with
  | zero => exact Nat.le_refl 0
  | succ position ih =>
      rw [boundaryBefore]
      split
      · exact Nat.le_refl _
      · exact Nat.le_succ_of_le ih

theorem isBoundary_boundaryBefore (text : List Char) (position : Nat) :
    isBoundary text (boundaryBefore text position) = true := by
  induction position with
  | zero => exact isBoundary_zero text
  | succ position ih =>
      rw [boundaryBefore]
      split
      next h => exact h
      next => exact ih

theorem le_boundaryFrom (text : List Char) (steps position : Nat) :
    position ≤ boundaryFrom text steps position := by
  induction steps generalizing position with
  | zero => exact Nat.le_refl position
  | succ steps ih =>
      rw [boundaryFrom]
      split
      · exact Nat.le_refl position
      · exact Nat.le_of_succ_le (ih (position + 1))

theorem isBoundary_boundaryFrom {steps : Nat} (h : position + steps = byteLength text) :
    isBoundary text (boundaryFrom text steps position) = true := by
  induction steps generalizing position with
  | zero =>
      rw [boundaryFrom, ← Nat.add_zero position, h]
      exact isBoundary_byteLength text
  | succ steps ih =>
      rw [boundaryFrom]
      split
      next hboundary => exact hboundary
      next =>
        apply ih
        omega

theorem le_boundaryAfter (text : List Char) (position : Nat) :
    position ≤ boundaryAfter text position := le_boundaryFrom _ _ _

theorem isBoundary_boundaryAfter (h : position ≤ byteLength text) :
    isBoundary text (boundaryAfter text position) = true := by
  apply isBoundary_boundaryFrom
  omega

/-- Where a text is cut after so many bytes, the last symbol taken ends less than four bytes
further on. -/
theorem byteLength_cut (h : position ≤ byteLength text) :
    position ≤ byteLength (cut text position).1 ∧
      byteLength (cut text position).1 < position + 4 := by
  induction text generalizing position with
  | nil =>
      obtain rfl : position = 0 := Nat.le_zero.mp h
      exact ⟨Nat.le_refl 0, by decide⟩
  | cons first rest ih =>
      rw [cut]
      split
      next hzero =>
        subst hzero
        exact ⟨Nat.zero_le _, by simp⟩
      next =>
        have hsize := first.utf8Size_le_four
        rw [byteLength_cons] at h ⊢
        obtain hlast | hmore := Nat.le_total position first.utf8Size
        · rw [Nat.sub_eq_zero_of_le hlast, cut_zero, byteLength_nil]
          omega
        · have hrest := @ih (position - first.utf8Size) (by omega)
          omega

theorem boundaryFrom_le {steps boundary : Nat} (hboundary : isBoundary text boundary = true)
    (hle : position ≤ boundary) : boundaryFrom text steps position ≤ max position boundary := by
  induction steps generalizing position with
  | zero => exact Nat.le_max_left _ _
  | succ steps ih =>
      rw [boundaryFrom]
      split
      · exact Nat.le_max_left _ _
      next hnot =>
        have hne : position ≠ boundary := by
          rintro rfl
          exact hnot hboundary
        have hnext := @ih (position + 1) (by omega)
        omega

/-- No symbol is longer than four bytes. -/
theorem boundaryAfter_lt (h : position ≤ byteLength text) :
    boundaryAfter text position < position + 4 := by
  obtain ⟨hle, hlt⟩ := byteLength_cut h
  have hboundary : isBoundary text (byteLength (cut text position).1) = true :=
    isBoundary_iff.mpr ⟨_, _, (cut_append text position).symm, rfl⟩
  have hfrom := @boundaryFrom_le _ _ (byteLength text - position) _ hboundary hle
  rw [boundaryAfter]
  omega

/-- Two boundaries cut a text into three parts. -/
theorem exists_parts {first last : Nat} (hle : first ≤ last)
    (hfirst : isBoundary text first = true) (hlast : isBoundary text last = true) :
    ∃ head middle tail, text = head ++ (middle ++ tail) ∧ byteLength head = first ∧
      byteLength middle = last - first ∧ cut text first = (head, middle ++ tail) ∧
      cut text last = (head ++ middle, tail) := by
  obtain ⟨head, rest, htext, hhead⟩ := isBoundary_iff.mp hfirst
  obtain ⟨front, tail, htext', hfront⟩ := isBoundary_iff.mp hlast
  have hprefix : head <+: front := by
    have hboth : head <+: text := ⟨rest, htext.symm⟩
    have hother : front <+: text := ⟨tail, htext'.symm⟩
    obtain hpre | hpre := List.prefix_or_prefix_of_prefix hboth hother
    · exact hpre
    · obtain ⟨between, rfl⟩ := hpre
      rw [byteLength_append] at hhead
      have hempty : byteLength between = 0 := by omega
      have hnil : between = [] := by
        cases between with
        | nil => rfl
        | cons symbol between =>
            have hsize := symbol.utf8Size_pos
            rw [byteLength_cons] at hempty
            omega
      simp [hnil]
  obtain ⟨middle, rfl⟩ := hprefix
  rw [byteLength_append] at hfront
  refine ⟨head, middle, tail, ?_, hhead, ?_, ?_, ?_⟩
  · rw [htext', List.append_assoc]
  · omega
  · rw [htext', List.append_assoc, ← hhead]
    exact cut_byteLength head (middle ++ tail)
  · rw [htext', ← hfront, ← byteLength_append]
    exact cut_byteLength (head ++ middle) tail

/-- A part of a text between two offsets; the program stops when one is not a boundary. -/
def slice (text : List Char) (start stop : Nat) : Option (List Char) :=
  if start ≤ stop ∧ isBoundary text start = true ∧ isBoundary text stop = true then
    some (cut (cut text stop).1 start).2
  else none

theorem slice_parts (front middle back : List Char) :
    slice (front ++ (middle ++ back)) (byteLength front) (byteLength (front ++ middle)) =
      some middle := by
  have hstart : isBoundary (front ++ (middle ++ back)) (byteLength front) = true :=
    isBoundary_iff.mpr ⟨front, middle ++ back, rfl, rfl⟩
  have hstop : isBoundary (front ++ (middle ++ back)) (byteLength (front ++ middle)) = true :=
    isBoundary_iff.mpr ⟨front ++ middle, back, (List.append_assoc ..).symm, rfl⟩
  have hle : byteLength front ≤ byteLength (front ++ middle) := by
    rw [byteLength_append]
    exact Nat.le_add_right _ _
  rw [slice, if_pos ⟨hle, hstart, hstop⟩, ← List.append_assoc, cut_byteLength, cut_byteLength]

end Boundaries
