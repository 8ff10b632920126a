import Memex.Ingest.Truncation
import Memex.Lib.Settling

/-! # Rounds of the truncation marker

The loop of `truncate_for_index` computes the marker again until its length stays the same. Only
the digits of the omitted bytes change that length, so the loop is the iteration of one function
on the number of digits. It goes on forever where two lengths lead to each other: beside the
shorter marker the tail loses bytes to a boundary that it keeps beside the longer one. -/

namespace Memex.Ingest

open Text Boundaries Settling Function

/-- The digits of a number in the marker. -/
def digitCount (value : Nat) : Nat := value.repr.length

/-- What the marker holds besides the digits. -/
def markerFrame : Nat := 30

/-- The bytes left out beside a marker of some length. -/
def omittedBytes (text : List Char) (maxBytes markerLength : Nat) : Nat :=
  (retainedParts text maxBytes markerLength).2 - (retainedParts text maxBytes markerLength).1

/-- The digits of the marker after one of so many digits. -/
def nextDigits (text : List Char) (maxBytes digits : Nat) : Nat :=
  digitCount (omittedBytes text maxBytes (markerFrame + digits))

/-- Of the bytes to retain, those before the next boundary, where the tail starts. -/
def unusedBytes (text : List Char) (retainedBytes : Nat) : Nat :=
  let headTarget := saturatingMul retainedBytes retainedHeadPercent / 100
  let tailTarget := retainedBytes - charBoundaryAtOrBefore text headTarget
  charBoundaryAtOrAfter text (byteLength text - tailTarget) - (byteLength text - tailTarget)

/-- A marker of so many digits leaves out a number of bytes with one more digit, and a marker of
one more digit leaves out a number of bytes without it. -/
structure Alternates (text : List Char) (maxBytes digits : Nat) : Prop where
  room : markerFrame + digits + 1 ≤ maxBytes
  longer : 10 ^ digits ≤ byteLength text - maxBytes + (markerFrame + digits) +
    unusedBytes text (maxBytes - (markerFrame + digits))
  shorter : byteLength text - maxBytes + (markerFrame + digits + 1) +
    unusedBytes text (maxBytes - (markerFrame + digits + 1)) < 10 ^ digits

section Digits

variable {value digits : Nat}

theorem digitCount_pos : 0 < digitCount value := Nat.length_repr_pos

theorem digitCount_le_iff (hpositive : 0 < digits) :
    digitCount value ≤ digits ↔ value < 10 ^ digits := Nat.length_repr_le_iff hpositive

theorem lt_digitCount_iff (hpositive : 0 < digits) :
    digits < digitCount value ↔ 10 ^ digits ≤ value := by
  rw [← Nat.not_le, digitCount_le_iff hpositive, Nat.not_lt]

theorem digitCount_mono {other : Nat} (h : value ≤ other) :
    digitCount value ≤ digitCount other := by
  rw [digitCount_le_iff digitCount_pos]
  apply h.trans_lt
  rw [← digitCount_le_iff digitCount_pos]

theorem le_digitCount (h : 10 ^ digits - 2 ≤ value) : digits ≤ digitCount value := by
  cases digits with
  | zero => exact Nat.zero_le _
  | succ digits =>
      cases digits with
      | zero => exact digitCount_pos
      | succ digits =>
          apply (lt_digitCount_iff (Nat.succ_pos digits)).mpr
          have hpower := Nat.pow_pos (n := digits) (show 0 < 10 by decide)
          simp only [Nat.pow_succ] at h ⊢
          omega

theorem ten_le_pow (hpositive : 0 < digits) : 10 ≤ 10 ^ digits := by
  calc 10 = 10 ^ 1 := rfl
    _ ≤ 10 ^ digits := Nat.pow_le_pow_right (by decide) hpositive

/-- A power of ten outgrows the digits added to a smaller one. -/
theorem pow_add_lt_pow {larger : Nat} (hpositive : 0 < digits) (hle : digits + 2 ≤ larger) :
    10 ^ digits + larger + 2 < 10 ^ (larger - 1) + digits := by
  induction larger, hle using Nat.le_induction with
  | base =>
      have hten := ten_le_pow hpositive
      rw [show digits + 2 - 1 = digits + 1 from rfl, Nat.pow_succ]
      omega
  | succ larger hle ih =>
      have hpred : larger + 1 - 1 = larger - 1 + 1 := by omega
      have hpower := Nat.pow_pos (n := larger - 1) (show 0 < 10 by decide)
      rw [hpred, Nat.pow_succ]
      omega

theorem byteLength_of_narrow {text : List Char} (h : ∀ c ∈ text, c.utf8Size = 1) :
    byteLength text = text.length := by
  induction text with
  | nil => rfl
  | cons first rest ih =>
      rw [byteLength_cons, h first (List.mem_cons_self ..), List.length_cons,
        ih fun c hc => h c (List.mem_cons_of_mem first hc), Nat.add_comm]

theorem byteLength_toString (value : Nat) :
    byteLength (toString value).toList = digitCount value := by
  have hnarrow : ∀ c ∈ (Nat.repr value).toList, c.utf8Size = 1 := by
    intro c hc
    rw [Nat.repr_eq_ofList_toDigits, String.toList_ofList] at hc
    have hdigit := Nat.isDigit_of_mem_toDigits (by decide) (by decide) hc
    rw [Char.utf8Size_eq_one_iff]
    simp only [Char.isDigit, Bool.and_eq_true, decide_eq_true_eq] at hdigit
    exact UInt32.le_trans hdigit.2 (by decide)
  exact byteLength_of_narrow hnarrow

theorem byteLength_truncationMarker (omitted : Nat) :
    byteLength (truncationMarker omitted).toList = markerFrame + digitCount omitted := by
  have hfront : byteLength "\n\n[... ".toList = 7 := by decide
  have hback : byteLength " bytes truncated ...]\n\n".toList = 23 := by decide
  change byteLength ("\n\n[... " ++ toString omitted ++ " bytes truncated ...]\n\n").toList = _
  rw [String.toList_append, String.toList_append, byteLength_append, byteLength_append, hfront,
    hback, byteLength_toString, markerFrame]
  omega

end Digits

section Rounds

variable {text : List Char} {maxBytes markerLength digits : Nat}

theorem unusedBytes_le (budget : Nat) :
    unusedBytes text budget ≤ 3 := by
  rw [unusedBytes]
  generalize byteLength text - (budget - _) = position
  have hlt := @boundaryAfter_lt text (min position (byteLength text)) (Nat.min_le_right _ _)
  rw [charBoundaryAtOrAfter]
  omega

/-- Beside a marker within the limit, the bytes left out are those over the limit, those of the
marker and those that the tail loses. -/
theorem omittedBytes_of_le (hlong : maxBytes < byteLength text) (hroom : markerLength ≤ maxBytes) :
    omittedBytes text maxBytes markerLength =
      byteLength text - maxBytes + markerLength + unusedBytes text (maxBytes - markerLength) := by
  have htarget := saturatingMul_div_le (maxBytes - markerLength)
  rw [omittedBytes, retainedParts, unusedBytes]
  generalize saturatingMul (maxBytes - markerLength) retainedHeadPercent / 100 = headTarget at *
  have hhead : charBoundaryAtOrBefore text headTarget ≤ headTarget :=
    (boundaryBefore_le _ _).trans (Nat.min_le_left _ _)
  generalize charBoundaryAtOrBefore text headTarget = headEnd at *
  have htail := le_boundaryAfter text
    (min (byteLength text - (maxBytes - markerLength - headEnd)) (byteLength text))
  rw [← charBoundaryAtOrAfter] at htail
  omega

/-- Beside a longer marker nothing of the text is left. -/
theorem omittedBytes_of_lt (hfull : maxBytes < markerLength) :
    omittedBytes text maxBytes markerLength = byteLength text := by
  have hnone : maxBytes - markerLength = 0 := by omega
  have hzero : saturatingMul 0 retainedHeadPercent / 100 = 0 := by decide
  have hhead : charBoundaryAtOrBefore text 0 = 0 := by
    rw [charBoundaryAtOrBefore, Nat.zero_min, boundaryBefore]
  have htail : charBoundaryAtOrAfter text (byteLength text) = byteLength text := by
    rw [charBoundaryAtOrAfter, Nat.min_self, boundaryAfter, Nat.sub_self, boundaryFrom]
  simp only [omittedBytes, retainedParts, hnone, hzero, hhead, Nat.sub_zero, htail]

theorem omittedBytes_le (markerLength : Nat) :
    omittedBytes text maxBytes markerLength ≤ byteLength text := by
  have hle : (retainedParts text maxBytes markerLength).2 ≤ byteLength text := by
    apply le_of_isBoundary
    exact isBoundary_boundaryAfter (Nat.min_le_right _ _)
  exact (Nat.sub_le _ _).trans hle

theorem byteLength_nextMarker {marker : String}
    (hmarker : byteLength marker.toList = markerFrame + digits) :
    byteLength (markerOf (retainedParts text maxBytes (byteLength marker.toList))).toList =
      markerFrame + nextDigits text maxBytes digits := by
  rw [hmarker]
  exact byteLength_truncationMarker _

/-- The loop ends where the number of digits settles. -/
theorem markerLoop_ends_iff {marker : String}
    (hmarker : byteLength marker.toList = markerFrame + digits) :
    (∃ rounds parts, markerLoop text maxBytes rounds marker = some parts) ↔
      Settles (nextDigits text maxBytes) digits := by
  constructor
  · rintro ⟨rounds, parts, h⟩
    induction rounds generalizing marker digits with
    | zero => cases h
    | succ rounds ih =>
        have hnext := @byteLength_nextMarker text maxBytes _ _ hmarker
        rw [markerLoop] at h
        split at h
        next hsame =>
          apply settles_of_fixed
          omega
        next => exact settles_of_next (ih hnext h)
  · rintro ⟨rounds, hfixed⟩
    induction rounds generalizing marker digits with
    | zero =>
        have hnext := @byteLength_nextMarker text maxBytes _ _ hmarker
        have hsame : nextDigits text maxBytes digits = digits := hfixed
        refine ⟨1, _, if_pos ?_⟩
        omega
    | succ rounds ih =>
        have hnext := @byteLength_nextMarker text maxBytes _ _ hmarker
        obtain ⟨more, parts, hloop⟩ := ih hnext hfixed
        refine ⟨more + 1, ?_⟩
        rw [markerLoop]
        split
        · exact ⟨_, rfl⟩
        · exact ⟨parts, hloop⟩

theorem Alternates.pos (h : Alternates text maxBytes digits) : 0 < digits := by
  have hshorter := h.shorter
  cases digits with
  | zero =>
      rw [Nat.pow_zero] at hshorter
      omega
  | succ digits => exact Nat.succ_pos digits

/-- A number of digits that rises after it fell has one digit more next. Then it stays the same,
or it alternates. -/
theorem rises_or_alternates {before : Nat} (hlong : maxBytes < byteLength text)
    (hbefore : nextDigits text maxBytes before = digits) (hfell : digits < before)
    (hrises : digits < nextDigits text maxBytes digits) :
    nextDigits text maxBytes digits = digits + 1 ∧
      (nextDigits text maxBytes (digits + 1) = digits + 1 ∨
        Alternates text maxBytes digits) := by
  have hpositive : 0 < digits := hbefore ▸ digitCount_pos
  have hten := ten_le_pow hpositive
  have hsmall : omittedBytes text maxBytes (markerFrame + before) < 10 ^ digits :=
    (digitCount_le_iff hpositive).mp hbefore.le
  have hlarge : 10 ^ digits ≤ omittedBytes text maxBytes (markerFrame + digits) :=
    (lt_digitCount_iff hpositive).mp hrises
  have hroom : markerFrame + before ≤ maxBytes := by
    by_contra hfull
    have hall := @omittedBytes_of_lt text _ _ (Nat.lt_of_not_le hfull)
    have hle := @omittedBytes_le text maxBytes (markerFrame + digits)
    omega
  have hsame := @omittedBytes_of_le text _ _ hlong (show markerFrame + digits ≤ maxBytes by omega)
  have hmore := @omittedBytes_of_le text _ _ hlong
    (show markerFrame + (digits + 1) ≤ maxBytes by omega)
  have hunused := @unusedBytes_le text (maxBytes - (markerFrame + digits))
  have hunused' := @unusedBytes_le text (maxBytes - (markerFrame + (digits + 1)))
  rw [omittedBytes_of_le hlong hroom] at hsmall
  have hsucc : 10 ^ (digits + 1) = 10 ^ digits * 10 := Nat.pow_succ 10 digits
  constructor
  · have hle : nextDigits text maxBytes digits ≤ digits + 1 := by
      apply (digitCount_le_iff (Nat.succ_pos digits)).mpr
      omega
    omega
  · have hle : nextDigits text maxBytes (digits + 1) ≤ digits + 1 := by
      apply (digitCount_le_iff (Nat.succ_pos digits)).mpr
      omega
    have hge : digits ≤ nextDigits text maxBytes (digits + 1) := by
      apply le_digitCount
      omega
    obtain hfalls | hstays := Nat.lt_or_ge (nextDigits text maxBytes (digits + 1)) (digits + 1)
    · right
      have hless := (digitCount_le_iff hpositive).mp (Nat.le_of_lt_succ hfalls)
      rw [hmore] at hless
      rw [hsame] at hlarge
      exact ⟨by omega, hlarge, hless⟩
    · exact Or.inl (Nat.le_antisymm hle hstays)

/-- Two numbers of digits that alternate, and the larger ones that fall to them. -/
def Above (maxBytes digits : Nat) : Set Nat :=
  fun count => count = digits ∨ count = digits + 1 ∨
    digits + 2 ≤ count ∧ markerFrame + count ≤ maxBytes

theorem Alternates.next (hlong : maxBytes < byteLength text)
    (h : Alternates text maxBytes digits) :
    nextDigits text maxBytes digits = digits + 1 ∧
      nextDigits text maxBytes (digits + 1) = digits := by
  have hpositive := h.pos
  have hten := ten_le_pow hpositive
  obtain ⟨hroom, hlonger, hshorter⟩ := h
  have hunused := @unusedBytes_le text (maxBytes - (markerFrame + digits))
  have hsame := @omittedBytes_of_le text _ _ hlong (show markerFrame + digits ≤ maxBytes by omega)
  have hmore := @omittedBytes_of_le text _ _ hlong
    (show markerFrame + digits + 1 ≤ maxBytes by omega)
  have hsucc : 10 ^ (digits + 1) = 10 ^ digits * 10 := Nat.pow_succ 10 digits
  have hge : digits < nextDigits text maxBytes digits := by
    apply (lt_digitCount_iff hpositive).mpr
    omega
  have hle : nextDigits text maxBytes digits ≤ digits + 1 := by
    apply (digitCount_le_iff (Nat.succ_pos digits)).mpr
    omega
  have hle' : nextDigits text maxBytes (digits + 1) ≤ digits := by
    apply (digitCount_le_iff hpositive).mpr
    rw [← Nat.add_assoc]
    omega
  have hge' : digits ≤ nextDigits text maxBytes (digits + 1) := by
    apply le_digitCount
    rw [← Nat.add_assoc]
    omega
  exact ⟨Nat.le_antisymm hle hge, Nat.le_antisymm hle' hge'⟩

/-- A number of digits above those that alternate falls, but not below them. -/
theorem Alternates.next_above {count : Nat} (hlong : maxBytes < byteLength text)
    (h : Alternates text maxBytes digits) (hlarger : digits + 2 ≤ count)
    (hroom : markerFrame + count ≤ maxBytes) :
    digits ≤ nextDigits text maxBytes count ∧ nextDigits text maxBytes count < count := by
  have hpower := pow_add_lt_pow h.pos hlarger
  obtain ⟨-, hlonger, hshorter⟩ := h
  have hunused := @unusedBytes_le text (maxBytes - (markerFrame + digits))
  have hunused' := @unusedBytes_le text (maxBytes - (markerFrame + count))
  have homitted := omittedBytes_of_le hlong hroom
  constructor
  · apply le_digitCount
    omega
  · have hle : nextDigits text maxBytes count ≤ count - 1 := by
      apply (digitCount_le_iff (by omega)).mpr
      omega
    omega

theorem Alternates.mapsTo (hlong : maxBytes < byteLength text)
    (h : Alternates text maxBytes digits) :
    Set.MapsTo (nextDigits text maxBytes) (Above maxBytes digits) (Above maxBytes digits) := by
  obtain ⟨hfirst, hsecond⟩ := h.next hlong
  rintro count (rfl | rfl | ⟨hlarger, hroom⟩)
  · exact Or.inr (Or.inl hfirst)
  · exact Or.inl hsecond
  · obtain ⟨hge, hlt⟩ := h.next_above hlong hlarger hroom
    obtain hequal | hmore := Nat.eq_or_lt_of_le hge
    · exact Or.inl hequal.symm
    · obtain hequal | hmore := Nat.eq_or_lt_of_le hmore
      · exact Or.inr (Or.inl hequal.symm)
      · exact Or.inr (Or.inr ⟨hmore, by omega⟩)

theorem Alternates.moves (hlong : maxBytes < byteLength text)
    (h : Alternates text maxBytes digits) :
    ∀ count ∈ Above maxBytes digits, nextDigits text maxBytes count ≠ count := by
  obtain ⟨hfirst, hsecond⟩ := h.next hlong
  rintro count (rfl | rfl | ⟨hlarger, hroom⟩)
  · omega
  · omega
  · exact (h.next_above hlong hlarger hroom).2.ne

/-- The loop starts with the digits of all bytes, which are not below those that alternate. -/
theorem Alternates.start (hlong : maxBytes < byteLength text)
    (h : Alternates text maxBytes digits) :
    digitCount (byteLength text) ∈ Above maxBytes digits := by
  have hpositive := h.pos
  have hfirst : digits + 1 ≤ digitCount (byteLength text) := by
    rw [← (h.next hlong).1]
    exact digitCount_mono (omittedBytes_le _)
  obtain hequal | hmore := Nat.eq_or_lt_of_le hfirst
  · exact Or.inr (Or.inl hequal.symm)
  · refine Or.inr (Or.inr ⟨hmore, ?_⟩)
    by_contra hfull
    have hpower := pow_add_lt_pow hpositive hmore
    have hshorter := h.shorter
    have hless : byteLength text < 10 ^ (digitCount (byteLength text) - 1) := by omega
    rw [← digitCount_le_iff (by omega)] at hless
    omega

/-- The digits of the marker settle unless two numbers of digits alternate. -/
theorem settles_iff (hlong : maxBytes < byteLength text) :
    Settles (nextDigits text maxBytes) (digitCount (byteLength text)) ↔
      ¬ ∃ digits, Alternates text maxBytes digits := by
  constructor
  · rintro hsettles ⟨digits, h⟩
    exact not_settles_of_mapsTo (h.mapsTo hlong) (h.moves hlong) (h.start hlong) hsettles
  · intro hnone
    apply settles_of_falling
    · exact digitCount_mono (omittedBytes_le _)
    · intro before hfell hrises
      obtain ⟨hnext, hstays | halternates⟩ := rises_or_alternates hlong rfl hfell hrises
      · apply settles_of_next
        apply settles_of_fixed
        rw [hnext, hstays]
      · exact absurd ⟨_, halternates⟩ hnone

end Rounds

variable {text : String} {maxBytes : Nat}

theorem truncateForIndex_ends_iff (hlong : maxBytes < byteLength text.toList) :
    (∃ rounds result, truncateForIndex rounds text maxBytes = some result) ↔
      ¬ ∃ digits, Alternates text.toList maxBytes digits := by
  rw [← settles_iff hlong, ← markerLoop_ends_iff (byteLength_truncationMarker _)]
  simp only [truncateForIndex, if_neg (Nat.not_le_of_lt hlong), Option.map_eq_some_iff]
  constructor
  · rintro ⟨rounds, result, parts, hparts, -⟩
    exact ⟨rounds, parts, hparts⟩
  · rintro ⟨rounds, parts, hparts⟩
    exact ⟨rounds, _, parts, hparts, rfl⟩

/-- A limited text comes to an end: it is within the limit, or no number of digits leads back to
itself over a number of bytes with one more digit. -/
theorem truncate_for_index_ends (text : String) (maxBytes : Nat) :
    (∃ rounds result, truncateForIndex rounds text maxBytes = some result) ↔
      byteLength text.toList ≤ maxBytes ∨
        ¬ ∃ digits, Alternates text.toList maxBytes digits := by
  obtain hlong | hshort := Nat.lt_or_ge maxBytes (byteLength text.toList)
  · rw [truncateForIndex_ends_iff hlong, or_iff_right (Nat.not_le_of_lt hlong)]
  · have hsame := @truncateForIndex_of_le 0 text maxBytes hshort
    exact ⟨fun _ => Or.inl hshort, fun _ => ⟨0, text, hsame⟩⟩

/-- Symbols of three bytes and then of four. -/
def alternatingSymbols : List Char := List.replicate 282 '€' ++ List.replicate 63 '😀'

def alternatingText : String := String.ofList alternatingSymbols

theorem byteLength_alternatingSymbols : byteLength alternatingSymbols = 1098 := by
  decide +kernel

/-- The head ends after 750 or 747 bytes, and the tail has 250 or 252 bytes left. -/
theorem alternatingSymbols_alternates : Alternates alternatingSymbols 1032 2 := by
  have hframe : markerFrame = 30 := rfl
  have hbytes := byteLength_alternatingSymbols
  have hshorter : unusedBytes alternatingSymbols (1032 - (markerFrame + 2)) = 2 := by
    decide +kernel
  have hlonger : unusedBytes alternatingSymbols (1032 - (markerFrame + 2 + 1)) = 0 := by
    decide +kernel
  constructor <;> omega

/-- Limited to 1032 bytes, the text leaves out 99 bytes beside a marker of three digits and 100
beside one of two. -/
theorem truncate_for_index_runs_on :
    ¬ ∃ rounds result, truncateForIndex rounds alternatingText 1032 = some result := by
  have hsymbols : alternatingText.toList = alternatingSymbols := String.toList_ofList
  have hlong : 1032 < byteLength alternatingText.toList := by
    rw [hsymbols, byteLength_alternatingSymbols]
    decide
  intro hends
  apply (truncateForIndex_ends_iff hlong).mp hends
  rw [hsymbols]
  exact ⟨2, alternatingSymbols_alternates⟩

section Narrow

variable {symbols : List Char} (hnarrow : ∀ c ∈ symbols, c.utf8Size = 1)

include hnarrow

theorem isBoundary_of_narrow {position : Nat} (h : position ≤ byteLength symbols) :
    isBoundary symbols position = true := by
  refine isBoundary_iff.mpr ⟨_, _, (List.take_append_drop position symbols).symm, ?_⟩
  rw [byteLength_of_narrow hnarrow] at h
  rw [byteLength_of_narrow fun c hc => hnarrow c (List.mem_of_mem_take hc), List.length_take]
  exact Nat.min_eq_left h

theorem unusedBytes_of_narrow (budget : Nat) : unusedBytes symbols budget = 0 := by
  rw [unusedBytes]
  generalize hposition : byteLength symbols - (budget - _) = position
  have hle : position ≤ byteLength symbols := hposition ▸ Nat.sub_le _ _
  have hfrom := @boundaryFrom_le _ _ (byteLength symbols - position) _
    (isBoundary_of_narrow hnarrow hle) (Nat.le_refl position)
  rw [charBoundaryAtOrAfter, Nat.min_eq_left hle, boundaryAfter]
  omega

end Narrow

/-- Where no symbol has more than one byte the loop ends. -/
theorem truncateForIndex_ends_of_narrow (hnarrow : ∀ c ∈ text.toList, c.utf8Size = 1) :
    ∃ rounds result, truncateForIndex rounds text maxBytes = some result := by
  obtain hlong | hshort := Nat.lt_or_ge maxBytes (byteLength text.toList)
  · rw [truncateForIndex_ends_iff hlong]
    rintro ⟨digits, h⟩
    have hlonger := h.longer
    have hshorter := h.shorter
    rw [unusedBytes_of_narrow hnarrow] at hlonger hshorter
    omega
  · exact ⟨0, text, truncateForIndex_of_le hshort⟩

end Memex.Ingest
