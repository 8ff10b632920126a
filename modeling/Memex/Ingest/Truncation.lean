import Memex.Lib.Boundaries
import Memex.Types

/-! # Limits of tool content

`truncate_for_index` of `ingest/execution.rs`: of a text that is longer than its limit the
middle is left out, and a marker in its place says how many bytes that were. The length of the
marker is part of the limit, so it is computed again until it stays the same. -/

namespace Memex.Ingest

open Text Boundaries

/-- `RETAINED_HEAD_PERCENT`. -/
def retainedHeadPercent : Nat := 75

def usizeMax : Nat := 2 ^ 64 - 1

/-- `saturating_mul`. -/
def saturatingMul (left right : Nat) : Nat := min (left * right) usizeMax

def truncationMarker (omittedBytes : Nat) : String :=
  s!"\n\n[... {omittedBytes} bytes truncated ...]\n\n"

def charBoundaryAtOrBefore (text : List Char) (position : Nat) : Nat :=
  boundaryBefore text (min position (byteLength text))

def charBoundaryAtOrAfter (text : List Char) (position : Nat) : Nat :=
  boundaryAfter text (min position (byteLength text))

/-- Where the head ends and the tail starts beside a marker of some length. -/
def retainedParts (text : List Char) (maxBytes markerLength : Nat) : Nat × Nat :=
  let retainedBytes := maxBytes - markerLength
  let headTarget := saturatingMul retainedBytes retainedHeadPercent / 100
  let headEnd := charBoundaryAtOrBefore text headTarget
  let tailTarget := retainedBytes - headEnd
  (headEnd, charBoundaryAtOrAfter text (byteLength text - tailTarget))

/-- The marker of the bytes between a head and a tail. -/
def markerOf (parts : Nat × Nat) : String := truncationMarker (parts.2 - parts.1)

/-- The loop, for so many rounds: the parts whose marker is as long as the one before. -/
def markerLoop (text : List Char) (maxBytes : Nat) : Nat → String → Option (Nat × Nat)
  | 0, _ => none
  | rounds + 1, marker =>
      let parts := retainedParts text maxBytes (byteLength marker.toList)
      let updated := markerOf parts
      if byteLength updated.toList = byteLength marker.toList then some parts
      else markerLoop text maxBytes rounds updated

/-- The head, the marker and the tail. -/
def joinParts (text : List Char) (parts : Nat × Nat) : String :=
  String.ofList ((cut text parts.1).1 ++ (markerOf parts).toList ++ (cut text parts.2).2)

/-- `truncate_for_index`, if its loop ends within so many rounds. -/
def truncateForIndex (rounds : Nat) (text : String) (maxBytes : Nat) : Option String :=
  if byteLength text.toList ≤ maxBytes then some text
  else
    (markerLoop text.toList maxBytes rounds (truncationMarker (byteLength text.toList))).map
      (joinParts text.toList)

section Parts

variable {text : List Char} {maxBytes markerLength : Nat}

theorem saturatingMul_div_le (retained : Nat) :
    saturatingMul retained retainedHeadPercent / 100 ≤ retained := by
  have hle : saturatingMul retained retainedHeadPercent ≤ retained * retainedHeadPercent :=
    Nat.min_le_left _ _
  rw [retainedHeadPercent] at hle ⊢
  omega

/-- The head and the tail are parts of the text that leave room for the marker. -/
theorem retainedParts_spec (hlong : maxBytes < byteLength text) :
    ∃ head omitted tail, text = head ++ (omitted ++ tail) ∧
      (retainedParts text maxBytes markerLength).2 - (retainedParts text maxBytes markerLength).1 =
        byteLength omitted ∧
      (cut text (retainedParts text maxBytes markerLength).1).1 = head ∧
      (cut text (retainedParts text maxBytes markerLength).2).2 = tail ∧
      byteLength head + byteLength tail ≤ maxBytes - markerLength := by
  have htarget := saturatingMul_div_le (maxBytes - markerLength)
  generalize hparts : retainedParts text maxBytes markerLength = parts
  rw [retainedParts] at hparts
  generalize saturatingMul (maxBytes - markerLength) retainedHeadPercent / 100 = headTarget at *
  have hhead : isBoundary text parts.1 = true := by
    rw [← hparts]
    exact isBoundary_boundaryBefore _ _
  have hheadLe : parts.1 ≤ maxBytes - markerLength := by
    rw [← hparts]
    apply (boundaryBefore_le _ _).trans
    exact (Nat.min_le_left _ _).trans htarget
  have htail : isBoundary text parts.2 = true := by
    rw [← hparts]
    exact isBoundary_boundaryAfter (Nat.min_le_right _ _)
  have htailLe : byteLength text - (maxBytes - markerLength - parts.1) ≤ parts.2 := by
    rw [← hparts]
    refine le_trans ?_ (le_boundaryAfter _ _)
    apply Nat.le_min.mpr
    exact ⟨Nat.le_refl _, Nat.sub_le _ _⟩
  have hle : parts.1 ≤ parts.2 := by omega
  obtain ⟨head, omitted, tail, htext, hfirst, hmiddle, hcutHead, hcutTail⟩ :=
    exists_parts hle hhead htail
  refine ⟨head, omitted, tail, htext, hmiddle.symm, ?_, ?_, ?_⟩
  · rw [hcutHead]
  · rw [hcutTail]
  · have hlength := congrArg byteLength htext
    rw [byteLength_append, byteLength_append] at hlength
    omega

/-- The loop ends with a marker that is as long as the one that it left room for. -/
theorem markerLoop_spec {rounds : Nat} {marker : String} {parts : Nat × Nat}
    (h : markerLoop text maxBytes rounds marker = some parts) :
    ∃ markerLength, parts = retainedParts text maxBytes markerLength ∧
      byteLength (markerOf parts).toList = markerLength := by
  induction rounds generalizing marker with
  | zero => cases h
  | succ rounds ih =>
      rw [markerLoop] at h
      split at h
      next hsame =>
        obtain rfl := Option.some.inj h
        exact ⟨_, rfl, hsame⟩
      next => exact ih h

end Parts

/-- What is left of a text of more bytes than its limit: a head, the marker with the number of
the bytes left out, and a tail. -/
structure Truncated (text result : List Char) (omitted : List Char) : Prop where
  parts : ∃ head tail, text = head ++ (omitted ++ tail) ∧
    result = head ++ (truncationMarker (byteLength omitted)).toList ++ tail

variable {rounds : Nat} {text result : String} {maxBytes : Nat}

/-- A text within its limit stays as it is; of a longer one a head, a marker and a tail are
left, which are within the limit where the marker is. Limited again, the result stays the same. -/
theorem truncateForIndex_spec (h : truncateForIndex rounds text maxBytes = some result) :
    (byteLength text.toList ≤ maxBytes ∧ result = text) ∨
      maxBytes < byteLength text.toList ∧ ∃ omitted,
        Truncated text.toList result.toList omitted ∧
          (byteLength (truncationMarker (byteLength omitted)).toList ≤ maxBytes →
            byteLength result.toList ≤ maxBytes) := by
  rw [truncateForIndex] at h
  split at h
  next hshort =>
    obtain rfl := Option.some.inj h
    exact Or.inl ⟨hshort, rfl⟩
  next hlong =>
    obtain ⟨parts, hloop, rfl⟩ := Option.map_eq_some_iff.mp h
    obtain ⟨markerLength, hparts, hmarker⟩ := markerLoop_spec hloop
    obtain ⟨head, omitted, tail, htext, homitted, hhead, htail, hroom⟩ :=
      @retainedParts_spec text.toList maxBytes markerLength (Nat.lt_of_not_le hlong)
    rw [← hparts] at homitted hhead htail
    have hresult : (joinParts text.toList parts).toList =
        head ++ (truncationMarker (byteLength omitted)).toList ++ tail := by
      rw [joinParts, String.toList_ofList, hhead, htail, markerOf, homitted]
    refine Or.inr ⟨Nat.lt_of_not_le hlong, omitted, ⟨head, tail, htext, hresult⟩, ?_⟩
    intro hfits
    rw [markerOf, homitted] at hmarker
    rw [hresult, byteLength_append, byteLength_append]
    omega

/-- A limit that was kept is kept without a change. -/
theorem truncateForIndex_of_le (h : byteLength text.toList ≤ maxBytes) :
    truncateForIndex rounds text maxBytes = some text := by
  rw [truncateForIndex, if_pos h]

/-- Whenever a text is limited: one within the limit stays as it is; of a longer one a prefix, the
marker and a suffix are left, the marker counts the bytes of what stood between them, and where
the marker is within the limit so is the result, which the limit then leaves as it is. -/
theorem truncate_for_index_result (h : truncateForIndex rounds text maxBytes = some result) :
    (byteLength text.toList ≤ maxBytes → result = text) ∧
      (maxBytes < byteLength text.toList →
        ∃ head omitted tail, text.toList = head ++ (omitted ++ tail) ∧
          result.toList = head ++ (truncationMarker (byteLength omitted)).toList ++ tail ∧
          (byteLength (truncationMarker (byteLength omitted)).toList ≤ maxBytes →
            byteLength result.toList ≤ maxBytes ∧
              ∀ rounds, truncateForIndex rounds result maxBytes = some result)) := by
  obtain ⟨hshort, hsame⟩ | ⟨hlong, omitted, ⟨head, tail, htext, hresult⟩, hfits⟩ :=
    truncateForIndex_spec h
  · exact ⟨fun _ => hsame, fun hlong => absurd hshort (Nat.not_le_of_lt hlong)⟩
  · refine ⟨fun hshort => absurd hshort (Nat.not_le_of_lt hlong), fun _ => ?_⟩
    refine ⟨head, omitted, tail, htext, hresult, fun hmarker => ?_⟩
    exact ⟨hfits hmarker, fun _ => truncateForIndex_of_le (hfits hmarker)⟩

/-- Fifty symbols of two bytes each, limited to sixty bytes. -/
def longText : String := String.ofList (List.replicate 50 'é')

theorem truncate_for_index_result_long :
    ∃ result head omitted tail, truncateForIndex 2 longText 60 = some result ∧
      longText.toList = head ++ (omitted ++ tail) ∧
      result.toList = head ++ (truncationMarker (byteLength omitted)).toList ++ tail := by
  obtain ⟨result, hresult⟩ : ∃ result, truncateForIndex 2 longText 60 = some result := by
    rw [← Option.isSome_iff_exists]
    decide +kernel
  obtain ⟨head, omitted, tail, htext, hparts, -⟩ :=
    (truncate_for_index_result hresult).2 (by decide +kernel)
  exact ⟨result, head, omitted, tail, hresult, htext, hparts⟩

section Records

/-- `IndexedToolContentLimits`. -/
structure IndexedToolContentLimits where
  inputBytes : Nat
  outputBytes : Nat

variable {limits : IndexedToolContentLimits} {record : Record}

/-- The limit of the text of a record. -/
def textLimit (limits : IndexedToolContentLimits) (record : Record) : Option Nat :=
  if record.role = "tool_use" then some limits.inputBytes
  else if record.role = "tool_result" then some limits.outputBytes
  else if record.toolOutput.isSome then some limits.outputBytes
  else if record.toolInput.isSome then some limits.inputBytes
  else none

def limitField (rounds : Nat) (maxBytes : Nat) : Option String → Option (Option String)
  | none => some none
  | some field => (truncateForIndex rounds field maxBytes).map some

/-- A field is shorter than before. -/
def shortened : Option String → Option String → Bool
  | some before, some after => byteLength after.toList < byteLength before.toList
  | _, _ => false

def limitRecordToolContent (rounds : Nat) (record : Record) (limits : IndexedToolContentLimits) :
    Option (Record × Bool × Bool) := do
  let text ← (textLimit limits record).elim (some record.text) (truncateForIndex rounds record.text)
  let toolInput ← limitField rounds limits.inputBytes record.toolInput
  let toolOutput ← limitField rounds limits.outputBytes record.toolOutput
  some ({ record with text, toolInput, toolOutput },
    shortened record.toolInput toolInput, shortened record.toolOutput toolOutput)

/-- A record whose contents are within their limits. -/
structure Within (limits : IndexedToolContentLimits) (record : Record) : Prop where
  text : ∀ maxBytes ∈ textLimit limits record, byteLength record.text.toList ≤ maxBytes
  toolInput : ∀ field ∈ record.toolInput, byteLength field.toList ≤ limits.inputBytes
  toolOutput : ∀ field ∈ record.toolOutput, byteLength field.toList ≤ limits.outputBytes

theorem limitField_of_le {field : Option String}
    (h : ∀ text ∈ field, byteLength text.toList ≤ maxBytes) :
    limitField rounds maxBytes field = some field := by
  cases field with
  | none => rfl
  | some text => rw [limitField, truncateForIndex_of_le (h text rfl), Option.map_some]

theorem shortened_self (field : Option String) : shortened field field = false := by
  cases field with
  | none => rfl
  | some text => simp [shortened]

/-- The writer leaves a record alone that the parser has brought within its limits. -/
theorem limitRecordToolContent_of_within (h : Within limits record) :
    limitRecordToolContent rounds record limits = some (record, false, false) := by
  have htext : (textLimit limits record).elim (some record.text)
      (truncateForIndex rounds record.text) = some record.text := by
    cases hlimit : textLimit limits record with
    | none => rfl
    | some maxBytes => exact truncateForIndex_of_le (h.text maxBytes hlimit)
  rw [limitRecordToolContent, htext, limitField_of_le h.toolInput, limitField_of_le h.toolOutput]
  simp [shortened_self]

end Records

end Memex.Ingest
