import Mathlib.Algebra.Order.Ring.Int
import Mathlib.Data.Int.ConditionallyCompleteOrder
import Mathlib.Data.List.Nodup
import Mathlib.Data.String.Basic
import Mathlib.Order.Lattice.Nat
import Memex.Types

/-! # Character budgets of reads

`read_budget.rs`: a budget of characters is spent on the fields of records in their order; what
does not fit is cut and named with the place to go on at. -/

namespace Memex.Machine

inductive ReadField where
  | text
  | toolInput
  | toolOutput
  deriving DecidableEq, Repr

/-- The `Debug` form. -/
def ReadField.name : ReadField → String
  | text => "Text"
  | toolInput => "ToolInput"
  | toolOutput => "ToolOutput"

structure ContentContinuation where
  field : ReadField
  offsetChars : Nat
  totalChars : Nat
  deriving DecidableEq, Repr

structure ContentPage where
  returnedChars : Nat
  totalChars : Nat
  truncated : Bool
  continuations : List ContentContinuation
  deriving DecidableEq, Repr

/-- `ReadBudget`; no number means no limit. -/
structure ReadBudget where
  remaining : Option Nat
  deriving DecidableEq, Repr

def charCount (value : String) : Nat :=
  value.toList.length

def charRange (value : String) (offsetChars lengthChars : Nat) : String :=
  String.ofList ((value.toList.drop offsetChars).take lengthChars)

/-- The value of a field, if it has one. -/
def ReadField.read (record : Record) : ReadField → Option String
  | text => some record.text
  | toolInput => record.toolInput
  | toolOutput => record.toolOutput

/-- The record with new contents and new source blocks; nothing else of it is touched. -/
def withContents (record : Record) (text : String) (toolInput toolOutput sourceContent :
    Option String) : Record :=
  { record with
    text, toolInput, toolOutput
    links := { record.links with sourceContent := sourceContent } }

/-- All characters of the contents. -/
def contentChars (record : Record) : Nat :=
  charCount record.text + (record.toolInput.map charCount).getD 0 +
    (record.toolOutput.map charCount).getD 0

namespace ReadBudget

def consume (budget : ReadBudget) (chars : Nat) : ReadBudget where
  remaining := budget.remaining.map fun remaining => remaining - chars

/-- What may be spent; without a limit it is what a `usize` holds. -/
def available (budget : ReadBudget) : Nat :=
  budget.remaining.getD (2 ^ 64 - 1)

/-- The result of a field request with what the field had. -/
def fieldPage (field : ReadField) (offsetChars returnedChars totalChars : Nat) : ContentPage :=
  let continuations :=
    if offsetChars + returnedChars < totalChars then
      [{ field, offsetChars := offsetChars + returnedChars, totalChars }]
    else []
  { returnedChars, totalChars, truncated := !continuations.isEmpty, continuations }

def applyField (budget : ReadBudget) (record : Record) (field : ReadField) (offsetChars : Nat) :
    Except String (ReadBudget × Record × ContentPage) :=
  let original := field.read record
  let totalChars := (original.map charCount).getD 0
  if totalChars < offsetChars then
    .error s!"offset_chars {offsetChars} is past the end of {field.name} ({totalChars} chars)"
  else
    let returnedChars := min budget.available (totalChars - offsetChars)
    let selected := original.map fun value => charRange value offsetChars returnedChars
    let selectedOnly :=
      match field with
      | .text => withContents record (selected.getD "") none none none
      | .toolInput => withContents record "" selected none none
      | .toolOutput => withContents record "" none selected none
    .ok (budget.consume returnedChars, selectedOnly,
      fieldPage field offsetChars returnedChars totalChars)

/-- The loop over the fields: what is left, what was returned and where to go on. -/
structure Clip where
  available : Nat
  returnedChars : Nat := 0
  continuations : List ContentContinuation := []

/-- One field of the loop. -/
def Clip.field (clip : Clip) (field : ReadField) (original : Option String) :
    Clip × Option String :=
  match original with
  | none => (clip, none)
  | some value =>
      let taken := min clip.available (charCount value)
      ({ available := clip.available - taken
         returnedChars := clip.returnedChars + taken
         continuations := clip.continuations ++
          if taken < charCount value then
            [{ field, offsetChars := taken, totalChars := charCount value }]
          else [] },
        some (charRange value 0 taken))

def applyAll (budget : ReadBudget) (record : Record) : ReadBudget × Record × ContentPage :=
  let sourceContent := if budget.remaining.isSome then none else record.links.sourceContent
  let start : Clip := { available := budget.available }
  let (clip, text) := start.field .text (some record.text)
  let (clip, toolInput) := clip.field .toolInput record.toolInput
  let (clip, toolOutput) := clip.field .toolOutput record.toolOutput
  (budget.consume clip.returnedChars,
    withContents record (text.getD "") toolInput toolOutput sourceContent,
    { returnedChars := clip.returnedChars
      totalChars := contentChars record
      truncated := !clip.continuations.isEmpty
      continuations := clip.continuations })

def apply (budget : ReadBudget) (record : Record) (field : Option ReadField) (offsetChars : Nat) :
    Except String (ReadBudget × Record × ContentPage) :=
  match field with
  | none =>
      if offsetChars ≠ 0 then .error "offset_chars requires an explicitly selected field"
      else .ok (budget.applyAll record)
  | some field => budget.applyField record field offsetChars

end ReadBudget

/-! ## What a budget returns -/

/-- A page that says of the contents it comes with how much of what they are. -/
structure ContentPage.Describes (page : ContentPage) (record : Record) : Prop where
  counted : contentChars record = page.returnedChars
  within : page.returnedChars ≤ page.totalChars
  marked : page.truncated = !page.continuations.isEmpty
  inside : ∀ continuation ∈ page.continuations, continuation.offsetChars ≤ continuation.totalChars
  fields : (page.continuations.map ContentContinuation.field).Nodup

theorem charCount_charRange {value : String} {offsetChars lengthChars : Nat}
    (h : lengthChars ≤ charCount value - offsetChars) :
    charCount (charRange value offsetChars lengthChars) = lengthChars := by
  rw [charCount, charRange, String.toList_ofList, List.length_take, List.length_drop]
  exact Nat.min_eq_left h

theorem charCount_empty : charCount "" = 0 := rfl

/-- What one field of the loop does. -/
theorem ReadBudget.Clip.field_spec (clip : ReadBudget.Clip) (field : ReadField)
    (original : Option String) :
    let after := (clip.field field original).1
    let taken := (((clip.field field original).2).map charCount).getD 0
    after.returnedChars = clip.returnedChars + taken ∧
      after.available = clip.available - taken ∧ taken ≤ clip.available ∧
      taken ≤ (original.map charCount).getD 0 ∧
      ∃ added : List ContentContinuation, after.continuations = clip.continuations ++ added ∧
        (added = [] ∨ ∃ continuation, added = [continuation] ∧ continuation.field = field ∧
          continuation.offsetChars ≤ continuation.totalChars) := by
  cases original with
  | none => exact ⟨rfl, rfl, Nat.zero_le _, Nat.le_refl _, [], (List.append_nil _).symm, Or.inl rfl⟩
  | some value =>
      have htaken : charCount (charRange value 0 (min clip.available (charCount value))) =
          min clip.available (charCount value) :=
        charCount_charRange (Nat.min_le_right _ _)
      simp only [Clip.field, Option.map_some, Option.getD_some, htaken, true_and]
      refine ⟨Nat.min_le_left _ _, Nat.min_le_right _ _, _, rfl, ?_⟩
      split
      · next hcut => exact Or.inr ⟨_, rfl, rfl, Nat.le_of_lt hcut⟩
      · exact Or.inl rfl

theorem charCount_getD (value : Option String) :
    charCount (value.getD "") = (value.map charCount).getD 0 := by
  cases value with
  | none => rfl
  | some value => rfl

/-- A read of the whole record describes what it returns and spends it. -/
theorem ReadBudget.applyAll_spec (budget : ReadBudget) (record : Record) :
    let result := budget.applyAll record
    result.2.2.Describes result.2.1 ∧ result.2.2.returnedChars ≤ budget.available ∧
      result.1 = budget.consume result.2.2.returnedChars ∧
      ∃ text toolInput toolOutput sourceContent,
        result.2.1 = withContents record text toolInput toolOutput sourceContent := by
  obtain ⟨hreturned₁, havailable₁, hbound₁, hwhole₁, added₁, hadded₁, hone₁⟩ :=
    Clip.field_spec { available := budget.available } .text (some record.text)
  obtain ⟨hreturned₂, havailable₂, hbound₂, hwhole₂, added₂, hadded₂, hone₂⟩ :=
    Clip.field_spec (Clip.field { available := budget.available } .text (some record.text)).1
      .toolInput record.toolInput
  obtain ⟨hreturned₃, havailable₃, hbound₃, hwhole₃, added₃, hadded₃, hone₃⟩ :=
    Clip.field_spec (Clip.field (Clip.field { available := budget.available } .text
      (some record.text)).1 .toolInput record.toolInput).1 .toolOutput record.toolOutput
  rw [hadded₂, hadded₁, List.nil_append] at hadded₃
  dsimp only at hreturned₁ havailable₁ hbound₁ hreturned₂ hreturned₃
  refine ⟨⟨?_, ?_, rfl, ?_, ?_⟩, ?_, rfl, _, _, _, _, rfl⟩
  · simp only [applyAll, contentChars, withContents, charCount_getD]
    omega
  · simp only [applyAll, contentChars]
    simp only [Option.map_some, Option.getD_some] at hwhole₁
    omega
  · intro continuation hmem
    simp only [applyAll, hadded₃, List.mem_append] at hmem
    obtain (hmem | hmem) | hmem := hmem
    · obtain rfl | ⟨one, rfl, -, hinside⟩ := hone₁
      · cases hmem
      · exact List.mem_singleton.mp hmem ▸ hinside
    · obtain rfl | ⟨one, rfl, -, hinside⟩ := hone₂
      · cases hmem
      · exact List.mem_singleton.mp hmem ▸ hinside
    · obtain rfl | ⟨one, rfl, -, hinside⟩ := hone₃
      · cases hmem
      · exact List.mem_singleton.mp hmem ▸ hinside
  · simp only [applyAll, hadded₃]
    obtain rfl | ⟨one, rfl, hone, -⟩ := hone₁ <;> obtain rfl | ⟨two, rfl, htwo, -⟩ := hone₂ <;>
      obtain rfl | ⟨three, rfl, hthree, -⟩ := hone₃ <;> simp [*]
  · simp only [applyAll]
    omega

/-- A read of one field describes what it returns and spends it. -/
theorem ReadBudget.applyField_spec {budget spent : ReadBudget} {record returned : Record}
    {field : ReadField} {offsetChars : Nat} {page : ContentPage}
    (h : budget.applyField record field offsetChars = .ok (spent, returned, page)) :
    page.Describes returned ∧ page.returnedChars ≤ budget.available ∧
      spent = budget.consume page.returnedChars ∧
      ∃ text toolInput toolOutput sourceContent,
        returned = withContents record text toolInput toolOutput sourceContent := by
  simp only [applyField] at h
  split at h
  · cases h
  · next hinside =>
    simp only [Except.ok.injEq, Prod.mk.injEq] at h
    obtain ⟨rfl, hreturned, rfl⟩ := h
    have htaken : ∀ original : Option String, ∀ taken,
        taken ≤ (original.map charCount).getD 0 - offsetChars →
        ((original.map fun value => charRange value offsetChars taken).map charCount).getD 0 =
          taken := by
      intro original taken htaken
      cases original with
      | none =>
          rw [Option.map_none, Option.getD_none, Nat.zero_sub] at htaken
          exact (Nat.le_zero.mp htaken).symm
      | some value => exact charCount_charRange htaken
    have hcount := htaken (field.read record) _ (Nat.min_le_right budget.available
      (((field.read record).map charCount).getD 0 - offsetChars))
    refine ⟨⟨?_, ?_, rfl, ?_, ?_⟩, Nat.min_le_left _ _, rfl, ?_⟩
    · subst hreturned
      cases field with
      | text =>
          simp only [contentChars, withContents, charCount_getD, Option.map_none,
            Option.getD_none, Nat.add_zero]
          exact hcount
      | toolInput =>
          simp only [contentChars, withContents, charCount_empty, Option.map_none,
            Option.getD_none, Nat.add_zero, Nat.zero_add]
          exact hcount
      | toolOutput =>
          simp only [contentChars, withContents, charCount_empty, Option.map_none,
            Option.getD_none, Nat.add_zero, Nat.zero_add]
          exact hcount
    · simp only [fieldPage]
      omega
    · intro continuation hmem
      simp only [fieldPage] at hmem
      split at hmem
      · next hmore =>
        obtain rfl := List.mem_singleton.mp hmem
        exact Nat.le_of_lt hmore
      · cases hmem
    · simp only [fieldPage]
      split
      · exact List.nodup_singleton _
      · exact List.nodup_nil
    · subst hreturned
      cases field with
      | text => exact ⟨_, _, _, _, rfl⟩
      | toolInput => exact ⟨_, _, _, _, rfl⟩
      | toolOutput => exact ⟨_, _, _, _, rfl⟩

/-- What a budget returns is described and spent, and only contents of the record change. -/
theorem ReadBudget.apply_spec {budget spent : ReadBudget} {record returned : Record}
    {field : Option ReadField} {offsetChars : Nat} {page : ContentPage}
    (h : budget.apply record field offsetChars = .ok (spent, returned, page)) :
    page.Describes returned ∧ page.returnedChars ≤ budget.available ∧
      spent = budget.consume page.returnedChars ∧
      ∃ text toolInput toolOutput sourceContent,
        returned = withContents record text toolInput toolOutput sourceContent := by
  cases field with
  | some field => exact applyField_spec h
  | none =>
      simp only [apply] at h
      split at h
      · cases h
      · obtain hall := Except.ok.inj h
        have hspec := applyAll_spec budget record
        rw [hall] at hspec
        exact hspec

end Memex.Machine
