import Memex.Machine.ReadBudget
import Mathlib.Data.List.Infix

/-! # Reading on

A read of a whole record names where each of its fields goes on. Reads of single fields go on from
there, each with a budget of its own, until nothing is named any more. -/

namespace Memex.Machine

/-- What a read of a single field gave. -/
structure FieldCall where
  slice : String
  page : ContentPage

/-- The characters of slices one after the other. -/
def joinedSlices (calls : List FieldCall) : List Char :=
  calls.flatMap fun call => call.slice.toList

/-- Single-field reads of a record, each from where the one before named, as long as there is a
budget and something is named. -/
def followContinuation (record : Record) :
    List Nat → Option ContentContinuation →
      Except String (List FieldCall × Option ContentContinuation)
  | _, none => .ok ([], none)
  | [], some next => .ok ([], some next)
  | maxChars :: budgets, some next =>
      (ReadBudget.applyField { remaining := some maxChars } record next.field
        next.offsetChars).bind fun (_, returned, page) =>
          (followContinuation record budgets page.continuations.head?).map fun (calls, last) =>
            ({ slice := (next.field.read returned).getD "", page } :: calls, last)

/-- What a page names for a field. -/
def ContentPage.continuationOf (page : ContentPage) (field : ReadField) :
    Option ContentContinuation :=
  page.continuations.find? fun continuation => continuation.field = field

/-! ## A single field -/

/-- Where the reads of a value stand: everything was read, or what comes next is named. -/
def Stands (field : ReadField) (value : String) (start : List Char) :
    Option ContentContinuation → Prop
  | none => start = value.toList
  | some next => next.field = field ∧ next.offsetChars < charCount value ∧
      start = value.toList.take next.offsetChars

theorem Stands.isPrefix {field : ReadField} {value : String} {start : List Char}
    {next : Option ContentContinuation} (h : Stands field value start next) :
    start <+: value.toList := by
  cases next with
  | none => exact (h : start = value.toList) ▸ List.prefix_refl _
  | some next => exact h.2.2 ▸ List.take_prefix _ _

/-- Something is named as long as something is left. -/
theorem Stands.eq_none_iff {field : ReadField} {value : String} {start : List Char}
    {next : Option ContentContinuation} (h : Stands field value start next) :
    next = none ↔ start = value.toList := by
  cases next with
  | none => exact iff_of_true rfl h
  | some next =>
      apply iff_of_false (Option.some_ne_none next)
      intro heq
      have hlength := congrArg List.length (h.2.2.symm.trans heq)
      rw [List.length_take] at hlength
      have hlt : next.offsetChars < value.toList.length := h.2.1
      omega

theorem toList_charRange (value : String) (offsetChars lengthChars : Nat) :
    (charRange value offsetChars lengthChars).toList =
      (value.toList.drop offsetChars).take lengthChars := by
  rw [charRange, String.toList_ofList]

/-- A record of which one field is left. -/
def selectedOnly (record : Record) (selected : Option String) : ReadField → Record
  | .text => withContents record (selected.getD "") none none none
  | .toolInput => withContents record "" selected none none
  | .toolOutput => withContents record "" none selected none

theorem read_selectedOnly (record : Record) (selected : String) (field : ReadField) :
    field.read (selectedOnly record (some selected) field) = some selected := by
  cases field <;> rfl

/-- A read from inside a field. -/
theorem applyField_eq {budget : ReadBudget} {record : Record} {field : ReadField} {value : String}
    (hvalue : field.read record = some value) {offsetChars : Nat}
    (hinside : offsetChars ≤ charCount value) :
    budget.applyField record field offsetChars =
      .ok (budget.consume (min budget.available (charCount value - offsetChars)),
        selectedOnly record (some (charRange value offsetChars
          (min budget.available (charCount value - offsetChars)))) field,
        ReadBudget.fieldPage field offsetChars
          (min budget.available (charCount value - offsetChars)) (charCount value)) := by
  simp only [ReadBudget.applyField, hvalue, Option.map_some, Option.getD_some,
    if_neg (not_lt.mpr hinside)]
  cases field <;> rfl

/-- One read goes on where the one before ended. -/
theorem applyField_stands {record : Record} {field : ReadField} {value : String}
    (hvalue : field.read record = some value) {start : List Char}
    {next : ContentContinuation} (h : Stands field value start (some next)) (maxChars : Nat) :
    ∃ spent returned page, ReadBudget.applyField { remaining := some maxChars } record next.field
        next.offsetChars = .ok (spent, returned, page) ∧
      (page.truncated = true ↔ page.continuations.head? ≠ none) ∧
      ∃ slice, next.field.read returned = some slice ∧
        slice.toList.length = min maxChars (charCount value - next.offsetChars) ∧
        Stands field value (start ++ slice.toList) page.continuations.head? := by
  obtain ⟨named, offsetChars, totalChars⟩ := next
  obtain ⟨hfield, hlt, rfl⟩ := h
  obtain rfl : named = field := hfield
  have hlength : value.toList.length = charCount value := rfl
  refine ⟨_, _, _, applyField_eq hvalue (le_of_lt hlt), ?_, _, read_selectedOnly _ _ _, ?_, ?_⟩
  · simp only [ReadBudget.fieldPage]
    split
    next => simp
    next => simp
  · rw [toList_charRange, List.length_take, List.length_drop, hlength]
    exact Nat.min_eq_left (Nat.min_le_right _ _)
  · simp only [ReadBudget.fieldPage, toList_charRange, ← List.take_add]
    split
    next hmore => exact ⟨rfl, hmore, rfl⟩
    next hdone =>
      apply List.take_of_length_le
      rw [hlength]
      exact not_lt.mp hdone

/-! ## Following what is named -/

/-- What reads of a field from a place give: together with the start they are a first part of the
value, the whole of it when nothing is named any more, and each is marked as truncated as long as
something is left. -/
structure Resumed (value : String) (start : List Char) (calls : List FieldCall)
    (last : Option ContentContinuation) : Prop where
  isPrefix : start ++ joinedSlices calls <+: value.toList
  ended : last = none ↔ start ++ joinedSlices calls = value.toList
  marked : ∀ count, 0 < count → count ≤ calls.length → ∀ call ∈ calls[count - 1]?,
    (call.page.truncated = true ↔ start ++ joinedSlices (calls.take count) ≠ value.toList)

theorem joinedSlices_cons (call : FieldCall) (calls : List FieldCall) :
    joinedSlices (call :: calls) = call.slice.toList ++ joinedSlices calls := rfl

/-- Nothing is read yet. -/
theorem Stands.resumed {field : ReadField} {value : String} {start : List Char}
    {next : Option ContentContinuation} (h : Stands field value start next) :
    Resumed value start [] next where
  isPrefix := by
    rw [joinedSlices, List.flatMap_nil, List.append_nil]
    exact h.isPrefix
  ended := by
    rw [joinedSlices, List.flatMap_nil, List.append_nil]
    exact h.eq_none_iff
  marked _ _ _ _ hcall := by cases hcall

/-- One read before the others. -/
theorem Resumed.cons {value : String} {start : List Char} {call : FieldCall}
    {calls : List FieldCall} {last : Option ContentContinuation}
    (h : Resumed value (start ++ call.slice.toList) calls last)
    (hmarked : call.page.truncated = true ↔ start ++ call.slice.toList ≠ value.toList) :
    Resumed value start (call :: calls) last where
  isPrefix := by
    rw [joinedSlices_cons, ← List.append_assoc]
    exact h.isPrefix
  ended := by
    rw [joinedSlices_cons, ← List.append_assoc]
    exact h.ended
  marked count hpositive hle other hother := by
    obtain ⟨count, rfl⟩ := Nat.exists_eq_succ_of_ne_zero hpositive.ne'
    rw [List.take_succ_cons, joinedSlices_cons, ← List.append_assoc]
    cases count with
    | zero =>
        obtain rfl : call = other := Option.some.inj hother
        rw [List.take_zero, joinedSlices, List.flatMap_nil, List.append_nil]
        exact hmarked
    | succ count =>
        rw [List.length_cons] at hle
        exact h.marked (count + 1) (Nat.succ_pos count) (Nat.le_of_succ_le_succ hle) other hother

/-- Reads with positive budgets get through the field. -/
theorem followContinuation_resumed {record : Record} {field : ReadField} {value : String}
    (hvalue : field.read record = some value) {budgets : List Nat}
    (hpositive : ∀ maxChars ∈ budgets, 0 < maxChars) {start : List Char}
    {next : Option ContentContinuation} (h : Stands field value start next) :
    ∃ calls last, followContinuation record budgets next = .ok (calls, last) ∧
      Resumed value start calls last ∧
      (charCount value ≤ start.length + budgets.length → last = none) := by
  induction budgets generalizing start next with
  | nil =>
      cases next with
      | none => exact ⟨[], none, rfl, h.resumed, fun _ => rfl⟩
      | some next =>
          refine ⟨[], some next, rfl, h.resumed, fun hle => ?_⟩
          have hlt : next.offsetChars < charCount value := h.2.1
          have hlength := congrArg List.length h.2.2
          rw [List.length_take] at hlength
          rw [List.length_nil] at hle
          omega
  | cons maxChars rest ih =>
      cases next with
      | none => exact ⟨[], none, rfl, h.resumed, fun _ => rfl⟩
      | some next =>
          obtain ⟨spent, returned, page, hcall, htruncated, slice, hslice, hlength, hstands⟩ :=
            applyField_stands hvalue h maxChars
          obtain ⟨calls, last, hfollow, hresumed, hend⟩ := ih
            (fun other hother => hpositive other (List.mem_cons_of_mem _ hother)) hstands
          refine ⟨{ slice, page } :: calls, last, ?_, hresumed.cons ?_, fun hle => hend ?_⟩
          · rw [followContinuation, hcall]
            simp only [Except.bind, hfollow, Except.map, hslice, Option.getD_some]
          · exact htruncated.trans (not_congr hstands.eq_none_iff)
          · have hbudget := hpositive maxChars List.mem_cons_self
            have hlt : next.offsetChars < charCount value := h.2.1
            rw [List.length_append, hlength]
            rw [List.length_cons] at hle
            omega

/-! ## The whole record -/

namespace ReadBudget.Clip

/-- What the loop named for a field. -/
def named (clip : Clip) (field : ReadField) : Option ContentContinuation :=
  clip.continuations.find? fun continuation => continuation.field = field

/-- A field of the loop names itself only. -/
theorem named_field_of_ne (clip : Clip) {field other : ReadField} (h : other ≠ field)
    (original : Option String) : (clip.field other original).1.named field = clip.named field := by
  cases original with
  | none => rfl
  | some value =>
      simp only [Clip.field, named, List.find?_append]
      split
      next => simp [h]
      next => simp

/-- A field that has a value is read from its start. -/
theorem stands_field (clip : Clip) {field : ReadField} (h : clip.named field = none)
    (value : String) :
    ∃ slice, (clip.field field (some value)).2 = some slice ∧
      Stands field value slice.toList ((clip.field field (some value)).1.named field) := by
  refine ⟨_, rfl, ?_⟩
  have hnone : clip.continuations.find? (fun continuation => continuation.field = field) = none :=
    h
  simp only [Clip.field, named, List.find?_append, hnone, Option.none_or, toList_charRange,
    List.drop_zero]
  split
  next hcut =>
    rw [List.find?_cons_of_pos (by simp)]
    exact ⟨rfl, hcut, rfl⟩
  next hwhole =>
    apply List.take_of_length_le
    exact not_lt.mp hwhole

end ReadBudget.Clip

open ReadBudget in
/-- What a whole-record read gives of a field. -/
theorem applyAll_stands (budget : ReadBudget) (record : Record) (field : ReadField) :
    (field.read record = none → field.read (budget.applyAll record).2.1 = none ∧
      (budget.applyAll record).2.2.continuationOf field = none) ∧
    ∀ value, field.read record = some value →
      ∃ slice, field.read (budget.applyAll record).2.1 = some slice ∧
        Stands field value slice.toList
          ((budget.applyAll record).2.2.continuationOf field) := by
  let start : Clip := { available := budget.available }
  let first := (start.field .text (some record.text)).1
  let second := (first.field .toolInput record.toolInput).1
  have hnone : ∀ field, start.named field = none := fun _ => rfl
  have hpage : (budget.applyAll record).2.2.continuationOf field =
      (second.field .toolOutput record.toolOutput).1.named field := rfl
  rw [hpage]
  cases field with
  | text =>
      have hnamed : (second.field .toolOutput record.toolOutput).1.named .text =
          first.named .text := by
        rw [Clip.named_field_of_ne _ (by decide), Clip.named_field_of_ne _ (by decide)]
      rw [hnamed]
      constructor
      · intro h
        cases h
      · intro value hvalue
        obtain rfl : record.text = value := Option.some.inj hvalue
        exact start.stands_field (hnone .text) record.text
  | toolInput =>
      have hnamed : (second.field .toolOutput record.toolOutput).1.named .toolInput =
          second.named .toolInput := Clip.named_field_of_ne _ (by decide) _
      have hfirst : first.named .toolInput = none :=
        (Clip.named_field_of_ne _ (by decide) _).trans (hnone .toolInput)
      rw [hnamed]
      constructor
      · intro h
        have hinput : record.toolInput = none := h
        exact ⟨congrArg (fun original => (first.field .toolInput original).2) hinput,
          (congrArg (fun original => (first.field .toolInput original).1.named .toolInput)
            hinput).trans hfirst⟩
      · intro value hvalue
        have hinput : record.toolInput = some value := hvalue
        obtain ⟨slice, hslice, hstands⟩ := first.stands_field hfirst value
        rw [← hinput] at hslice hstands
        exact ⟨slice, hslice, hstands⟩
  | toolOutput =>
      have hsecond : second.named .toolOutput = none :=
        (Clip.named_field_of_ne _ (by decide) _).trans
          ((Clip.named_field_of_ne _ (by decide) _).trans (hnone .toolOutput))
      constructor
      · intro h
        have houtput : record.toolOutput = none := h
        exact ⟨congrArg (fun original => (second.field .toolOutput original).2) houtput,
          (congrArg (fun original => (second.field .toolOutput original).1.named .toolOutput)
            houtput).trans hsecond⟩
      · intro value hvalue
        have houtput : record.toolOutput = some value := hvalue
        obtain ⟨slice, hslice, hstands⟩ := second.stands_field hsecond value
        rw [← houtput] at hslice hstands
        exact ⟨slice, hslice, hstands⟩

/-- The characters of a field. -/
def fieldChars (record : Record) (field : ReadField) : Nat :=
  ((field.read record).map charCount).getD 0

theorem contentChars_eq (record : Record) : contentChars record =
    fieldChars record .text + fieldChars record .toolInput + fieldChars record .toolOutput := rfl

/-- A field is named exactly when not all of it was returned. -/
theorem fieldChars_applyAll (budget : ReadBudget) (record : Record) (field : ReadField) :
    fieldChars (budget.applyAll record).2.1 field ≤ fieldChars record field ∧
      ((budget.applyAll record).2.2.continuationOf field ≠ none ↔
        fieldChars (budget.applyAll record).2.1 field < fieldChars record field) := by
  obtain ⟨habsent, hpresent⟩ := applyAll_stands budget record field
  cases hvalue : field.read record with
  | none =>
      obtain ⟨hread, hnamed⟩ := habsent hvalue
      simp [fieldChars, hvalue, hread, hnamed]
  | some value =>
      obtain ⟨slice, hread, hstands⟩ := hpresent value hvalue
      have hle : charCount slice ≤ charCount value := hstands.isPrefix.length_le
      have hended := hstands.eq_none_iff
      have hall : slice.toList = value.toList ↔ charCount slice = charCount value :=
        ⟨congrArg List.length, hstands.isPrefix.eq_of_length⟩
      simp only [fieldChars, hvalue, hread, Option.map_some, Option.getD_some]
      refine ⟨hle, ?_⟩
      rw [Ne, hended, hall]
      omega

/-- A whole-record read is marked exactly when something is left. -/
theorem applyAll_truncated_iff (budget : ReadBudget) (record : Record) :
    (budget.applyAll record).2.2.truncated = true ↔
      contentChars (budget.applyAll record).2.1 < contentChars record := by
  have hnamed : (budget.applyAll record).2.2.truncated = true ↔
      ∃ field, (budget.applyAll record).2.2.continuationOf field ≠ none := by
    rw [((ReadBudget.applyAll_spec budget record).1).marked]
    simp only [ContentPage.continuationOf]
    cases (budget.applyAll record).2.2.continuations with
    | nil => simp
    | cons continuation rest =>
        apply iff_of_true rfl
        exact ⟨continuation.field, by simp⟩
  obtain ⟨htext, htext'⟩ := fieldChars_applyAll budget record .text
  obtain ⟨hinput, hinput'⟩ := fieldChars_applyAll budget record .toolInput
  obtain ⟨houtput, houtput'⟩ := fieldChars_applyAll budget record .toolOutput
  rw [hnamed, contentChars_eq, contentChars_eq]
  constructor
  · rintro ⟨field, hfield⟩
    cases field with
    | text => have hlt := htext'.mp hfield; omega
    | toolInput => have hlt := hinput'.mp hfield; omega
    | toolOutput => have hlt := houtput'.mp hfield; omega
  · intro hlt
    by_cases htextLt : fieldChars (budget.applyAll record).2.1 .text < fieldChars record .text
    · exact ⟨.text, htext'.mpr htextLt⟩
    · by_cases hinputLt : fieldChars (budget.applyAll record).2.1 .toolInput <
          fieldChars record .toolInput
      · exact ⟨.toolInput, hinput'.mpr hinputLt⟩
      · exact ⟨.toolOutput, houtput'.mpr (by omega)⟩

/-- Every continuation is the one of its field. -/
theorem continuationOf_field (budget : ReadBudget) (record : Record) :
    ∀ continuation ∈ (budget.applyAll record).2.2.continuations,
      (budget.applyAll record).2.2.continuationOf continuation.field = some continuation := by
  intro continuation hmem
  have hnodup := ((ReadBudget.applyAll_spec budget record).1).fields
  rw [ContentPage.continuationOf]
  generalize (budget.applyAll record).2.2.continuations = continuations at hmem hnodup
  induction continuations with
  | nil => cases hmem
  | cons first rest ih =>
      rw [List.map_cons, List.nodup_cons] at hnodup
      cases List.mem_cons.mp hmem with
      | inl h =>
          subst h
          exact List.find?_cons_of_pos (by simp)
      | inr h =>
          have hother : first.field ≠ continuation.field := fun heq =>
            hnodup.1 (heq ▸ List.mem_map_of_mem h)
          rw [List.find?_cons_of_neg (by simpa using hother)]
          exact ih h hnodup.2

/-! ## Several records -/

/-- Whole-record reads of several records on one budget. -/
def readRecords : ReadBudget → List Record → ReadBudget × List (Record × ContentPage)
  | budget, [] => (budget, [])
  | budget, record :: rest =>
      let read := budget.applyAll record
      let others := readRecords read.1 rest
      (others.1, read.2 :: others.2)

/-- The characters of all pages. -/
def returnedTotal (pages : List (Record × ContentPage)) : Nat :=
  (pages.map fun page => page.2.returnedChars).sum

theorem returnedChars_le (budget : ReadBudget) (record : Record) :
    ∀ remaining ∈ budget.remaining,
      (budget.applyAll record).2.2.returnedChars ≤ remaining := by
  intro remaining hremaining
  have hle := (ReadBudget.applyAll_spec budget record).2.1
  have hsome : budget.remaining = some remaining := hremaining
  rwa [ReadBudget.available, hsome, Option.getD_some] at hle

/-- A shared budget is spent on what is returned. -/
theorem readRecords_spends (records : List Record) {budget : ReadBudget} {limit : Nat}
    (h : budget.remaining = some limit) :
    returnedTotal (readRecords budget records).2 ≤ limit ∧
      (readRecords budget records).1.remaining =
        some (limit - returnedTotal (readRecords budget records).2) := by
  induction records generalizing budget limit with
  | nil => exact ⟨Nat.zero_le _, h⟩
  | cons record rest ih =>
      have hle := returnedChars_le budget record limit h
      have hleft : (budget.applyAll record).1.remaining =
          some (limit - (budget.applyAll record).2.2.returnedChars) := by
        rw [(ReadBudget.applyAll_spec budget record).2.2.1, ReadBudget.consume, h,
          Option.map_some]
      obtain ⟨hrest, hlast⟩ := ih hleft
      have htotal : returnedTotal (readRecords budget (record :: rest)).2 =
          (budget.applyAll record).2.2.returnedChars +
            returnedTotal (readRecords (budget.applyAll record).1 rest).2 := rfl
      rw [htotal]
      refine ⟨by omega, ?_⟩
      change (readRecords (budget.applyAll record).1 rest).1.remaining = _
      rw [hlast, Nat.sub_sub]

/-- A whole-record read returns no more than its budget, and is marked exactly when something is
left. Reads of single fields with any positive budgets, each from where the one before named, go on
where it ended: with what it returned they give a first part of the field, all of it when nothing
is named any more, which comes to pass. On a shared budget nothing is taken that is not there. -/
theorem read_budget_reconstructs :
    (∀ (budget : ReadBudget) (record : Record),
      let returned := (budget.applyAll record).2.1
      let page := (budget.applyAll record).2.2
      contentChars returned = page.returnedChars ∧
      (∀ remaining ∈ budget.remaining, page.returnedChars ≤ remaining) ∧
      (page.truncated = true ↔ contentChars returned < contentChars record) ∧
      (∀ continuation ∈ page.continuations,
        page.continuationOf continuation.field = some continuation) ∧
      ∀ field, (field.read record = none →
          field.read returned = none ∧ page.continuationOf field = none) ∧
        ∀ value, field.read record = some value →
          ∃ slice, field.read returned = some slice ∧
            ∀ budgets : List Nat, (∀ maxChars ∈ budgets, 0 < maxChars) →
              ∃ calls last, followContinuation record budgets (page.continuationOf field) =
                  .ok (calls, last) ∧
                Resumed value slice.toList calls last ∧
                (charCount value ≤ charCount slice + budgets.length → last = none)) ∧
    ∀ (budget : ReadBudget) (records : List Record),
      (∀ before record after, records = before ++ record :: after →
        ∀ remaining ∈ (readRecords budget before).1.remaining,
          ((readRecords budget before).1.applyAll record).2.2.returnedChars ≤ remaining) ∧
      ∀ limit, budget.remaining = some limit →
        returnedTotal (readRecords budget records).2 ≤ limit ∧
          (readRecords budget records).1.remaining =
            some (limit - returnedTotal (readRecords budget records).2) := by
  constructor
  · intro budget record
    refine ⟨(ReadBudget.applyAll_spec budget record).1.counted, returnedChars_le budget record,
      applyAll_truncated_iff budget record, continuationOf_field budget record, fun field => ?_⟩
    obtain ⟨habsent, hpresent⟩ := applyAll_stands budget record field
    refine ⟨habsent, fun value hvalue => ?_⟩
    obtain ⟨slice, hslice, hstands⟩ := hpresent value hvalue
    exact ⟨slice, hslice, fun budgets hpositive =>
      followContinuation_resumed hvalue hpositive hstands⟩
  · intro budget records
    exact ⟨fun before record _ _ => returnedChars_le _ record,
      fun limit hlimit => readRecords_spends records hlimit⟩

/-- A text of five characters, and a tool that was given an empty input. -/
def fiveChars : Record :=
  { text := "ab🦀cd", toolInput := some "" }

theorem read_budget_of_five_chars :
    ∃ slice calls last,
      ReadField.text.read (({ remaining := some 2 } : ReadBudget).applyAll fiveChars).2.1 =
          some slice ∧
        followContinuation fiveChars [2, 1, 7, 7, 7]
          ((({ remaining := some 2 } : ReadBudget).applyAll fiveChars).2.2.continuationOf .text) =
            .ok (calls, last) ∧
        Resumed "ab🦀cd" slice.toList calls last ∧ last = none ∧
        (readRecords { remaining := some 2 } [fiveChars, fiveChars]).1.remaining = some 0 := by
  have hbudgets : ∀ maxChars ∈ [2, 1, 7, 7, 7], 0 < maxChars := by decide
  obtain ⟨slice, hslice, hfollow⟩ :=
    ((read_budget_reconstructs.1 { remaining := some 2 } fiveChars).2.2.2.2 .text).2 "ab🦀cd" rfl
  obtain ⟨calls, last, hcalls, hresumed, hend⟩ := hfollow [2, 1, 7, 7, 7] hbudgets
  refine ⟨slice, calls, last, hslice, hcalls, hresumed, hend ?_, ?_⟩
  · have hlength : charCount "ab🦀cd" = 5 := by decide +kernel
    rw [hlength]
    exact Nat.le_add_left 5 _
  · rw [(read_budget_reconstructs.2 { remaining := some 2 } [fiveChars, fiveChars]).2 2 rfl |>.2]
    decide +kernel

end Memex.Machine
