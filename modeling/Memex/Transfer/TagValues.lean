import Memex.Lib.Boundaries
import Memex.Transfer.MessageText

/-! # Values of tags

`map_user_text_for_compact` and `extract_tag_value` of `transfer.rs`. A tag is looked for in the
lower case of a text, and what it is found at is used as a place of the text itself. -/

namespace Memex.Transfer

open Boundaries Text

section Model

variable (lower : Lowercase)

/-- `str::find`: the byte at which a text first occurs. -/
def findText (pattern : List Char) : List Char → Option Nat
  | [] => if pattern = [] then some 0 else none
  | symbol :: rest =>
      if pattern.isPrefixOf (symbol :: rest) then some 0
      else (findText pattern rest).map (symbol.utf8Size + ·)

/-- `&text[start..stop]`; it panics out of the text and within a symbol. -/
def sliceText (text : List Char) (start stop : Nat) : Option (List Char) :=
  if start ≤ stop ∧ isBoundary text start = true ∧ isBoundary text stop = true then
    some (cut (cut text stop).1 start).2
  else none

def openTag (tag : List Char) : List Char := '<' :: (tag ++ ['>'])

def closeTag (tag : List Char) : List Char := '<' :: '/' :: (tag ++ ['>'])

/-- `extract_tag_value`, or none where it panics. The place that a text is found at is between
two symbols, so the first slice does not. -/
def extractTagValue (text tag : List Char) : Option (List Char) :=
  let lowered := toLowercase lower text
  match findText (openTag tag) lowered with
  | none => some []
  | some start =>
      let start := start + byteLength (openTag tag)
      match findText (closeTag tag) (cut lowered start).2 with
      | none => some []
      | some stop => (sliceText text start (start + stop)).map joinWords

/-- A value after a note on what it is of, or the note alone. -/
def noted (note value : List Char) : List Char :=
  if value = [] then note else note ++ ' ' :: value

/-- `map_user_text_for_compact`, or none where it panics. -/
def mapUserTextForCompact (text : List Char) : Option (Option (List Char)) :=
  let raw := trimText text
  let normalized := normalizeText lower raw
  let starts (tag : String) : Bool := (openTag tag.toList).isPrefixOf normalized
  let value (tag : String) : Option (List Char) := extractTagValue lower raw tag.toList
  if raw = [] then some none
  else if normalized = "continue".toList ∨ normalized = "contiue".toList then
    some (some "[User requested continuation]".toList)
  else if starts "task-notification" then do
    let summary ← value "summary"
    return some (noted "[Task notification]".toList summary)
  else if starts "command-name" then do
    let commandName ← value "command-name"
    let commandMessage ← value "command-message"
    let command := "[Local command]".toList
    return some
      (if commandName = [] then command
      else if commandMessage = [] then noted command commandName
      else noted command (commandName ++ ':' :: ' ' :: commandMessage))
  else if starts "local-command-stdout" then do
    let stdout ← value "local-command-stdout"
    return some (noted "[Local command stdout]".toList stdout)
  else if starts "local-command-caveat" then do
    let caveat ← value "local-command-caveat"
    return some (noted "[Local command caveat]".toList caveat)
  else some (some raw)

/-- The tags whose values are extracted. -/
def compactTags : List (List Char) :=
  ["summary".toList, "command-name".toList, "command-message".toList,
    "local-command-stdout".toList, "local-command-caveat".toList]

end Model

/-! ## What the value should be -/

/-- The first occurrence of a tag in a text, up to the case of ASCII letters: what is before it,
how it is written, and what is after it. -/
def splitTag (pattern : List Char) : List Char → Option (List Char × List Char × List Char)
  | [] => none
  | symbol :: rest =>
      if pattern.isPrefixOf ((symbol :: rest).map Char.toLower) then
        some ([], (symbol :: rest).take pattern.length, (symbol :: rest).drop pattern.length)
      else (splitTag pattern rest).map fun parts => (symbol :: parts.1, parts.2)

/-- A text with a tag: what is before it, the tag as it is written, what is between it and the
next close tag, and what follows from there on. -/
structure TaggedText where
  before : List Char
  opened : List Char
  content : List Char
  closed : List Char

def taggedText (text tag : List Char) : Option TaggedText := do
  let (before, opened, rest) ← splitTag (openTag tag) text
  let (content, close, after) ← splitTag (closeTag tag) rest
  return ⟨before, opened, content, close ++ after⟩

/-- The words between the first open tag and the next close tag. -/
def expectedTagValue (text tag : List Char) : List Char :=
  match taggedText text tag with
  | some parts => joinWords parts.content
  | none => []

section Aligned

variable (lower : Lowercase)

/-- Where the content of a tag would begin if what is before it were as long as its lower
case. -/
def TaggedText.start (parts : TaggedText) : Nat :=
  byteLength (lower.part [] parts.before (parts.opened ++ (parts.content ++ parts.closed))) +
    byteLength parts.opened

/-- How long the lower case of the content is. -/
def TaggedText.loweredLength (parts : TaggedText) : Nat :=
  byteLength (lower.part (parts.before ++ parts.opened) parts.content parts.closed)

/-- The content, moved and stretched as the lower case is, has the same words. -/
def Aligned (text tag : List Char) : Prop :=
  ∀ parts, taggedText text tag = some parts →
    ∃ part, sliceText text (parts.start lower) (parts.start lower + parts.loweredLength lower) =
      some part ∧ joinWords part = joinWords parts.content

end Aligned

section Search

variable {lower : Lowercase} {pattern text tag : List Char}

/-- A symbol that only an ASCII symbol becomes in lower case. -/
def isTagSymbol (symbol : Char) : Bool :=
  symbol.toNat < 128 && symbol ≠ 'i' && symbol ≠ 'k'

theorem toLower_of_not_ascii {symbol : Char} (h : ¬ symbol.toNat < 128) :
    symbol.toLower = symbol := by
  apply dif_neg
  rintro ⟨-, hle⟩
  exact h (Nat.lt_of_le_of_lt (UInt32.le_iff_toNat_le.mp hle) (by decide))

/-- In lower case a text begins with a tag exactly if it does up to the case of ASCII letters. -/
theorem isPrefixOf_part (hpattern : ∀ symbol ∈ pattern, isTagSymbol symbol = true)
    (before after : List Char) :
    pattern.isPrefixOf (lower.part before text after) =
      pattern.isPrefixOf (text.map Char.toLower) := by
  induction pattern generalizing before text with
  | nil => rfl
  | cons first pattern ih =>
      have hfirst := hpattern first List.mem_cons_self
      simp only [isTagSymbol, Bool.and_eq_true, decide_eq_true_eq] at hfirst
      cases text with
      | nil => rfl
      | cons symbol rest =>
          rw [Lowercase.part, List.map_cons]
          by_cases hascii : symbol.toNat < 128
          · rw [lower.ascii _ _ _ hascii, List.singleton_append, List.isPrefixOf,
              List.isPrefixOf,
              ih (fun symbol hmem => hpattern symbol (List.mem_cons_of_mem _ hmem))]
          · obtain ⟨head, tail, hlowered⟩ := List.exists_cons_of_ne_nil
              (lower.nonempty before symbol (rest ++ after))
            have hne : first ≠ head := by
              rintro rfl
              have hmem : first ∈ lower.lowerAt before symbol (rest ++ after) := by
                rw [hlowered]
                exact List.mem_cons_self
              obtain rfl | rfl := lower.other _ _ _ (Nat.not_lt.mp hascii) _ hmem hfirst.1.1
              · exact hfirst.1.2 rfl
              · exact hfirst.2 rfl
            have hne' : first ≠ symbol.toLower := by
              rw [toLower_of_not_ascii hascii]
              rintro rfl
              exact hascii hfirst.1.1
            rw [hlowered, List.cons_append, List.isPrefixOf, List.isPrefixOf,
              beq_false_of_ne hne, beq_false_of_ne hne', Bool.false_and, Bool.false_and]

/-- The first occurrence of a tag, in the text. -/
theorem splitTag_eq_some {front opened back : List Char}
    (h : splitTag pattern text = some (front, opened, back)) :
    text = front ++ (opened ++ back) ∧ opened.map Char.toLower = pattern := by
  induction text generalizing front with
  | nil => cases h
  | cons symbol rest ih =>
      rw [splitTag] at h
      split at h
      next hprefix =>
        obtain ⟨rfl, rfl, rfl⟩ : [] = front ∧ (symbol :: rest).take pattern.length = opened ∧
            (symbol :: rest).drop pattern.length = back := by simpa using h
        constructor
        · rw [List.nil_append, List.take_append_drop]
        · rw [List.map_take]
          exact (List.prefix_iff_eq_take.mp (List.isPrefixOf_iff_prefix.mp hprefix)).symm
      next =>
        obtain ⟨⟨front', parts⟩, hrest, heq⟩ := Option.map_eq_some_iff.mp h
        obtain ⟨rfl, rfl⟩ := Prod.mk.inj heq
        obtain ⟨htext, hopened⟩ := ih hrest
        exact ⟨congrArg (symbol :: ·) htext, hopened⟩

theorem findText_of_prefix (h : pattern.isPrefixOf text = true) :
    findText pattern text = some 0 := by
  cases text with
  | nil =>
      rw [List.isPrefixOf_iff_prefix, List.prefix_nil] at h
      rw [findText, if_pos h]
  | cons symbol rest => rw [findText, if_pos h]

/-- What a tag cannot begin in is passed. -/
theorem findText_append {skipped : List Char}
    (h : ∀ front symbol back, skipped = front ++ symbol :: back →
      pattern.isPrefixOf (symbol :: (back ++ text)) = false) :
    findText pattern (skipped ++ text) =
      (findText pattern text).map (byteLength skipped + ·) := by
  induction skipped with
  | nil =>
      rw [List.nil_append, byteLength_nil]
      cases findText pattern text <;> simp
  | cons symbol skipped ih =>
      have hfirst := h [] symbol skipped rfl
      have hrest := ih fun front other back heq => h (symbol :: front) other back (by rw [heq]; rfl)
      rw [List.cons_append, findText, if_neg (by rw [hfirst]; exact Bool.false_ne_true), hrest,
        Option.map_map, byteLength_cons]
      congr 1
      funext position
      exact (Nat.add_assoc _ _ _).symm

/-- A symbol at which no tag begins is passed in lower case. -/
theorem findText_lowerAt {tagRest : List Char} {before after rest : List Char} {symbol : Char}
    (h : ('<' :: tagRest).isPrefixOf (lower.lowerAt before symbol after ++ rest) = false) :
    findText ('<' :: tagRest) (lower.lowerAt before symbol after ++ rest) =
      (findText ('<' :: tagRest) rest).map
        (byteLength (lower.lowerAt before symbol after) + ·) := by
  apply findText_append
  intro front other back hparts
  cases front with
  | nil =>
      rw [hparts] at h
      exact h
  | cons head front =>
      have hother : other ≠ '<' := by
        rintro rfl
        have hmem : '<' ∈ lower.lowerAt before symbol after := by
          rw [hparts]
          simp
        by_cases hascii : symbol.toNat < 128
        · rw [lower.ascii _ _ _ hascii] at hparts
          have hlength := congrArg List.length hparts
          simp at hlength
        · obtain h' | h' := lower.other _ _ _ (Nat.not_lt.mp hascii) _ hmem (by decide)
          · exact absurd h' (by decide)
          · exact absurd h' (by decide)
      rw [List.isPrefixOf, beq_false_of_ne (Ne.symm hother), Bool.false_and]

/-- Where no tag is, none is found in lower case. -/
theorem findText_part_of_none {tagRest : List Char}
    (hpattern : ∀ symbol ∈ '<' :: tagRest, isTagSymbol symbol = true)
    (h : splitTag ('<' :: tagRest) text = none) (before after : List Char) :
    findText ('<' :: tagRest) (lower.part before text after) = none := by
  induction text generalizing before with
  | nil => rfl
  | cons symbol rest ih =>
      rw [splitTag] at h
      split at h
      · cases h
      next hprefix =>
        rw [Bool.not_eq_true, ← isPrefixOf_part hpattern before after, Lowercase.part] at hprefix
        rw [Lowercase.part, findText_lowerAt hprefix, ih (Option.map_eq_none_iff.mp h)]
        rfl

/-- A tag is found in lower case after the lower case of what is before it. -/
theorem findText_part_of_some {tagRest front opened back : List Char}
    (hpattern : ∀ symbol ∈ '<' :: tagRest, isTagSymbol symbol = true)
    (h : splitTag ('<' :: tagRest) text = some (front, opened, back))
    (before after : List Char) :
    findText ('<' :: tagRest) (lower.part before text after) =
      some (byteLength (lower.part before front (opened ++ back ++ after))) := by
  induction text generalizing before front with
  | nil => cases h
  | cons symbol rest ih =>
      rw [splitTag] at h
      split at h
      next hprefix =>
        obtain ⟨rfl, -, -⟩ : [] = front ∧ _ = opened ∧ _ = back := by simpa using h
        rw [← isPrefixOf_part hpattern before after] at hprefix
        exact findText_of_prefix hprefix
      next hprefix =>
        obtain ⟨⟨front', parts⟩, hrest, heq⟩ := Option.map_eq_some_iff.mp h
        obtain ⟨rfl, rfl⟩ := Prod.mk.inj heq
        obtain ⟨htext, -⟩ := splitTag_eq_some hrest
        rw [Bool.not_eq_true, ← isPrefixOf_part hpattern before after, Lowercase.part] at hprefix
        rw [Lowercase.part, findText_lowerAt hprefix, ih hrest, Lowercase.part,
          byteLength_append, htext]
        simp only [Option.map_some, List.append_assoc]

theorem utf8Size_of_ascii {symbol : Char} (h : symbol.toNat < 128) : symbol.utf8Size = 1 := by
  rw [Char.utf8Size]
  apply if_pos
  exact UInt32.le_iff_toNat_le.mpr (Nat.le_of_lt_succ h)

/-- A tag in lower case, however it is written. -/
theorem part_of_map_toLower (hpattern : ∀ symbol ∈ pattern, isTagSymbol symbol = true)
    (h : text.map Char.toLower = pattern) (before after : List Char) :
    lower.part before text after = pattern ∧ byteLength text = byteLength pattern := by
  subst h
  induction text generalizing before with
  | nil => exact ⟨rfl, rfl⟩
  | cons symbol rest ih =>
      rw [List.map_cons] at hpattern
      obtain ⟨hpart, hlength⟩ := ih (before ++ [symbol])
        fun other hmem => hpattern other (List.mem_cons_of_mem _ hmem)
      have hlower := hpattern _ List.mem_cons_self
      simp only [isTagSymbol, Bool.and_eq_true, decide_eq_true_eq] at hlower
      have hascii : symbol.toNat < 128 := by
        by_contra hnot
        rw [toLower_of_not_ascii hnot] at hlower
        exact hnot hlower.1.1
      constructor
      · rw [Lowercase.part, lower.ascii _ _ _ hascii, hpart]
        rfl
      · rw [List.map_cons, byteLength_cons, byteLength_cons, hlength,
          utf8Size_of_ascii hascii, utf8Size_of_ascii hlower.1.1]

theorem isTagSymbol_of_mem_compactTags (htag : tag ∈ compactTags) :
    (∀ symbol ∈ openTag tag, isTagSymbol symbol = true) ∧
      ∀ symbol ∈ closeTag tag, isTagSymbol symbol = true := by
  have hall : ∀ tag ∈ compactTags, (openTag tag).all isTagSymbol = true ∧
      (closeTag tag).all isTagSymbol = true := by decide +kernel
  exact ⟨List.all_eq_true.mp (hall tag htag).1, List.all_eq_true.mp (hall tag htag).2⟩

/-- The value that is extracted, by the parts of the text. -/
theorem extractTagValue_eq (htag : tag ∈ compactTags) :
    extractTagValue lower text tag =
      match taggedText text tag with
      | none => some []
      | some parts =>
          (sliceText text (parts.start lower)
            (parts.start lower + parts.loweredLength lower)).map joinWords := by
  obtain ⟨hopen, hclose⟩ := isTagSymbol_of_mem_compactTags htag
  cases hfirst : splitTag (openTag tag) text with
  | none =>
      have hnone := @findText_part_of_none lower _ _ hopen hfirst [] []
      simp only [extractTagValue, toLowercase, taggedText, hfirst]
      rw [openTag, hnone]
      rfl
  | some found =>
      obtain ⟨before, opened, rest⟩ := found
      obtain ⟨htext, hopened⟩ := splitTag_eq_some hfirst
      have hfound : findText (openTag tag) (toLowercase lower text) =
          some (byteLength (lower.part [] before (opened ++ rest))) := by
        have hpart := @findText_part_of_some lower _ _ _ _ _ hopen hfirst [] []
        rwa [List.append_nil] at hpart
      obtain ⟨htagPart, hlength⟩ := @part_of_map_toLower lower _ _ hopen hopened before rest
      have hcut : (cut (toLowercase lower text)
          (byteLength (lower.part [] before (opened ++ rest)) + byteLength (openTag tag))).2 =
          lower.part (before ++ opened) rest [] := by
        have hparts : toLowercase lower text =
            (lower.part [] before (opened ++ rest) ++ openTag tag) ++
              lower.part (before ++ opened) rest [] := by
          rw [toLowercase, htext, Lowercase.part_append, Lowercase.part_append, List.nil_append,
            List.append_nil, List.append_nil, htagPart, List.append_assoc]
        rw [hparts, ← byteLength_append, cut_byteLength]
      rw [extractTagValue]
      dsimp only
      rw [hfound]
      dsimp only
      rw [hcut]
      cases hsecond : splitTag (closeTag tag) rest with
      | none =>
          have hnone : findText (closeTag tag) (lower.part (before ++ opened) rest []) = none :=
            findText_part_of_none hclose hsecond (before ++ opened) []
          have htagged : taggedText text tag = none := by
            simp [taggedText, hfirst, hsecond]
          rw [hnone, htagged]
      | some other =>
          obtain ⟨content, close, after⟩ := other
          obtain ⟨hrest, -⟩ := splitTag_eq_some hsecond
          have hother : findText (closeTag tag) (lower.part (before ++ opened) rest []) =
              some (byteLength (lower.part (before ++ opened) content (close ++ after))) := by
            have hpart := @findText_part_of_some lower _ _ _ _ _ hclose hsecond
              (before ++ opened) []
            rwa [List.append_nil] at hpart
          have htagged : taggedText text tag = some ⟨before, opened, content, close ++ after⟩ := by
            simp [taggedText, hfirst, hsecond]
          rw [hother, htagged]
          dsimp only
          rw [TaggedText.start, TaggedText.loweredLength, hlength, hrest]

/-- The value is right exactly if the tags are aligned. -/
theorem extractTagValue_iff (htag : tag ∈ compactTags) :
    extractTagValue lower text tag = some (expectedTagValue text tag) ↔
      Aligned lower text tag := by
  rw [extractTagValue_eq htag, expectedTagValue]
  constructor
  · intro h parts hparts
    rw [hparts] at h
    exact Option.map_eq_some_iff.mp h
  · intro h
    cases htagged : taggedText text tag with
    | none => rfl
    | some parts =>
        exact Option.map_eq_some_iff.mpr (h parts htagged)

theorem sliceText_middle (front middle back : List Char) :
    sliceText (front ++ (middle ++ back)) (byteLength front)
      (byteLength front + byteLength middle) = some middle := by
  have hstart : isBoundary (front ++ (middle ++ back)) (byteLength front) = true :=
    isBoundary_iff.mpr ⟨front, middle ++ back, rfl, rfl⟩
  have hstop : isBoundary (front ++ (middle ++ back))
      (byteLength front + byteLength middle) = true :=
    isBoundary_iff.mpr ⟨front ++ middle, back, (List.append_assoc _ _ _).symm,
      byteLength_append _ _⟩
  rw [sliceText, if_pos ⟨Nat.le_add_right _ _, hstart, hstop⟩, ← byteLength_append,
    ← List.append_assoc, cut_byteLength, cut_byteLength]

/-- The parts of a text with a tag are the text. -/
theorem taggedText_eq_some {parts : TaggedText} (h : taggedText text tag = some parts) :
    text = parts.before ++ parts.opened ++ (parts.content ++ parts.closed) := by
  obtain ⟨⟨before, opened, rest⟩, hfirst, h⟩ := Option.bind_eq_some_iff.mp h
  obtain ⟨⟨content, close, after⟩, hsecond, h⟩ := Option.bind_eq_some_iff.mp h
  obtain rfl := Option.some.inj h
  obtain ⟨htext, -⟩ := splitTag_eq_some hfirst
  obtain ⟨hrest, -⟩ := splitTag_eq_some hsecond
  rw [htext, List.append_assoc, hrest]

/-- Tags whose front and content are as long in lower case are aligned. -/
theorem aligned_of_same_length
    (h : ∀ parts, taggedText text tag = some parts →
      parts.start lower = byteLength (parts.before ++ parts.opened) ∧
        parts.loweredLength lower = byteLength parts.content) : Aligned lower text tag := by
  intro parts hparts
  obtain ⟨hstart, hlength⟩ := h parts hparts
  refine ⟨parts.content, ?_, rfl⟩
  rw [hstart, hlength, taggedText_eq_some hparts]
  exact sliceText_middle _ _ _

theorem isSome_ite {p : Prop} [Decidable p] {left right : Option (Option (List Char))}
    (hleft : left.isSome) (hright : right.isSome) : (if p then left else right).isSome := by
  by_cases h : p
  · rw [if_pos h]
    exact hleft
  · rw [if_neg h]
    exact hright

/-- The mapping of a text needs no more than the values of its tags. -/
theorem mapUserTextForCompact_isSome
    (h : ∀ tag ∈ compactTags, (extractTagValue lower (trimText text) tag).isSome) :
    (mapUserTextForCompact lower text).isSome := by
  have hvalue : ∀ tag ∈ compactTags, ∃ value,
      extractTagValue lower (trimText text) tag = some value := fun tag htag =>
    Option.isSome_iff_exists.mp (h tag htag)
  obtain ⟨summary, hsummary⟩ := hvalue "summary".toList (by decide +kernel)
  obtain ⟨commandName, hcommandName⟩ := hvalue "command-name".toList (by decide +kernel)
  obtain ⟨commandMessage, hcommandMessage⟩ := hvalue "command-message".toList (by decide +kernel)
  obtain ⟨stdout, hstdout⟩ := hvalue "local-command-stdout".toList (by decide +kernel)
  obtain ⟨caveat, hcaveat⟩ := hvalue "local-command-caveat".toList (by decide +kernel)
  rw [mapUserTextForCompact]
  dsimp only
  rw [hsummary, hcommandName, hcommandMessage, hstdout, hcaveat]
  repeat
    apply isSome_ite
    · rfl
  rfl

/-- A text is mapped without a panic and every value in it is right exactly if the lower case
keeps the tags aligned, in the text and in the text without the white space around it. -/
theorem compact_text_iff (lower : Lowercase) (text : List Char) :
    ((mapUserTextForCompact lower text).isSome ∧
      ∀ tag ∈ compactTags,
        extractTagValue lower text tag = some (expectedTagValue text tag) ∧
        extractTagValue lower (trimText text) tag =
          some (expectedTagValue (trimText text) tag)) ↔
    ∀ tag ∈ compactTags, Aligned lower text tag ∧ Aligned lower (trimText text) tag := by
  constructor
  · rintro ⟨-, hvalues⟩ tag htag
    obtain ⟨hvalue, htrimmed⟩ := hvalues tag htag
    exact ⟨(extractTagValue_iff htag).mp hvalue, (extractTagValue_iff htag).mp htrimmed⟩
  · intro haligned
    constructor
    · apply mapUserTextForCompact_isSome
      intro tag htag
      rw [(extractTagValue_iff htag).mpr (haligned tag htag).2]
      rfl
    · intro tag htag
      obtain ⟨htext, htrimmed⟩ := haligned tag htag
      exact ⟨(extractTagValue_iff htag).mpr htext, (extractTagValue_iff htag).mpr htrimmed⟩

/-- A capital sharp s is one byte longer than the small one: the text is cut within it, and
after it the value begins a byte early. -/
theorem sharp_s_moves_the_value :
    mapUserTextForCompact plainLowercase
      "<task-notification><summary>ẞ</summary>".toList = none ∧
    mapUserTextForCompact plainLowercase
      "<task-notification>ẞ<summary>done</summary>".toList =
        some (some "[Task notification] >don".toList) := by
  decide +kernel

end Search

end Memex.Transfer
