import Memex.Lib.Boundaries
import Memex.Transfer.MessageText

/-! # Abbreviated fields

`abbreviate_field` of `machine.rs`: a long field is cut to a window in which the first query term
stands. The term is looked for in the lower case of the field, whose offsets are not those of the
field. -/

namespace Memex.Machine

open Text Boundaries Transfer

/-- `char::to_lowercase` beside `str::to_lowercase`: in a text a symbol becomes as many bytes as
alone. -/
structure Casing extends Lowercase where
  alone : Char → List Char
  sameBytes : ∀ before symbol after,
    byteLength (lowerAt before symbol after) = byteLength (alone symbol)

variable (casing : Casing) (field : List Char) (limit : Nat) (terms : List (List Char))

/-- `find`: the offset at which a text first contains another. -/
def findOffset (text part : List Char) : Option Nat :=
  (text.tails.findIdx? fun rest => part.isPrefixOf rest).map fun count =>
    byteLength (text.take count)

/-- The offset of the first of the terms in the lower case of the field. -/
def firstHit : Option Nat :=
  ((terms.filter (· ≠ [])).filterMap (findOffset (toLowercase casing.toLowercase field))).min?

/-- The loop over the symbols of the field. -/
def charsBeforeFrom (lowerByte : Nat) : List Char → Nat → Nat → Nat
  | [], _, index => index
  | symbol :: rest, lowered, index =>
      if lowered ≥ lowerByte then index
      else charsBeforeFrom lowerByte rest (lowered + byteLength (casing.alone symbol)) (index + 1)

def charsBeforeLowercase (lowerByte : Nat) : Nat :=
  charsBeforeFrom casing lowerByte field 0 0

/-- `char_indices().nth`: the offset of a symbol. -/
def charOffset (text : List Char) (index : Nat) : Option Nat :=
  if index < text.length then some (byteLength (text.take index)) else none

/-- Where the window begins. -/
def startByte : Nat :=
  match (firstHit casing field terms).map (charsBeforeLowercase casing field) with
  | some charsBefore =>
      if charsBefore ≥ limit then
        let skip := charsBefore - limit / 4
        (charOffset field skip).getD 0
      else 0
  | none => 0

/-- Where the window that begins at an offset ends. -/
def keptByte (start : Nat) : Option Nat := do
  let rest ← slice field start (byteLength field)
  return ((charOffset rest limit).map fun index => start + index).getD (byteLength field)

/-- The window; of a short field it is all. -/
def keptRange : Option (Nat × Nat) :=
  if field.length ≤ limit then some (0, byteLength field)
  else (keptByte field limit (startByte casing field limit terms)).map fun kept =>
    (startByte casing field limit terms, kept)

/-- The field with marks where something was left out. -/
def abbreviateField : Option (List Char) :=
  if field.length ≤ limit then some field
  else do
    let start := startByte casing field limit terms
    let kept ← keptByte field limit start
    let part ← slice field start kept
    return (if start > 0 then ['…'] else []) ++ part ++
      (if kept < byteLength field then ['…'] else [])

/-! ## Offsets in the lower case -/

/-- The bytes of the lower case. -/
def loweredBytes (text : List Char) : Nat :=
  (text.map fun symbol => byteLength (casing.alone symbol)).sum

/-- The symbol in whose lower case an offset lies. -/
def charOf : List Char → Nat → Nat
  | [], _ => 0
  | symbol :: rest, offset =>
      if offset < byteLength (casing.alone symbol) then 0
      else charOf rest (offset - byteLength (casing.alone symbol)) + 1

/-- The offset is where the lower case of a symbol begins. -/
def StartsSymbol (offset : Nat) : Prop :=
  loweredBytes casing (field.take (charOf casing field offset)) = offset

instance (offset : Nat) : Decidable (StartsSymbol casing field offset) :=
  inferInstanceAs (Decidable (_ = _))

variable {casing field limit terms}

theorem byteLength_part (before text after : List Char) :
    byteLength (casing.part before text after) = loweredBytes casing text := by
  induction text generalizing before with
  | nil => rfl
  | cons symbol rest ih =>
      rw [Lowercase.part, byteLength_append, casing.sameBytes, ih]
      simp [loweredBytes]

theorem byteLength_toLowercase (text : List Char) :
    byteLength (toLowercase casing.toLowercase text) = loweredBytes casing text :=
  byteLength_part [] text []

theorem byteLength_alone_pos (symbol : Char) : 0 < byteLength (casing.alone symbol) := by
  rw [← casing.sameBytes [] symbol []]
  obtain ⟨first, rest, hlowered⟩ := List.exists_cons_of_ne_nil (casing.nonempty [] symbol [])
  rw [hlowered, byteLength_cons]
  exact Nat.add_pos_left first.utf8Size_pos _

/-- How many symbols the loop passes. -/
def charsPassed (casing : Casing) : List Char → Nat → Nat
  | [], _ => 0
  | symbol :: rest, offset =>
      if offset = 0 then 0
      else charsPassed casing rest (offset - byteLength (casing.alone symbol)) + 1

theorem charsBeforeFrom_eq (lowerByte : Nat) (text : List Char) (lowered index : Nat) :
    charsBeforeFrom casing lowerByte text lowered index =
      index + charsPassed casing text (lowerByte - lowered) := by
  induction text generalizing lowered index with
  | nil => rfl
  | cons symbol rest ih =>
      rw [charsBeforeFrom, charsPassed]
      by_cases hle : lowered ≥ lowerByte
      · rw [if_pos hle, if_pos (Nat.sub_eq_zero_of_le hle), Nat.add_zero]
      · have hne : lowerByte - lowered ≠ 0 := by omega
        rw [if_neg hle, if_neg hne, ih, Nat.sub_add_eq]
        omega

theorem charsPassed_zero (text : List Char) : charsPassed casing text 0 = 0 := by
  cases text <;> rfl

/-- The loop stops at the symbol of the offset, or behind it when the offset lies inside its lower
case. -/
theorem charsPassed_eq (text : List Char) (offset : Nat) (h : offset < loweredBytes casing text) :
    charsPassed casing text offset =
      charOf casing text offset + if StartsSymbol casing text offset then 0 else 1 := by
  induction text generalizing offset with
  | nil => cases h
  | cons symbol rest ih =>
      have hpositive := @byteLength_alone_pos casing symbol
      have hall : loweredBytes casing (symbol :: rest) =
          byteLength (casing.alone symbol) + loweredBytes casing rest := by
        simp [loweredBytes]
      rw [hall] at h
      by_cases hinside : offset < byteLength (casing.alone symbol)
      · have hstarts : StartsSymbol casing (symbol :: rest) offset ↔ offset = 0 := by
          rw [StartsSymbol, charOf, if_pos hinside, List.take_zero]
          exact eq_comm
        rw [charOf, if_pos hinside, charsPassed]
        by_cases hzero : offset = 0
        · rw [if_pos hzero, if_pos (hstarts.mpr hzero)]
        · rw [if_neg hzero, if_neg (mt hstarts.mp hzero),
            Nat.sub_eq_zero_of_le hinside.le, charsPassed_zero]
      · have hne : offset ≠ 0 := by omega
        have hstarts : StartsSymbol casing (symbol :: rest) offset ↔
            StartsSymbol casing rest (offset - byteLength (casing.alone symbol)) := by
          rw [StartsSymbol, StartsSymbol, charOf, if_neg hinside, List.take_succ_cons]
          simp only [loweredBytes, List.map_cons, List.sum_cons]
          omega
        rw [charOf, if_neg hinside, charsPassed, if_neg hne, ih _ (by omega),
          if_congr hstarts rfl rfl]
        omega

theorem charOf_lt (text : List Char) (offset : Nat) (h : offset < loweredBytes casing text) :
    charOf casing text offset < text.length := by
  induction text generalizing offset with
  | nil => cases h
  | cons symbol rest ih =>
      have hall : loweredBytes casing (symbol :: rest) =
          byteLength (casing.alone symbol) + loweredBytes casing rest := by
        simp [loweredBytes]
      rw [hall] at h
      rw [charOf, List.length_cons]
      split
      next => exact Nat.succ_pos _
      next hinside => exact Nat.succ_lt_succ (ih _ (by omega))

/-! ## The window -/

theorem byteLength_take_lt {text : List Char} {first last : Nat} (h : first < last)
    (hlast : last ≤ text.length) :
    byteLength (text.take first) < byteLength (text.take last) := by
  have hparts : text.take last = text.take first ++ (text.drop first).take (last - first) := by
    rw [← List.take_add, Nat.add_sub_cancel' h.le]
  obtain ⟨symbol, rest, hrest⟩ : ∃ symbol rest, (text.drop first).take (last - first) =
      symbol :: rest := by
    apply List.exists_cons_of_ne_nil
    rw [Ne, ← List.length_eq_zero_iff, List.length_take, List.length_drop]
    omega
  rw [hparts, byteLength_append, hrest, byteLength_cons]
  have hsize := symbol.utf8Size_pos
  omega

/-- Offsets of symbols are ordered as the symbols are. -/
theorem byteLength_take_lt_iff {text : List Char} {first last : Nat}
    (hfirst : first < text.length) :
    byteLength (text.take first) < byteLength (text.take last) ↔ first < last := by
  constructor
  · intro hlt
    by_contra hle
    obtain heq | hgt := eq_or_lt_of_le (not_lt.mp hle)
    · rw [heq] at hlt
      exact lt_irrefl _ hlt
    · exact lt_asymm hlt (byteLength_take_lt hgt hfirst.le)
  · intro hlt
    obtain hle | hgt := le_or_gt last text.length
    · exact byteLength_take_lt hlt hle
    · have hwhole : text.take last = text.take text.length := by
        rw [List.take_of_length_le hgt.le, List.take_length]
      rw [hwhole]
      exact byteLength_take_lt hfirst le_rfl

/-- A term is found inside the lower case. -/
theorem lt_of_mem_firstHit {offset : Nat} (h : firstHit casing field terms = some offset) :
    offset < loweredBytes casing field := by
  obtain ⟨term, hterm, hfind⟩ := List.mem_filterMap.mp (List.min?_mem h)
  have hnonempty : term ≠ [] := of_decide_eq_true (List.mem_filter.mp hterm).2
  obtain ⟨count, hcount, rfl⟩ := Option.map_eq_some_iff.mp hfind
  rw [← byteLength_toLowercase]
  generalize toLowercase casing.toLowercase field = lowered at hcount
  obtain ⟨hlt, hpart, _⟩ := List.findIdx?_eq_some_iff_getElem.mp hcount
  rw [List.getElem_tails] at hpart
  have hpart := (List.isPrefixOf_iff_prefix.mp hpart).length_le
  have hlength : count < lowered.length := by
    have hterm := List.length_pos_iff.mpr hnonempty
    rw [List.length_drop] at hpart
    omega
  calc
    byteLength (lowered.take count) < byteLength (lowered.take lowered.length) :=
      byteLength_take_lt hlength le_rfl
    _ = byteLength lowered := by rw [List.take_length]

variable (casing field limit terms) in
/-- How many symbols stand before the window. -/
def skipped : Nat :=
  match firstHit casing field terms with
  | some offset =>
      let skip := charsBeforeLowercase casing field offset - limit / 4
      if limit ≤ charsBeforeLowercase casing field offset ∧ skip < field.length then skip else 0
  | none => 0

theorem startByte_eq :
    startByte casing field limit terms =
      byteLength (field.take (skipped casing field limit terms)) := by
  unfold startByte skipped
  cases firstHit casing field terms with
  | none => rfl
  | some offset =>
      simp only [Option.map_some, charOffset]
      by_cases hbeyond : limit ≤ charsBeforeLowercase casing field offset
      · by_cases hinside :
          charsBeforeLowercase casing field offset - limit / 4 < field.length
        · rw [if_pos hbeyond, if_pos hinside, if_pos ⟨hbeyond, hinside⟩, Option.getD_some]
        · rw [if_pos hbeyond, if_neg hinside, if_neg fun h => hinside h.2]
          rfl
      · rw [if_neg hbeyond, if_neg fun h => hbeyond h.1]
        rfl

theorem skipped_lt (h : 0 < field.length) : skipped casing field limit terms < field.length := by
  unfold skipped
  split
  · dsimp only
    split
    next hskip => exact hskip.2
    next => exact h
  · exact h

/-- The part of a text between two symbols. -/
theorem slice_take (text : List Char) (first count : Nat) :
    slice text (byteLength (text.take first)) (byteLength (text.take (first + count))) =
      some ((text.drop first).take count) := by
  have htext : text = text.take first ++ ((text.drop first).take count ++
      (text.drop first).drop count) := by
    rw [List.take_append_drop, List.take_append_drop]
  have hparts := slice_parts (text.take first) ((text.drop first).take count)
    ((text.drop first).drop count)
  rw [← htext, ← List.take_add] at hparts
  exact hparts

/-- The window has as many symbols as the limit allows. -/
theorem keptByte_eq (first : Nat) :
    keptByte field limit (byteLength (field.take first)) =
      some (byteLength (field.take (first + limit))) := by
  have hrest : slice field (byteLength (field.take first)) (byteLength field) =
      some (field.drop first) := by
    have hparts := slice_parts (field.take first) (field.drop first) []
    rwa [List.append_nil, List.take_append_drop] at hparts
  rw [keptByte, hrest]
  simp only [Option.bind_eq_bind, Option.bind_some, charOffset]
  split
  next =>
    rw [Option.map_some, Option.getD_some, ← byteLength_append, ← List.take_add]
    rfl
  next hwhole =>
    have hle : field.length ≤ first + limit := by
      rw [List.length_drop] at hwhole
      omega
    rw [List.take_of_length_le hle]
    rfl

variable (casing field limit terms) in
/-- The window holds the first symbol of the first term found. -/
def HitKept (start kept : Nat) : Prop :=
  ∀ offset ∈ firstHit casing field terms,
    start ≤ byteLength (field.take (charOf casing field offset)) ∧
      byteLength (field.take (charOf casing field offset)) < kept

variable (casing field limit terms) in
/-- The first term found begins with a symbol, or the limit leaves room. -/
def HitSafe : Prop :=
  field.length ≤ limit ∨ ∀ offset ∈ firstHit casing field terms,
    StartsSymbol casing field offset ∨ 4 ≤ limit ∨ charOf casing field offset + 1 < limit

/-- What an abbreviation keeps: a part of the field between two boundaries, no longer than the
limit, with marks where something was left out. -/
structure Abbreviated (field : List Char) (limit start kept : Nat) (result : List Char) : Prop where
  part : ∃ part, slice field start kept = some part ∧ part <:+: field ∧ part.length ≤ limit ∧
    result = (if start > 0 then ['…'] else []) ++ part ++
      (if kept < byteLength field then ['…'] else [])
  start_boundary : isBoundary field start = true
  kept_boundary : isBoundary field kept = true

theorem isBoundary_take (text : List Char) (count : Nat) :
    isBoundary text (byteLength (text.take count)) = true :=
  isBoundary_iff.mpr ⟨text.take count, text.drop count, (List.take_append_drop ..).symm, rfl⟩

/-- The window of a long field. -/
theorem hitKept_iff (hlimit : 0 < limit) (hlong : limit < field.length) :
    HitKept casing field terms (byteLength (field.take (skipped casing field limit terms)))
        (byteLength (field.take (skipped casing field limit terms + limit))) ↔
      HitSafe casing field limit terms := by
  have hskipped : skipped casing field limit terms < field.length :=
    skipped_lt (hlimit.trans hlong)
  rw [HitSafe, or_iff_right (not_le.mpr hlong), HitKept]
  apply forall₂_congr
  intro offset hoffset
  have hinside := lt_of_mem_firstHit hoffset
  have hchar := charOf_lt field offset hinside
  have hpassed : charsBeforeLowercase casing field offset =
      charOf casing field offset + if StartsSymbol casing field offset then 0 else 1 := by
    rw [charsBeforeLowercase, charsBeforeFrom_eq, Nat.sub_zero, Nat.zero_add,
      charsPassed_eq field offset hinside]
  have hwindow : skipped casing field limit terms =
      if limit ≤ charsBeforeLowercase casing field offset ∧
        charsBeforeLowercase casing field offset - limit / 4 < field.length
      then charsBeforeLowercase casing field offset - limit / 4 else 0 := by
    have hsome : firstHit casing field terms = some offset := hoffset
    rw [skipped, hsome]
  rw [← not_lt, byteLength_take_lt_iff hchar, byteLength_take_lt_iff hchar, hwindow, hpassed]
  by_cases hstarts : StartsSymbol casing field offset
  · rw [if_pos hstarts, iff_true_right (Or.inl hstarts)]
    split
    next hbeyond => omega
    next hbefore => omega
  · rw [if_neg hstarts, or_iff_right hstarts]
    split
    next hbeyond => omega
    next hbefore => omega

/-- A field is cut at boundaries to a part within the limit. The part holds the place where the
first term was found, exactly when that is where a symbol begins or the limit leaves room. -/
theorem abbreviate_field_keeps (casing : Casing) (field : List Char) {limit : Nat}
    (hlimit : 0 < limit) (terms : List (List Char)) :
    ∃ start kept result, keptRange casing field limit terms = some (start, kept) ∧
      abbreviateField casing field limit terms = some result ∧
      Abbreviated field limit start kept result ∧
      (HitKept casing field terms start kept ↔ HitSafe casing field limit terms) := by
  obtain hshort | hlong := le_or_gt field.length limit
  · refine ⟨0, byteLength field, field, if_pos hshort, if_pos hshort, ⟨⟨field, ?_, ?_, hshort, ?_⟩,
      isBoundary_zero field, isBoundary_byteLength field⟩, iff_of_true ?_ (Or.inl hshort)⟩
    · have hparts := slice_parts [] field []
      rwa [List.nil_append, List.append_nil, List.nil_append] at hparts
    · exact List.infix_refl field
    · simp
    · intro offset hoffset
      have hchar := charOf_lt field offset (lt_of_mem_firstHit hoffset)
      refine ⟨Nat.zero_le _, ?_⟩
      calc
        byteLength (field.take (charOf casing field offset)) <
            byteLength (field.take field.length) := byteLength_take_lt hchar le_rfl
        _ = byteLength field := by rw [List.take_length]
  · have hnot := not_le.mpr hlong
    have hkept := @keptByte_eq field limit (skipped casing field limit terms)
    have hpart := slice_take field (skipped casing field limit terms) limit
    refine ⟨_, _, _, ?_, ?_, ⟨⟨_, hpart, ?_, List.length_take_le _ _, rfl⟩, isBoundary_take _ _,
      isBoundary_take _ _⟩, hitKept_iff hlimit hlong⟩
    · rw [keptRange, if_neg hnot, startByte_eq, hkept]
      rfl
    · rw [abbreviateField, if_neg hnot, startByte_eq]
      simp only [hkept, hpart, Option.bind_eq_bind, Option.bind_some]
      rfl
    · exact (List.take_prefix _ _).isInfix.trans (List.drop_suffix _ _).isInfix

/-- The symbols of `plainLowercase`, which do not look around. -/
def plainCasing : Casing where
  toLowercase := plainLowercase
  alone symbol := plainLowercase.lowerAt [] symbol []
  sameBytes _ _ _ := rfl

/-- A window of three symbols in which the term begins with a symbol. -/
theorem abbreviate_field_keeps_needle :
    ∃ start kept result,
      keptRange plainCasing ['İ', 'x', 'İ', 'N', 'e', 'e'] 3 [['n', 'e']] = some (start, kept) ∧
        abbreviateField plainCasing ['İ', 'x', 'İ', 'N', 'e', 'e'] 3 [['n', 'e']] = some result ∧
        Abbreviated ['İ', 'x', 'İ', 'N', 'e', 'e'] 3 start kept result ∧
        HitKept plainCasing ['İ', 'x', 'İ', 'N', 'e', 'e'] [['n', 'e']] start kept := by
  obtain ⟨start, kept, result, hrange, hresult, habbreviated, hiff⟩ :=
    abbreviate_field_keeps plainCasing ['İ', 'x', 'İ', 'N', 'e', 'e'] (Nat.succ_pos 2) [['n', 'e']]
  refine ⟨start, kept, result, hrange, hresult, habbreviated, hiff.mpr (Or.inr ?_)⟩
  intro offset hoffset
  have hhit : firstHit plainCasing ['İ', 'x', 'İ', 'N', 'e', 'e'] [['n', 'e']] = some 7 := by
    decide +kernel
  obtain rfl : 7 = offset := Option.some.inj (hhit.symm.trans hoffset)
  left
  decide +kernel

/-- A term found inside the lower case of a symbol is left out of a window of one symbol. -/
theorem abbreviate_field_loses_mark :
    firstHit plainCasing ['a', 'İ', 'b'] [['\u0307']] = some 2 ∧
      abbreviateField plainCasing ['a', 'İ', 'b'] 1 [['\u0307']] = some ['…', 'b'] ∧
      keptRange plainCasing ['a', 'İ', 'b'] 1 [['\u0307']] = some (3, 4) ∧
      ¬ HitKept plainCasing ['a', 'İ', 'b'] [['\u0307']] 3 4 := by
  have hhit : firstHit plainCasing ['a', 'İ', 'b'] [['\u0307']] = some 2 := by decide +kernel
  refine ⟨hhit, by decide +kernel, by decide +kernel, fun hkept => ?_⟩
  have hstart := (hkept 2 hhit).1
  revert hstart
  decide +kernel

end Memex.Machine
