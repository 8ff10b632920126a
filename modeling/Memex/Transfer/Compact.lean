import Memex.Transfer.MessageText

/-! # Compacting repeated exchanges

`compact_messages` of `transfer.rs` drops a message that repeats the one before it, and replaces
the repetitions of an exchange by a marker. Expanding the markers gives the messages back. -/

namespace Memex.Transfer

inductive ConversationRole where
  | user
  | assistant
  deriving DecidableEq

structure ConversationMessage where
  role : ConversationRole
  text : String
  timestampMs : Nat
  deriving DecidableEq

section Compacting

variable (lower : Lowercase)

/-- Two messages of one role whose normalized texts agree. -/
def sameMessage (left right : ConversationMessage) : Bool :=
  left.role = right.role &&
    normalizeText lower left.text.toList = normalizeText lower right.text.toList

/-- Messages that are equal up to the time and the normalization of their texts. -/
def Alike (left right : ConversationMessage) : Prop :=
  sameMessage lower left right = true

/-- The first loop of `compact_messages`. -/
def dropRepeats (messages : List ConversationMessage) : List ConversationMessage :=
  messages.foldl
    (fun deduped message =>
      if deduped.getLast?.any fun previous => sameMessage lower previous message then deduped
      else deduped ++ [message]) []

/-- How often an exchange is repeated at the front of what follows it. -/
def repetitions (a b : ConversationMessage) : List ConversationMessage → Nat
  | nextA :: nextB :: rest =>
      if sameMessage lower nextA a && sameMessage lower nextB b then
        repetitions a b rest + 1
      else 0
  | _ => 0

def markerText (count : Nat) : String :=
  s!"[Importer compacted repeated exchange x{count}]"

def marker (count timestampMs : Nat) : ConversationMessage where
  role := .assistant
  text := markerText count
  timestampMs

/-- The second loop; `skipped` messages have been compacted already. -/
def compactFrom : Nat → List ConversationMessage → List ConversationMessage
  | _, [] => []
  | skipped + 1, _ :: rest => compactFrom skipped rest
  | 0, a :: rest =>
      match rest with
      | [] => [a]
      | b :: tail =>
          let reps := repetitions lower a b tail + 1
          if reps ≥ 3 then
            a :: b :: marker (reps - 1) b.timestampMs :: compactFrom (reps * 2 - 1) rest
          else a :: compactFrom 0 rest

def compactMessages (messages : List ConversationMessage) : List ConversationMessage :=
  compactFrom lower 0 (dropRepeats lower messages)

end Compacting

/-! ## Expanding the markers -/

/-- The text before the count of a marker. -/
def markerStart : List Char := "[Importer compacted repeated exchange x".toList

/-- The count of a message that has the form of the importer's marker. -/
def markerCount (message : ConversationMessage) : Option Nat :=
  if message.role = .assistant ∧ markerStart.isPrefixOf message.text.toList then
    let rest := message.text.toList.drop markerStart.length
    let digits := rest.dropLast
    if rest.getLast? = some ']' ∧ digits ≠ [] ∧ digits.all Char.isDigit then
      some (Nat.ofDigitChars 10 digits 0)
    else none
  else none

/-- What is no marker. -/
def unmarked (messages : List ConversationMessage) : List ConversationMessage :=
  messages.filter fun message => (markerCount message).isNone

/-- The two messages before a marker, the last one first. -/
def exchangeOf : List ConversationMessage → List ConversationMessage
  | b :: a :: _ => [a, b]
  | _ => []

/-- Each marker stands for that many copies of the exchange it follows. -/
def expandMarkers (before : List ConversationMessage) :
    List ConversationMessage → List ConversationMessage
  | [] => []
  | message :: rest =>
      match markerCount message with
      | some count =>
          (List.replicate count (exchangeOf before)).flatten ++
            expandMarkers (message :: before) rest
      | none => message :: expandMarkers (message :: before) rest

section Lossless

variable {lower : Lowercase} {a b : ConversationMessage} {rest : List ConversationMessage}

theorem toList_markerText (count : Nat) :
    (markerText count).toList = markerStart ++ (Nat.toDigits 10 count ++ [']']) := by
  change ("[Importer compacted repeated exchange x" ++ toString count ++ "]").toList = _
  rw [String.toList_append, String.toList_append, Nat.toString_eq_ofList_toDigits,
    List.append_assoc]
  exact congrArg (fun digits => markerStart ++ (digits ++ [']'])) String.toList_ofList

/-- A marker is told by its text. -/
theorem markerCount_marker (count timestampMs : Nat) :
    markerCount (marker count timestampMs) = some count := by
  have hdigits : ((Nat.toDigits 10 count).all Char.isDigit) = true :=
    List.all_eq_true.mpr fun c h => Nat.isDigit_of_mem_toDigits (by decide) (by decide) h
  have hstart : markerStart.isPrefixOf (marker count timestampMs).text.toList = true := by
    rw [marker, toList_markerText]
    exact List.isPrefixOf_iff_prefix.mpr (List.prefix_append _ _)
  have hrest : (marker count timestampMs).text.toList.drop markerStart.length =
      Nat.toDigits 10 count ++ [']'] := by
    rw [marker, toList_markerText, List.drop_left]
  have hform : (Nat.toDigits 10 count ++ [']']).getLast? = some ']' ∧
      Nat.toDigits 10 count ≠ [] ∧ ((Nat.toDigits 10 count).all Char.isDigit) = true :=
    ⟨List.getLast?_concat, Nat.toDigits_ne_nil, hdigits⟩
  have hmarker : (marker count timestampMs).role = .assistant ∧
      markerStart.isPrefixOf (marker count timestampMs).text.toList = true := ⟨rfl, hstart⟩
  rw [markerCount, if_pos hmarker]
  dsimp only
  rw [hrest, List.dropLast_concat, if_pos hform, Nat.ofDigitChars_ten_toDigits]

theorem Alike.refl (message : ConversationMessage) : Alike lower message message := by
  simp [Alike, sameMessage]

theorem Alike.symm {left right : ConversationMessage} (h : Alike lower left right) :
    Alike lower right left := by
  simp only [Alike, sameMessage, Bool.and_eq_true, decide_eq_true_eq] at h ⊢
  exact ⟨h.1.symm, h.2.symm⟩

/-- What is skipped is what has been compacted. -/
theorem compactFrom_eq_drop (skipped : Nat) (messages : List ConversationMessage) :
    compactFrom lower skipped messages = compactFrom lower 0 (messages.drop skipped) := by
  induction messages generalizing skipped with
  | nil => simp [compactFrom]
  | cons first rest ih =>
      cases skipped with
      | zero => rfl
      | succ skipped =>
          rw [compactFrom, List.drop_succ_cons]
          exact ih skipped

/-- The repetitions of an exchange are copies of it. -/
theorem forall₂_repetitions :
    ∀ rest : List ConversationMessage,
      List.Forall₂ (Alike lower)
        (List.replicate (repetitions lower a b rest) [a, b]).flatten
        (rest.take (2 * repetitions lower a b rest))
  | [] => by
      rw [repetitions]
      · exact .nil
      · exact fun _ _ _ h => by cases h
  | [_] => by
      rw [repetitions]
      · exact .nil
      · exact fun _ _ _ h => by cases h
  | nextA :: nextB :: rest => by
      rw [repetitions]
      split
      next hsame =>
        rw [Bool.and_eq_true] at hsame
        have hrest := forall₂_repetitions rest
        rw [List.replicate_succ, List.flatten_cons, Nat.mul_add, Nat.mul_one]
        exact .cons (Alike.symm hsame.1) (.cons (Alike.symm hsame.2) hrest)
      next => exact .nil

/-- An exchange that is repeated twice or more, and the messages after its repetitions. -/
theorem compactFrom_cons_cons (a b : ConversationMessage) (tail : List ConversationMessage) :
    compactFrom lower 0 (a :: b :: tail) =
      if repetitions lower a b tail ≥ 2 then
        a :: b :: marker (repetitions lower a b tail) b.timestampMs ::
          compactFrom lower 0 (tail.drop (2 * repetitions lower a b tail))
      else a :: compactFrom lower 0 (b :: tail) := by
  rw [compactFrom]
  have hskip : (repetitions lower a b tail + 1) * 2 - 1 =
      2 * repetitions lower a b tail + 1 := by omega
  by_cases hreps : repetitions lower a b tail ≥ 2
  · rw [if_pos (show repetitions lower a b tail + 1 ≥ 3 by omega), if_pos hreps,
      Nat.add_sub_cancel, compactFrom_eq_drop, hskip, List.drop_succ_cons]
  · rw [if_neg (show ¬ repetitions lower a b tail + 1 ≥ 3 by omega), if_neg hreps]

theorem expandMarkers_of_none {message : ConversationMessage} (h : markerCount message = none)
    (before rest : List ConversationMessage) :
    expandMarkers before (message :: rest) = message :: expandMarkers (message :: before) rest := by
  rw [expandMarkers, h]

theorem expandMarkers_marker (a b : ConversationMessage) (count timestampMs : Nat)
    (before rest : List ConversationMessage) :
    expandMarkers (b :: a :: before) (marker count timestampMs :: rest) =
      (List.replicate count [a, b]).flatten ++
        expandMarkers (marker count timestampMs :: b :: a :: before) rest := by
  rw [expandMarkers, markerCount_marker]
  rfl

/-- Expanding what has been compacted, whatever stands before it. -/
theorem forall₂_expandMarkers (size : Nat) :
    ∀ {messages : List ConversationMessage}, messages.length ≤ size →
      (∀ message ∈ messages, markerCount message = none) →
      ∀ before, List.Forall₂ (Alike lower)
        (expandMarkers before (compactFrom lower 0 messages)) messages := by
  induction size with
  | zero =>
      intro messages hsize _ before
      obtain rfl := List.eq_nil_of_length_eq_zero (Nat.le_zero.mp hsize)
      exact .nil
  | succ size ih =>
      intro messages hsize hplain before
      match messages with
      | [] => exact .nil
      | [a] =>
          have ha := hplain a List.mem_cons_self
          change List.Forall₂ _ (expandMarkers before [a]) [a]
          rw [expandMarkers_of_none ha]
          exact .cons (Alike.refl a) .nil
      | a :: b :: tail =>
          have ha := hplain a List.mem_cons_self
          have hb := hplain b (List.mem_cons_of_mem _ List.mem_cons_self)
          rw [List.length_cons, List.length_cons] at hsize
          rw [compactFrom_cons_cons]
          split
          next hreps =>
            have hrest : (tail.drop (2 * repetitions lower a b tail)).length ≤ size := by
              rw [List.length_drop]
              omega
            have hplain' : ∀ message ∈ tail.drop (2 * repetitions lower a b tail),
                markerCount message = none := fun message hmem =>
              hplain message (List.mem_cons_of_mem _ (List.mem_cons_of_mem _
                (List.mem_of_mem_drop hmem)))
            rw [expandMarkers_of_none ha, expandMarkers_of_none hb, expandMarkers_marker]
            apply List.Forall₂.cons (Alike.refl a)
            apply List.Forall₂.cons (Alike.refl b)
            have hcopies := @forall₂_repetitions lower a b tail
            have hafter := ih hrest hplain' (marker (repetitions lower a b tail) b.timestampMs ::
              b :: a :: before)
            have hboth := List.rel_append hcopies hafter
            dsimp only at hboth
            rwa [List.take_append_drop] at hboth
          next =>
            rw [expandMarkers_of_none ha]
            apply List.Forall₂.cons (Alike.refl a)
            apply ih
            · rw [List.length_cons]
              omega
            · exact fun message hmem => hplain message (List.mem_cons_of_mem _ hmem)

theorem unmarked_exchange (a b : ConversationMessage) (count timestampMs : Nat)
    (rest : List ConversationMessage) :
    unmarked (a :: b :: marker count timestampMs :: rest) = unmarked [a, b] ++ unmarked rest := by
  have hmarker : ¬ (markerCount (marker count timestampMs)).isNone = true := by
    rw [markerCount_marker]
    exact Bool.false_ne_true
  have hparts : unmarked (a :: b :: marker count timestampMs :: rest) =
      unmarked [a, b] ++ unmarked (marker count timestampMs :: rest) :=
    List.filter_append [a, b] _
  rw [hparts]
  exact congrArg (unmarked [a, b] ++ ·) (List.filter_cons_of_neg hmarker)

/-- The messages that are kept stand in their order, as they were. -/
theorem filter_compactFrom_sublist (size : Nat) :
    ∀ {messages : List ConversationMessage}, messages.length ≤ size →
      (unmarked (compactFrom lower 0 messages)).Sublist messages := by
  induction size with
  | zero =>
      intro messages hsize
      obtain rfl := List.eq_nil_of_length_eq_zero (Nat.le_zero.mp hsize)
      exact List.Sublist.refl _
  | succ size ih =>
      intro messages hsize
      match messages with
      | [] => exact List.Sublist.refl _
      | [a] => exact List.filter_sublist
      | a :: b :: tail =>
          rw [List.length_cons, List.length_cons] at hsize
          rw [compactFrom_cons_cons]
          split
          next hreps =>
            have hrest : (tail.drop (2 * repetitions lower a b tail)).length ≤ size := by
              rw [List.length_drop]
              omega
            have htail := (ih hrest).trans (List.drop_sublist _ _)
            rw [unmarked_exchange]
            exact List.filter_sublist.append htail
          next =>
            have hb : (b :: tail).length ≤ size := by
              rw [List.length_cons]
              omega
            have hparts : unmarked (a :: compactFrom lower 0 (b :: tail)) =
                unmarked [a] ++ unmarked (compactFrom lower 0 (b :: tail)) :=
              List.filter_append [a] _
            rw [hparts]
            exact List.filter_sublist.append (ih hb)

theorem dropRepeats_subset {messages : List ConversationMessage} {message : ConversationMessage}
    (hmem : message ∈ dropRepeats lower messages) : message ∈ messages := by
  have hfold : ∀ deduped : List ConversationMessage,
      message ∈ messages.foldl
        (fun deduped message =>
          if deduped.getLast?.any fun previous => sameMessage lower previous message then deduped
          else deduped ++ [message]) deduped →
      message ∈ deduped ∨ message ∈ messages := by
    clear hmem
    induction messages with
    | nil => exact fun _ h => .inl h
    | cons first rest ih =>
        intro deduped hmem
        rw [List.foldl_cons] at hmem
        obtain hdeduped | hrest := ih _ hmem
        · split at hdeduped
          · exact .inl hdeduped
          · obtain hdeduped | hfirst := List.mem_append.mp hdeduped
            · exact .inl hdeduped
            · exact .inr (List.mem_cons.mpr (.inl (List.mem_singleton.mp hfirst)))
        · exact .inr (List.mem_cons_of_mem _ hrest)
  exact (hfold [] hmem).resolve_left List.not_mem_nil

/-- Expanding the markers gives the messages without consecutive repeats, up to the times and the
normalization of texts, and what stands between the markers is kept as it was. -/
theorem compact_messages_lossless (lower : Lowercase) (messages : List ConversationMessage)
    (hplain : ∀ message ∈ messages, markerCount message = none) :
    List.Forall₂ (Alike lower) (expandMarkers [] (compactMessages lower messages))
        (dropRepeats lower messages) ∧
      (unmarked (compactMessages lower messages)).Sublist (dropRepeats lower messages) := by
  constructor
  · apply forall₂_expandMarkers _ (Nat.le_refl _)
    exact fun message hmem => hplain message (dropRepeats_subset hmem)
  · exact filter_compactFrom_sublist _ (Nat.le_refl _)

/-- An exchange that is had three times, with the normalization of ASCII letters. -/
def againMessages : List ConversationMessage :=
  [⟨.user, "again", 1⟩, ⟨.assistant, "ok", 2⟩, ⟨.user, "Again ", 3⟩, ⟨.assistant, "ok", 4⟩,
    ⟨.user, "again", 5⟩, ⟨.assistant, "OK", 6⟩]

theorem compact_messages_lossless_again :
    List.Forall₂ (Alike plainLowercase)
        (expandMarkers [] (compactMessages plainLowercase againMessages))
        (dropRepeats plainLowercase againMessages) ∧
      (unmarked (compactMessages plainLowercase againMessages)).Sublist
        (dropRepeats plainLowercase againMessages) :=
  compact_messages_lossless plainLowercase againMessages (by decide +kernel)

example : (compactMessages plainLowercase againMessages).map (·.text) =
    ["again", "ok", "[Importer compacted repeated exchange x2]"] := by
  decide +kernel

end Lossless

end Memex.Transfer
