import Mathlib.Data.List.Infix

/-! # Replacing a pattern in a text

Every occurrence of a pattern is replaced, from the left and without overlaps. What does not
contain the pattern stays as it is, and a symbol that the pattern does not contain separates
what is replaced on its left from what is replaced on its right. -/

namespace Replace

variable {α : Type*} [DecidableEq α]

/-- Replace a pattern after so many symbols that belong to an occurrence already. -/
def replaceFrom (pattern replacement : List α) : Nat → List α → List α
  | _, [] => []
  | skipped + 1, _ :: rest => replaceFrom pattern replacement skipped rest
  | 0, symbol :: rest =>
    if pattern.isPrefixOf (symbol :: rest) then
      replacement ++ replaceFrom pattern replacement (pattern.length - 1) rest
    else symbol :: replaceFrom pattern replacement 0 rest

/-- Replace every occurrence of a pattern. -/
def replaceAll (pattern replacement text : List α) : List α :=
  replaceFrom pattern replacement 0 text

/-- `str::replace`, for a pattern that is not empty. -/
def replaceString (text pattern replacement : String) : String :=
  String.ofList (replaceAll pattern.toList replacement.toList text.toList)

variable {pattern replacement text left right : List α} {symbol : α}

@[simp] theorem replaceAll_nil : replaceAll pattern replacement [] = [] := rfl

theorem replaceFrom_eq_drop (skipped : Nat) (text : List α) :
    replaceFrom pattern replacement skipped text =
      replaceAll pattern replacement (text.drop skipped) := by
  induction text generalizing skipped with
  | nil => simp [replaceFrom]
  | cons symbol rest ih =>
      cases skipped with
      | zero => rfl
      | succ skipped =>
          rw [replaceFrom, List.drop_succ_cons]
          exact ih skipped

theorem replaceAll_cons_of_not_begins (h : ¬ pattern <+: symbol :: text) :
    replaceAll pattern replacement (symbol :: text) =
      symbol :: replaceAll pattern replacement text := by
  rw [replaceAll, replaceFrom, if_neg (by rwa [List.isPrefixOf_iff_prefix])]
  rfl

/-- An occurrence at the start is replaced and what follows it is searched on. -/
theorem replaceAll_append_self (hpattern : pattern ≠ []) (text : List α) :
    replaceAll pattern replacement (pattern ++ text) =
      replacement ++ replaceAll pattern replacement text := by
  cases pattern with
  | nil => exact absurd rfl hpattern
  | cons first rest =>
      rw [List.cons_append, replaceAll, replaceFrom,
        if_pos (by rw [List.isPrefixOf_iff_prefix]; exact List.prefix_append (first :: rest) text),
        replaceFrom_eq_drop, List.length_cons, Nat.add_sub_cancel, List.drop_left]

/-- What stands before the first place where the pattern may begin stays as it is. -/
theorem replaceAll_append_of_not_begins
    (h : ∀ rest, rest <:+ left → rest ≠ [] → ¬ pattern <+: rest ++ right) :
    replaceAll pattern replacement (left ++ right) =
      left ++ replaceAll pattern replacement right := by
  induction left with
  | nil => rfl
  | cons symbol left ih =>
      have hhead := h (symbol :: left) List.suffix_rfl (List.cons_ne_nil _ _)
      rw [List.cons_append] at hhead ⊢
      rw [replaceAll_cons_of_not_begins hhead, ih]
      · rfl
      · intro rest hrest hne
        exact h rest (hrest.trans (List.suffix_cons _ _)) hne

/-- A text without the pattern stays as it is. -/
theorem replaceAll_of_not_infix (h : ¬ pattern <:+: text) :
    replaceAll pattern replacement text = text := by
  have hsplit := @replaceAll_append_of_not_begins _ _ pattern replacement text [] (by
    intro rest hrest hne hbegins
    rw [List.append_nil] at hbegins
    exact h (hbegins.isInfix.trans hrest.isInfix))
  rwa [List.append_nil, replaceAll_nil, List.append_nil] at hsplit

omit [DecidableEq α] in
/-- A pattern that begins before a symbol which it does not contain ends before it. -/
theorem prefix_append_cons_iff (hsymbol : symbol ∉ pattern) :
    pattern <+: left ++ symbol :: right ↔ pattern <+: left := by
  constructor
  · intro h
    have hlength : pattern.length ≤ left.length := by
      by_contra hlt
      apply hsymbol
      have hlt := Nat.lt_of_not_le hlt
      have hget := List.prefix_iff_getElem?.mp h _ hlt
      rw [List.getElem?_append_right le_rfl, Nat.sub_self, List.getElem?_cons_zero] at hget
      exact Option.some.inj hget ▸ List.getElem_mem hlt
    exact List.prefix_of_prefix_length_le h (List.prefix_append _ _) hlength
  · exact fun h => h.trans (List.prefix_append _ _)

/-- A symbol that the pattern does not contain separates the replacements on both sides. -/
theorem replaceAll_append_cons (hpattern : pattern ≠ []) (hsymbol : symbol ∉ pattern)
    (left right : List α) :
    replaceAll pattern replacement (left ++ symbol :: right) =
      replaceAll pattern replacement left ++
        symbol :: replaceAll pattern replacement right := by
  induction hlength : left.length using Nat.strong_induction_on generalizing left with
  | _ length ih =>
      cases left with
      | nil =>
          rw [List.nil_append, replaceAll_nil, List.nil_append,
            replaceAll_cons_of_not_begins]
          intro hbegins
          have hnil : pattern <+: [] := (prefix_append_cons_iff hsymbol).mp hbegins
          exact hpattern (List.prefix_nil.mp hnil)
      | cons first rest =>
          by_cases hbegins : pattern <+: first :: rest
          · obtain ⟨after, hafter⟩ := hbegins
            have hshort : after.length < length := by
              have hpositive := List.length_pos_iff.mpr hpattern
              rw [← hlength, ← hafter, List.length_append]
              omega
            rw [← hafter, List.append_assoc, replaceAll_append_self hpattern,
              replaceAll_append_self hpattern, ih _ hshort _ rfl, List.append_assoc]
          · have hnot : ¬ pattern <+: first :: (rest ++ symbol :: right) := by
              rw [← List.cons_append, prefix_append_cons_iff hsymbol]
              exact hbegins
            rw [List.cons_append, replaceAll_cons_of_not_begins hnot,
              replaceAll_cons_of_not_begins hbegins, ih rest.length _ rest rfl,
              List.cons_append]
            rw [← hlength, List.length_cons]
            exact Nat.lt_succ_self _

end Replace
