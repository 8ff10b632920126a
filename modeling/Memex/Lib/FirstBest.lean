import Mathlib.Data.List.Basic
import Mathlib.Data.List.Induction

/-! # The first best entry

Entries are compared one after the other, and of two the earlier stays unless the later one is
better. What is left is the first of those entries that none is better than. -/

namespace FirstBest

variable {α β : Type*} (wins : α → α → Bool)

/-- One more entry is held against the one that is kept. -/
def offer (kept : Option α) (entry : α) : Option α :=
  match kept with
  | none => some entry
  | some kept => if wins kept entry then some kept else some entry

/-- The entry that is left of all. -/
def champion (entries : List α) : Option α := entries.foldl (offer wins) none

/-- Every two entries can be compared, and the comparison is transitive. -/
structure Ranks : Prop where
  total : ∀ left right, wins left right = true ∨ wins right left = true
  trans : ∀ first second third, wins first second = true → wins second third = true →
    wins first third = true

variable {wins} {entries : List α} {entry winner : α}

theorem champion_nil : champion wins ([] : List α) = none := rfl

theorem champion_concat (entries : List α) (entry : α) :
    champion wins (entries ++ [entry]) = offer wins (champion wins entries) entry := by
  rw [champion, List.foldl_append]
  rfl

theorem champion_isSome (h : entries ≠ []) : (champion wins entries).isSome = true := by
  induction entries using List.reverseRecOn with
  | nil => exact absurd rfl h
  | append_singleton before entry _ =>
      rw [champion_concat, offer.eq_def]
      split
      · rfl
      · split <;> rfl

theorem champion_eq_none : champion wins entries = none ↔ entries = [] := by
  constructor
  · intro hnone
    by_contra hne
    have hsome : (champion wins entries).isSome = true := champion_isSome hne
    rw [hnone] at hsome
    cases hsome
  · rintro rfl
    rfl

theorem mem_of_champion (h : champion wins entries = some winner) : winner ∈ entries := by
  induction entries using List.reverseRecOn generalizing winner with
  | nil => cases h
  | append_singleton before entry ih =>
      rw [champion_concat, offer.eq_def] at h
      split at h
      · obtain rfl := Option.some.inj h
        exact List.mem_append_right _ (List.mem_singleton_self _)
      next kept hkept =>
        split at h
        · obtain rfl := Option.some.inj h
          exact List.mem_append_left _ (ih hkept)
        · obtain rfl := Option.some.inj h
          exact List.mem_append_right _ (List.mem_singleton_self _)

/-- The first of the entries that none is better than. -/
def IsFirstBest (wins : α → α → Bool) (entries : List α) (winner : α) : Prop :=
  ∃ before after, entries = before ++ winner :: after ∧
    (∀ entry ∈ before, wins entry winner = false) ∧
      ∀ entry ∈ after, wins winner entry = true

theorem Ranks.refl (h : Ranks wins) (entry : α) : wins entry entry = true :=
  (h.total entry entry).elim id id

/-- One more entry at the end. -/
theorem IsFirstBest.offer (h : Ranks wins) (hbest : IsFirstBest wins entries winner) :
    IsFirstBest wins (entries ++ [entry]) (if wins winner entry then winner else entry) := by
  obtain ⟨before, after, rfl, hbefore, hafter⟩ := hbest
  split
  next hwins =>
    refine ⟨before, after ++ [entry], by simp, hbefore, ?_⟩
    intro other hmem
    obtain hmem | hmem := List.mem_append.mp hmem
    · exact hafter other hmem
    · rw [List.mem_singleton.mp hmem]
      exact hwins
  next hloses =>
    refine ⟨before ++ winner :: after, [], by simp, ?_, fun _ hmem => absurd hmem List.not_mem_nil⟩
    intro other hmem
    by_contra hother
    have hother : wins other entry = true := (Bool.not_eq_false _).mp hother
    apply hloses
    obtain hmem | hmem := List.mem_append.mp hmem
    · have hback : wins winner other = true := by
        obtain hback | hback := h.total winner other
        · exact hback
        · rw [hbefore other hmem] at hback
          cases hback
      exact h.trans _ _ _ hback hother
    · obtain rfl | hmem := List.mem_cons.mp hmem
      · exact hother
      · exact h.trans _ _ _ (hafter other hmem) hother

theorem isFirstBest_champion (h : Ranks wins) (hchampion : champion wins entries = some winner) :
    IsFirstBest wins entries winner := by
  induction entries using List.reverseRecOn generalizing winner with
  | nil => cases hchampion
  | append_singleton before entry ih =>
      rw [champion_concat] at hchampion
      cases hkept : champion wins before with
      | none =>
          rw [hkept] at hchampion
          obtain rfl := Option.some.inj hchampion
          obtain rfl := champion_eq_none.mp hkept
          exact ⟨[], [], rfl, fun _ hmem => absurd hmem List.not_mem_nil,
            fun _ hmem => absurd hmem List.not_mem_nil⟩
      | some kept =>
          have hbest : IsFirstBest wins (before ++ [entry])
              (if wins kept entry then kept else entry) := (ih hkept).offer h
          rw [hkept, offer.eq_def] at hchampion
          dsimp only at hchampion
          split at hchampion
          next hwins =>
            obtain rfl := Option.some.inj hchampion
            rwa [if_pos hwins] at hbest
          next hloses =>
            obtain rfl := Option.some.inj hchampion
            rwa [if_neg hloses] at hbest

/-- No entry is better than the one that is left. -/
theorem wins_of_champion (h : Ranks wins) (hchampion : champion wins entries = some winner)
    (hmem : entry ∈ entries) : wins winner entry = true := by
  obtain ⟨before, after, rfl, hbefore, hafter⟩ := isFirstBest_champion h hchampion
  obtain hmem | hmem := List.mem_append.mp hmem
  · obtain hwins | hwins := h.total winner entry
    · exact hwins
    · rw [hbefore entry hmem] at hwins
      cases hwins
  · obtain rfl | hmem := List.mem_cons.mp hmem
    · exact h.refl entry
    · exact hafter entry hmem

/-- The champion is the first entry that is no worse than any. -/
theorem champion_eq_find? (h : Ranks wins) (entries : List α) :
    champion wins entries = entries.find? fun entry => entries.all (wins entry) := by
  cases hchampion : champion wins entries with
  | none =>
      rw [champion_eq_none.mp hchampion]
      rfl
  | some winner =>
      have hall : entries.all (wins winner) = true :=
        List.all_eq_true.mpr fun other hmem => wins_of_champion h hchampion hmem
      obtain ⟨before, after, hentries, hbefore, -⟩ := isFirstBest_champion h hchampion
      have hmem : winner ∈ entries := mem_of_champion hchampion
      symm
      rw [List.find?_eq_some_iff_append]
      refine ⟨hall, before, after, hentries, fun other hother => ?_⟩
      rw [Bool.not_eq_true', List.all_eq_false]
      exact ⟨winner, hmem, by simp [hbefore other hother]⟩

/-- Entries that are compared by what is read of them. -/
theorem champion_map (read : β → α) (entries : List β) :
    champion wins (entries.map read) =
      (champion (fun left right => wins (read left) (read right)) entries).map read := by
  induction entries using List.reverseRecOn with
  | nil => rfl
  | append_singleton before entry ih =>
      rw [List.map_append, List.map_singleton, champion_concat, champion_concat, ih]
      cases champion (fun left right => wins (read left) (read right)) before with
      | none => rfl
      | some kept =>
          simp only [offer, Option.map_some]
          split <;> rfl

end FirstBest
