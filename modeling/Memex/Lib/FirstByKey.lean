import Mathlib.Data.List.Nodup
import Mathlib.Data.List.Perm.Basic

/-! # The first entry of every key

A pass keeps an entry whose key it has not seen. Which entries it keeps is known from a search for
each key, so two passes keep the same where the searches agree. -/

namespace FirstByKey

variable {α β κ : Type*} [DecidableEq κ] (key : α → κ)

/-- The entries whose keys are not among the seen ones, each key once. -/
def firsts : List κ → List α → List α
  | _, [] => []
  | seen, entry :: rest =>
      if key entry ∈ seen then firsts seen rest
      else entry :: firsts (key entry :: seen) rest

variable {key} {seen : List κ} {entries other : List α} {entry : α}

/-- What is kept is what a search for its key finds. -/
theorem mem_firsts : entry ∈ firsts key seen entries ↔
    key entry ∉ seen ∧ entries.find? (fun found => key found = key entry) = some entry := by
  induction entries generalizing seen with
  | nil => simp [firsts]
  | cons first rest ih =>
      by_cases hseen : key first ∈ seen
      · rw [firsts, if_pos hseen, ih]
        apply and_congr_right
        intro hentry
        have hne : key first ≠ key entry := fun heq => hentry (heq ▸ hseen)
        rw [List.find?_cons_of_neg (by simpa using hne)]
      · rw [firsts, if_neg hseen, List.mem_cons, ih]
        by_cases heq : key first = key entry
        · rw [List.find?_cons_of_pos (by simpa using heq), ← heq]
          constructor
          · rintro (rfl | ⟨hnot, -⟩)
            · exact ⟨hseen, rfl⟩
            · exact absurd List.mem_cons_self hnot
          · rintro ⟨-, hfound⟩
            exact Or.inl (Option.some.inj hfound).symm
        · rw [List.find?_cons_of_neg (by simpa using heq), List.mem_cons, not_or]
          constructor
          · rintro (rfl | ⟨⟨-, hnot⟩, hfound⟩)
            · exact absurd rfl heq
            · exact ⟨hnot, hfound⟩
          · rintro ⟨hnot, hfound⟩
            exact Or.inr ⟨⟨Ne.symm heq, hnot⟩, hfound⟩

theorem nodup_firsts : ((firsts key seen entries).map key).Nodup := by
  induction entries generalizing seen with
  | nil => exact List.nodup_nil
  | cons first rest ih =>
      by_cases hseen : key first ∈ seen
      · rw [firsts, if_pos hseen]
        exact ih
      · rw [firsts, if_neg hseen, List.map_cons, List.nodup_cons]
        refine ⟨?_, ih⟩
        rw [List.mem_map]
        rintro ⟨entry, hmem, heq⟩
        exact (mem_firsts.mp hmem).1 (heq ▸ List.mem_cons_self)

/-- Where the searches agree on what is read of an entry, the passes keep the same of it. -/
theorem filterMap_firsts_perm {read : α → Option β}
    (h : ∀ name, (entries.find? fun found => key found = name).map read =
      (other.find? fun found => key found = name).map read) :
    ((firsts key [] entries).filterMap read).Perm ((firsts key [] other).filterMap read) := by
  have hview : ∀ {left right : List α}, (∀ name,
      (left.find? fun found => key found = name).map read =
        (right.find? fun found => key found = name).map read) →
      ∀ pair, pair ∈ (firsts key [] left).map (fun entry => (key entry, read entry)) →
        pair ∈ (firsts key [] right).map fun entry => (key entry, read entry) := by
    intro left right hsame pair hpair
    obtain ⟨entry, hentry, rfl⟩ := List.mem_map.mp hpair
    have hfound := hsame (key entry)
    rw [(mem_firsts.mp hentry).2, Option.map_some] at hfound
    obtain ⟨twin, htwin, hread⟩ := Option.map_eq_some_iff.mp hfound.symm
    have hkey : key twin = key entry := by simpa using List.find?_some htwin
    apply List.mem_map.mpr
    refine ⟨twin, ?_, by rw [hkey, hread]⟩
    apply mem_firsts.mpr
    rw [hkey]
    exact ⟨List.not_mem_nil, htwin⟩
  have hnodup : ∀ list : List α,
      ((firsts key [] list).map fun entry => (key entry, read entry)).Nodup := by
    intro list
    apply List.Nodup.of_map Prod.fst
    rw [List.map_map]
    exact nodup_firsts
  have hperm := (List.perm_ext_iff_of_nodup (hnodup entries) (hnodup other)).mpr fun pair =>
    ⟨hview h pair, hview (fun name => (h name).symm) pair⟩
  have hread := hperm.filterMap Prod.snd
  rwa [List.filterMap_map, List.filterMap_map] at hread

/-- Two lists that differ in the order and the places of some entries only. -/
structure Shuffled (moves : α → Prop) [DecidablePred moves] (before after : List α) : Prop where
  still : (after.filter fun entry => ¬moves entry) = before.filter fun entry => ¬moves entry
  moved : (after.filter fun entry => moves entry).Perm (before.filter fun entry => moves entry)

namespace Shuffled

variable {moves : α → Prop} [DecidablePred moves] {before after : List α}

theorem perm (h : Shuffled moves before after) : after.Perm before := by
  have hsplit : ∀ list : List α, ((list.filter fun entry => moves entry) ++
      list.filter fun entry => ¬moves entry).Perm list := by
    intro list
    have hall := List.filter_append_perm (fun entry => decide (moves entry)) list
    simpa only [decide_not] using hall
  have happend := h.moved.append_right (after.filter fun entry => ¬moves entry)
  rw [h.still] at happend
  have hafter := hsplit after
  rw [h.still] at hafter
  exact hafter.symm.trans (happend.trans (hsplit before))

variable {search : α → Option β}

variable (moves) in
/-- The first hit, if it does not move, is the first hit among those that do not move. -/
private theorem exists_hit {list : List α} {hit : β} (h : list.findSome? search = some hit) :
    ∃ entry ∈ list, search entry = some hit ∧ (¬moves entry →
      (list.filter fun entry => ¬moves entry).findSome? search = some hit) := by
  obtain ⟨front, entry, back, rfl, hhit, hfront⟩ := List.findSome?_eq_some_iff.mp h
  refine ⟨entry, by simp, hhit, ?_⟩
  intro hstill
  rw [List.filter_append, List.filter_cons_of_pos (by simpa using hstill)]
  apply List.findSome?_eq_some_iff.mpr
  exact ⟨_, entry, _, rfl, hhit, fun other hother => hfront other (List.mem_of_mem_filter hother)⟩

/-- A search finds the same before and after, if what moves agrees with every other hit. -/
theorem findSome?_map_eq {γ : Type*} {read : β → γ} (h : Shuffled moves before after)
    (hagree : ∀ entry ∈ before, moves entry → ∀ other ∈ before, ∀ hit ∈ search entry,
      ∀ hit' ∈ search other, read hit = read hit') :
    (after.findSome? search).map read = (before.findSome? search).map read := by
  cases hafter : after.findSome? search with
  | none =>
      have hbefore : before.findSome? search = none := by
        rw [List.findSome?_eq_none_iff] at hafter ⊢
        exact fun entry hmem => hafter entry (h.perm.mem_iff.mpr hmem)
      rw [hbefore]
  | some hit =>
      obtain ⟨entry, hmem, hhit, hstill⟩ := exists_hit moves hafter
      have hentry := h.perm.mem_iff.mp hmem
      cases hbefore : before.findSome? search with
      | none =>
          rw [List.findSome?_eq_none_iff] at hbefore
          rw [hbefore entry hentry] at hhit
          cases hhit
      | some hit' =>
          obtain ⟨other, hother, hhit', hstill'⟩ := exists_hit moves hbefore
          rw [Option.map_some, Option.map_some, Option.some.injEq]
          by_cases hmoves : moves entry
          · exact hagree entry hentry hmoves other hother hit hhit hit' hhit'
          · by_cases hmoves' : moves other
            · exact (hagree other hother hmoves' entry hentry hit' hhit' hit hhit).symm
            · have hsame := hstill hmoves
              rw [h.still, hstill' hmoves'] at hsame
              rw [Option.some.inj hsame]

end Shuffled

end FirstByKey
