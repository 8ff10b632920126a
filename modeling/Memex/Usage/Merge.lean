import Memex.Lib.KWayMerge
import Memex.Usage.Compact
import Mathlib.Data.List.Lex

/-! # Merging the partitions

`usage/merge.rs`: the sorted events of several sources are merged into one order. Of equal events
the one of the earlier partition comes first. -/

namespace Memex.Usage

open KWayMerge

/-- Position in a merged multi-partition order: which partition and which index. -/
structure MergedPos where
  part : UInt32
  index : UInt32
  deriving DecidableEq

/-- A partition that is not exhausted, and the place of its next event. -/
abbrev Head := Nat × Nat

/-- `part as u32` and `index as u32`. -/
def MergedPos.ofHead (head : Head) : MergedPos :=
  ⟨.ofNat head.1, .ofNat head.2⟩

/-- Timestamp, source path and source order. -/
abbrev SortKey := Nat ×ₗ String ×ₗ Nat

section Loop

variable {κ : Type} [LinearOrder κ] (key : Nat → Nat → Option κ) (length : Nat → Option Nat)

/-- What two heads are compared by: the key, then the partition, then the index. -/
abbrev Placed (κ : Type) := κ ×ₗ ℕ ×ₗ ℕ

def entryAt (head : Head) : Option (Placed κ) :=
  (key head.1 head.2).map fun headKey => toLex (headKey, toLex head)

/-- The better of the best head so far and a candidate. -/
def scanHead (heads : List Head) (best candidate : Nat) : Option Nat := do
  let entry ← heads[candidate]? >>= entryAt key
  let bestEntry ← heads[best]? >>= entryAt key
  return if entry < bestEntry then candidate else best

def bestHead (heads : List Head) : Option Nat :=
  (List.range' 1 (heads.length - 1)).foldlM (scanHead key heads) 0

/-- The best head is taken, and moves on or is removed. -/
def mergeStep (heads : List Head) : Option (Head × List Head) := do
  let best ← bestHead key heads
  let head ← heads[best]?
  let runLength ← length head.1
  return (head,
    if head.2 + 1 < runLength then heads.set best (head.1, head.2 + 1)
    else swapRemove heads best)

/-- The loop, for at most so many steps. -/
def mergeLoop : Nat → List Head → Option (List MergedPos)
  | _, [] => some []
  | 0, _ :: _ => none
  | fuel + 1, head :: others => do
      let (taken, heads) ← mergeStep key length (head :: others)
      let order ← mergeLoop fuel heads
      return MergedPos.ofHead taken :: order

/-- The partitions that are not empty, at their first events. -/
def startHeads (parts : Nat) : List Head :=
  ((List.range parts).filter fun part => (length part).any (0 < ·)).map fun part => (part, 0)

/-- Every step takes one event. -/
def mergeOrder (parts : Nat) : Option (List MergedPos) :=
  mergeLoop key length ((List.range parts).map fun part => (length part).getD 0).sum
    (startHeads length parts)

end Loop

/-- `merge_runs`. -/
def mergeRuns {T κ : Type} [LinearOrder κ] (runs : List (List T)) (key : T → κ) :
    Option (List MergedPos) :=
  mergeOrder (fun part index => (runs[part]? >>= fun run => run[index]?).map key)
    (fun part => runs[part]?.map List.length) runs.length

/-- Global sort key. -/
def CompactUsageAssembly.sortKey (assembly : CompactUsageAssembly) (index : Nat) :
    Option SortKey := do
  let event ← assembly.events[index]?
  let path ← assembly.textOf event.sourcePath
  return toLex (event.timestampMs, toLex (path, event.sourceOrder))

/-- `build_merged_order`. -/
def buildMergedOrder (parts : List CompactUsageAssembly) : Option (List MergedPos) :=
  mergeOrder (fun part index => parts[part]? >>= fun assembly => assembly.sortKey index)
    (fun part => parts[part]?.map fun assembly => assembly.events.length) parts.length

/-! ## The runs behind the heads -/

section Runs

variable {T κ : Type} (runs : List (List T)) (key : T → κ)

/-- The key of an event in a run. -/
def keyIn (part index : Nat) : Option κ :=
  (runs[part]? >>= fun run => run[index]?).map key

def lengthIn (part : Nat) : Option Nat :=
  runs[part]?.map List.length

/-- The entry of an event. -/
def placedEntry (place : Head) (event : T) : Placed κ :=
  toLex (key event, toLex place)

/-- What a head still has to give. -/
def remaining (head : Head) : List (Placed κ) :=
  ((runs[head.1]?.getD []).zipIdx.drop head.2).map fun event =>
    placedEntry key (head.1, event.2) event.1

variable {runs key}

theorem remaining_of_lt {part index : Nat} {run : List T} (hrun : runs[part]? = some run)
    (hindex : index < run.length) :
    remaining runs key (part, index) =
      placedEntry key (part, index) run[index] :: remaining runs key (part, index + 1) := by
  have hzip : index < run.zipIdx.length := by rwa [List.length_zipIdx]
  simp only [remaining, hrun, Option.getD_some]
  rw [List.drop_eq_getElem_cons hzip, List.map_cons, List.getElem_zipIdx]
  simp

theorem remaining_of_le {part index : Nat} {run : List T} (hrun : runs[part]? = some run)
    (hindex : run.length ≤ index) : remaining runs key (part, index) = [] := by
  simp [remaining, hrun, hindex]

/-- Heads are compared by the first of what they have to give. -/
theorem entryAt_eq (head : Head) :
    entryAt (keyIn runs key) head = (remaining runs key head).head? := by
  obtain ⟨part, index⟩ := head
  cases hrun : runs[part]? with
  | none => simp [entryAt, keyIn, remaining, hrun]
  | some run =>
      obtain hlt | hle := lt_or_ge index run.length
      · rw [remaining_of_lt hrun hlt]
        simp [entryAt, keyIn, hrun, hlt, placedEntry]
      · rw [remaining_of_le hrun hle]
        simp [entryAt, keyIn, hrun, hle]

/-- A head that has an event to give. -/
def Goes (runs : List (List T)) (head : Head) : Prop :=
  ∃ run, runs[head.1]? = some run ∧ head.2 < run.length

variable (key) in
/-- The entry of a head that goes on. -/
theorem Goes.exists_entry {head : Head} (h : Goes runs head) :
    ∃ entry, entryAt (keyIn runs key) head = some entry ∧
      remaining runs key head = entry :: remaining runs key (head.1, head.2 + 1) := by
  obtain ⟨part, index⟩ := head
  obtain ⟨run, hrun, hlt⟩ := h
  refine ⟨_, ?_, remaining_of_lt hrun hlt⟩
  rw [entryAt_eq, remaining_of_lt hrun hlt, List.head?_cons]

variable [LinearOrder κ]

/-- The head before which none of the given ones comes. -/
def Leads (key : T → κ) (runs : List (List T)) (heads : List Head) (best : Nat)
    (candidates : List Nat) : Prop :=
  ∃ head entry, heads[best]? = some head ∧ entryAt (keyIn runs key) head = some entry ∧
    ∀ candidate ∈ candidates, ∀ other ∈ heads[candidate]?, ∀ otherEntry ∈
      entryAt (keyIn runs key) other, entry ≤ otherEntry

/-- One comparison. -/
theorem scanHead_leads {heads : List Head} (hgoes : ∀ head ∈ heads, Goes runs head)
    {best candidate : Nat} {candidates : List Nat} (h : Leads key runs heads best candidates)
    (hcandidate : candidate < heads.length) :
    ∃ next, scanHead (keyIn runs key) heads best candidate = some next ∧
      Leads key runs heads next (candidates ++ [candidate]) := by
  obtain ⟨head, entry, hhead, hentry, hleast⟩ := h
  obtain ⟨other, hother⟩ : ∃ other, heads[candidate]? = some other :=
    ⟨_, List.getElem?_eq_getElem hcandidate⟩
  obtain ⟨otherEntry, hotherEntry, _⟩ :=
    (hgoes other (List.mem_of_getElem? hother)).exists_entry key
  have hscan : scanHead (keyIn runs key) heads best candidate =
      some (if otherEntry < entry then candidate else best) := by
    simp [scanHead, hhead, hentry, hother, hotherEntry]
  refine ⟨_, hscan, ?_⟩
  by_cases hlt : otherEntry < entry
  · rw [if_pos hlt]
    refine ⟨other, otherEntry, hother, hotherEntry, ?_⟩
    intro place hplace third hthird thirdEntry hthirdEntry
    cases List.mem_append.mp hplace with
    | inl hplace => exact hlt.le.trans (hleast place hplace third hthird thirdEntry hthirdEntry)
    | inr hplace =>
        obtain rfl := List.mem_singleton.mp hplace
        obtain rfl : other = third := Option.some.inj (hother.symm.trans hthird)
        exact (Option.some.inj (hotherEntry.symm.trans hthirdEntry)).le
  · rw [if_neg hlt]
    refine ⟨head, entry, hhead, hentry, ?_⟩
    intro place hplace third hthird thirdEntry hthirdEntry
    cases List.mem_append.mp hplace with
    | inl hplace => exact hleast place hplace third hthird thirdEntry hthirdEntry
    | inr hplace =>
        obtain rfl := List.mem_singleton.mp hplace
        obtain rfl : other = third := Option.some.inj (hother.symm.trans hthird)
        obtain rfl : otherEntry = thirdEntry :=
          Option.some.inj (hotherEntry.symm.trans hthirdEntry)
        exact not_lt.mp hlt

theorem foldlM_scanHead_leads {heads : List Head} (hgoes : ∀ head ∈ heads, Goes runs head)
    (more : List Nat) (hmore : ∀ candidate ∈ more, candidate < heads.length) :
    ∀ {best : Nat} {candidates : List Nat}, Leads key runs heads best candidates →
      ∃ last, more.foldlM (scanHead (keyIn runs key) heads) best = some last ∧
        Leads key runs heads last (candidates ++ more) := by
  induction more with
  | nil =>
      intro best candidates h
      rw [List.append_nil]
      exact ⟨best, rfl, h⟩
  | cons candidate rest ih =>
      intro best candidates h
      obtain ⟨next, hnext, hleads⟩ := scanHead_leads hgoes h (hmore candidate List.mem_cons_self)
      obtain ⟨last, hlast, hleads⟩ :=
        ih (fun other hother => hmore other (List.mem_cons_of_mem _ hother)) hleads
      rw [List.append_assoc] at hleads
      refine ⟨last, ?_, hleads⟩
      rw [List.foldlM_cons, hnext]
      exact hlast

variable (key) in
/-- The best head is one before which no other comes. -/
theorem bestHead_leads {heads : List Head} (hgoes : ∀ head ∈ heads, Goes runs head)
    (hnonempty : heads ≠ []) :
    ∃ best, bestHead (keyIn runs key) heads = some best ∧
      Leads key runs heads best (List.range heads.length) := by
  obtain ⟨first, rest, rfl⟩ := List.exists_cons_of_ne_nil hnonempty
  obtain ⟨entry, hentry, _⟩ := (hgoes first List.mem_cons_self).exists_entry key
  have hstart : Leads key runs (first :: rest) 0 [0] := by
    refine ⟨first, entry, rfl, hentry, ?_⟩
    intro place hplace other hother otherEntry hotherEntry
    obtain rfl := List.mem_singleton.mp hplace
    obtain rfl : first = other := Option.some.inj hother
    exact (Option.some.inj (hentry.symm.trans hotherEntry)).le
  obtain ⟨last, hlast, hleads⟩ := foldlM_scanHead_leads hgoes (List.range' 1 rest.length)
    (fun candidate hcandidate => by
      have hrange := List.mem_range'_1.mp hcandidate
      rw [List.length_cons]
      omega) hstart
  refine ⟨last, hlast, ?_⟩
  have hrange : List.range (first :: rest).length = [0] ++ List.range' 1 rest.length := by
    rw [List.length_cons, List.range_eq_range', Nat.add_comm, ← List.range'_append_1]
    rfl
  rwa [hrange]

variable (key) in
/-- One step takes an entry no later than any other, from the runs that are left. -/
theorem mergeStep_takes {heads : List Head} (hgoes : ∀ head ∈ heads, Goes runs head)
    (hnonempty : heads ≠ []) :
    ∃ head entry next others,
      mergeStep (keyIn runs key) (lengthIn runs) heads = some (head, next) ∧
      entryAt (keyIn runs key) head = some entry ∧
      heads.Perm (head :: others) ∧
      (∀ other ∈ others, ∀ otherEntry ∈ (remaining runs key other).head?, entry ≤ otherEntry) ∧
      (Goes runs (head.1, head.2 + 1) ∧ next.Perm ((head.1, head.2 + 1) :: others) ∨
        remaining runs key (head.1, head.2 + 1) = [] ∧ next.Perm others) := by
  obtain ⟨best, hbest, head, entry, hhead, hentry, hleast⟩ :=
    bestHead_leads key hgoes hnonempty
  obtain ⟨hplace, hvalue⟩ := List.getElem?_eq_some_iff.mp hhead
  obtain ⟨run, hrun, hlt⟩ := hgoes head (List.mem_of_getElem? hhead)
  have hlength : lengthIn runs head.1 = some run.length := by
    rw [lengthIn, hrun, Option.map_some]
  have hothers : heads.Perm (head :: heads.eraseIdx best) := by
    rw [← hvalue]
    exact (List.getElem_cons_eraseIdx_perm hplace).symm
  have hstep : mergeStep (keyIn runs key) (lengthIn runs) heads = some (head,
      if head.2 + 1 < run.length then heads.set best (head.1, head.2 + 1)
      else swapRemove heads best) := by
    simp only [mergeStep, hbest, hhead, hlength, Option.bind_eq_bind, Option.bind_some]
    rfl
  refine ⟨head, entry, _, heads.eraseIdx best, hstep, hentry, hothers, ?_, ?_⟩
  · intro other hother otherEntry hotherEntry
    have hmem := List.mem_of_mem_eraseIdx hother
    obtain ⟨place, hplace⟩ := List.mem_iff_getElem?.mp hmem
    have hrange : place ∈ List.range heads.length :=
      List.mem_range.mpr (List.getElem?_eq_some_iff.mp hplace).1
    rw [← entryAt_eq] at hotherEntry
    exact hleast place hrange other hplace otherEntry hotherEntry
  · split
    next hmore => exact Or.inl ⟨⟨run, hrun, hmore⟩, List.set_perm_cons_eraseIdx hplace _⟩
    next hlast => exact Or.inr ⟨remaining_of_le hrun (not_lt.mp hlast), swapRemove_perm hplace⟩

/-- What the heads still have to give. -/
def remainingRuns (key : T → κ) (runs : List (List T)) (heads : List Head) :
    List (List (Placed κ)) :=
  heads.map (remaining runs key)

/-- The position of an entry. -/
def posOf (entry : Placed κ) : MergedPos :=
  .ofHead (ofLex (ofLex entry).2)

omit [LinearOrder κ] in
theorem posOf_of_entryAt {head : Head} {entry : Placed κ}
    (h : entryAt (keyIn runs key) head = some entry) : posOf entry = .ofHead head := by
  obtain ⟨headKey, _, rfl⟩ := Option.map_eq_some_iff.mp h
  rfl

variable (key) in
/-- The loop merges what the heads have to give. -/
theorem mergeLoop_merges (fuel : Nat) {heads : List Head}
    (hgoes : ∀ head ∈ heads, Goes runs head)
    (hfuel : (remainingRuns key runs heads).flatten.length ≤ fuel) :
    ∃ entries, mergeLoop (keyIn runs key) (lengthIn runs) fuel heads = some (entries.map posOf) ∧
      Merges (remainingRuns key runs heads) entries := by
  induction fuel generalizing heads with
  | zero =>
      cases heads with
      | nil => exact ⟨[], rfl, .done⟩
      | cons head others =>
          obtain ⟨entry, _, hremaining⟩ :=
            (hgoes head List.mem_cons_self).exists_entry key
          simp [remainingRuns, hremaining] at hfuel
  | succ fuel ih =>
      cases heads with
      | nil => exact ⟨[], rfl, .done⟩
      | cons first rest =>
          obtain ⟨head, entry, next, others, hstep, hentry, hperm, hleast, hnext⟩ :=
            mergeStep_takes key hgoes (List.cons_ne_nil first rest)
          have hhead := hgoes head (hperm.mem_iff.mpr List.mem_cons_self)
          have hothers : ∀ other ∈ others, Goes runs other := fun other hother =>
            hgoes other (hperm.mem_iff.mpr (List.mem_cons_of_mem _ hother))
          obtain ⟨entry', hentry', hremaining⟩ := hhead.exists_entry key
          obtain rfl : entry = entry' := Option.some.inj (hentry.symm.trans hentry')
          have hruns : (remainingRuns key runs (first :: rest)).Perm
              ((entry :: remaining runs key (head.1, head.2 + 1)) ::
                remainingRuns key runs others) := by
            rw [← hremaining]
            exact hperm.map _
          have hheads : ∀ run ∈ remainingRuns key runs others, ∀ other ∈ run.head?,
              entry ≤ other := by
            intro run hrun
            obtain ⟨other, hother, rfl⟩ := List.mem_map.mp hrun
            exact hleast other hother
          have hlength := hruns.flatten.length_eq
          rw [List.flatten_cons, List.cons_append, List.length_cons] at hlength
          have htaken : ∀ entries, mergeLoop (keyIn runs key) (lengthIn runs) fuel next =
              some (entries.map posOf) →
              mergeLoop (keyIn runs key) (lengthIn runs) (fuel + 1) (first :: rest) =
                some ((entry :: entries).map posOf) := by
            intro entries hloop
            simp [mergeLoop, hstep, hloop, posOf_of_entryAt hentry]
          obtain ⟨hgoesOn, hnextPerm⟩ | ⟨hdone, hnextPerm⟩ := hnext
          · have hrest : (remainingRuns key runs next).Perm
                (remaining runs key (head.1, head.2 + 1) :: remainingRuns key runs others) :=
              hnextPerm.map _
            have hall : ∀ other ∈ next, Goes runs other := by
              intro other hother
              cases List.mem_cons.mp (hnextPerm.mem_iff.mp hother) with
              | inl h => exact h ▸ hgoesOn
              | inr h => exact hothers other h
            obtain ⟨entries, hloop, hmerges⟩ := ih hall (by
              rw [hrest.flatten.length_eq, List.flatten_cons]
              omega)
            exact ⟨entry :: entries, htaken entries hloop, .advance hruns hheads hrest hmerges⟩
          · have hrest : (remainingRuns key runs next).Perm (remainingRuns key runs others) :=
              hnextPerm.map _
            have hall : ∀ other ∈ next, Goes runs other := fun other hother =>
              hothers other (hnextPerm.mem_iff.mp hother)
            rw [hdone] at hruns hlength
            obtain ⟨entries, hloop, hmerges⟩ := ih hall (by
              rw [hrest.flatten.length_eq]
              rw [List.nil_append] at hlength
              omega)
            exact ⟨entry :: entries, htaken entries hloop, .finish hruns hheads hrest hmerges⟩

/-! ## The merged order -/

/-- The events of all runs one after the other, with their places. -/
def placedRuns (runs : List (List T)) : List (T × Head) :=
  (List.range runs.length).flatMap fun part =>
    (runs[part]?.getD []).zipIdx.map fun event => (event.1, (part, event.2))

/-- The events in stable order of their keys, with their places. -/
def stableOrder (runs : List (List T)) (key : T → κ) : List (T × Head) :=
  (placedRuns runs).insertionSort fun left right => key left.1 ≤ key right.1

omit [LinearOrder κ] in
theorem map_placedRuns (runs : List (List T)) (key : T → κ) :
    (placedRuns runs).map (fun event => placedEntry key event.2 event.1) =
      (List.range runs.length).flatMap fun part => remaining runs key (part, 0) := by
  rw [placedRuns, List.map_flatMap]
  congr 1
  ext1 part
  rw [List.map_map]
  rfl

omit [LinearOrder κ] in
/-- The first heads have all events to give. -/
theorem flatten_startHeads (runs : List (List T)) (key : T → κ) :
    (remainingRuns key runs (startHeads (lengthIn runs) runs.length)).flatten =
      (placedRuns runs).map fun event => placedEntry key event.2 event.1 := by
  rw [map_placedRuns, remainingRuns, startHeads, List.map_map, ← List.flatMap_def]
  generalize List.range runs.length = parts
  induction parts with
  | nil => rfl
  | cons part rest ih =>
      rw [List.filter_cons, List.flatMap_cons, ← ih]
      split
      next => rfl
      next hempty =>
        have hnone : remaining runs key (part, 0) = [] := by
          cases hrun : runs[part]? with
          | none => simp [remaining, hrun]
          | some run =>
              apply remaining_of_le hrun
              simpa [lengthIn, hrun] using hempty
        rw [hnone, List.nil_append]

omit [LinearOrder κ] in
/-- There is a step for each event. -/
theorem length_flatten_startHeads (runs : List (List T)) (key : T → κ) :
    (remainingRuns key runs (startHeads (lengthIn runs) runs.length)).flatten.length =
      ((List.range runs.length).map fun part => (lengthIn runs part).getD 0).sum := by
  rw [flatten_startHeads, map_placedRuns, List.length_flatMap]
  congr 1
  apply List.map_congr_left
  intro part _
  cases hrun : runs[part]? with
  | none => simp [remaining, lengthIn, hrun]
  | some run => simp [remaining, lengthIn, hrun]

omit [LinearOrder κ] in
theorem goes_startHeads (runs : List (List T)) :
    ∀ head ∈ startHeads (lengthIn runs) runs.length, Goes runs head := by
  intro head hhead
  obtain ⟨part, hpart, rfl⟩ := List.mem_map.mp hhead
  obtain ⟨_, hlength⟩ := List.mem_filter.mp hpart
  cases hrun : runs[part]? with
  | none => simp [lengthIn, hrun] at hlength
  | some run => exact ⟨run, hrun, by simpa [lengthIn, hrun] using hlength⟩

/-- A sorted run gives its events in order. -/
theorem pairwise_remaining {part : Nat} {run : List T} (hrun : runs[part]? = some run)
    (hsorted : run.Pairwise fun left right => key left ≤ key right) :
    (remaining runs key (part, 0)).Pairwise (· ≤ ·) := by
  simp only [remaining, hrun, Option.getD_some, List.drop_zero]
  apply List.pairwise_map.mpr
  apply List.pairwise_iff_getElem.mpr
  intro first second hfirst hsecond hlt
  rw [List.length_zipIdx] at hfirst hsecond
  have hkeys := List.pairwise_iff_getElem.mp hsorted first second hfirst hsecond hlt
  simp only [List.getElem_zipIdx, Nat.zero_add]
  apply le_of_keyLE
  · exact hkeys
  · exact Prod.Lex.le_iff.mpr (Or.inr ⟨rfl, hlt.le⟩)

omit [LinearOrder κ] in
theorem mem_placedRuns {part index : Nat} {event : T} :
    (event, (part, index)) ∈ placedRuns runs ↔
      ∃ run, runs[part]? = some run ∧ run[index]? = some event := by
  rw [placedRuns, List.mem_flatMap]
  constructor
  · rintro ⟨other, hother, hmem⟩
    obtain ⟨⟨found, place⟩, hfound, heq⟩ := List.mem_map.mp hmem
    cases heq
    have hrun := List.getElem?_eq_getElem (List.mem_range.mp hother)
    rw [hrun, Option.getD_some] at hfound
    exact ⟨_, hrun, List.mem_zipIdx_iff_getElem?.mp hfound⟩
  · rintro ⟨run, hrun, hevent⟩
    refine ⟨part, List.mem_range.mpr (List.getElem?_eq_some_iff.mp hrun).1, ?_⟩
    rw [hrun, Option.getD_some]
    exact List.mem_map.mpr ⟨(event, index), List.mem_zipIdx_iff_getElem?.mpr hevent, rfl⟩

omit [LinearOrder κ] in
/-- The places ascend. -/
theorem pairwise_placedRuns (runs : List (List T)) :
    (placedRuns runs).Pairwise fun left right => toLex left.2 < toLex right.2 := by
  apply List.pairwise_flatMap.mpr
  constructor
  · intro part _
    apply List.pairwise_map.mpr
    apply List.pairwise_iff_getElem.mpr
    intro first second hfirst hsecond hlt
    simp only [List.getElem_zipIdx, Nat.zero_add]
    exact Prod.Lex.lt_iff.mpr (Or.inr ⟨rfl, hlt⟩)
  · apply List.pairwise_lt_range.imp
    intro part other hlt left hleft right hright
    obtain ⟨_, _, rfl⟩ := List.mem_map.mp hleft
    obtain ⟨_, _, rfl⟩ := List.mem_map.mp hright
    exact Prod.Lex.lt_iff.mpr (Or.inl hlt)

omit [LinearOrder κ] in
theorem map_fst_placedRuns (runs : List (List T)) :
    (placedRuns runs).map Prod.fst = runs.flatten := by
  have hruns : (List.range runs.length).map (fun part => runs[part]?.getD []) = runs := by
    apply List.ext_getElem
    · rw [List.length_map, List.length_range]
    · intro part hpart hpart'
      rw [List.getElem_map, List.getElem_range, List.getElem?_eq_getElem hpart',
        Option.getD_some]
  rw [placedRuns, List.map_flatMap, List.flatMap_def]
  conv_rhs => rw [← hruns]
  congr 1
  apply List.map_congr_left
  intro part _
  rw [List.map_map]
  exact List.zipIdx_map_fst _ _

/-- The positions of a merge are the places of the stable order, as 32-bit numbers. -/
theorem mergeRuns_eq (hsorted : ∀ run ∈ runs, run.Pairwise fun left right =>
    key left ≤ key right) :
    mergeRuns runs key = some ((stableOrder runs key).map fun event => .ofHead event.2) := by
  obtain ⟨entries, hloop, hmerges⟩ := mergeLoop_merges key _ (goes_startHeads runs)
    (length_flatten_startHeads runs key).le
  have hruns : ∀ run ∈ remainingRuns key runs (startHeads (lengthIn runs) runs.length),
      run.Pairwise (· ≤ ·) := by
    intro run hrun
    obtain ⟨head, hhead, rfl⟩ := List.mem_map.mp hrun
    obtain ⟨part, _, rfl⟩ := List.mem_map.mp hhead
    obtain ⟨events, hevents, _⟩ := goes_startHeads runs _ hhead
    exact pairwise_remaining hevents (hsorted events (List.mem_of_getElem? hevents))
  have hentries : entries =
      (stableOrder runs key).map fun event => placedEntry key event.2 event.1 := by
    have hstable : (stableOrder runs key).map (fun event => placedEntry key event.2 event.1) =
        ((placedRuns runs).map fun event => placedEntry key event.2 event.1).insertionSort
          KeyLE := by
      apply List.map_insertionSort
      exact fun _ _ _ _ => Iff.rfl
    rw [hstable]
    apply hmerges.eq_of_sorted hruns
    · rw [flatten_startHeads]
      exact List.perm_insertionSort _ _
    · apply pairwise_insertionSort
      exact List.pairwise_map.mpr ((pairwise_placedRuns runs).imp le_of_lt)
  have horder : mergeRuns runs key = some (entries.map posOf) := hloop
  rw [horder, hentries, List.map_map]
  rfl

end Runs

/-! ## Both merges -/

/-- The place of a position. -/
def MergedPos.toHead (pos : MergedPos) : Head :=
  (pos.part.toNat, pos.index.toNat)

theorem MergedPos.toHead_ofHead {head : Head} (hpart : head.1 < 2 ^ 32) (hindex : head.2 < 2 ^ 32) :
    (MergedPos.ofHead head).toHead = head := by
  rw [toHead, ofHead, UInt32.toNat_ofNat', UInt32.toNat_ofNat', Nat.mod_eq_of_lt hpart,
    Nat.mod_eq_of_lt hindex]

/-- The positions are the places of the stable order, each once, and the events there are the
events of all runs in stable order. -/
structure StablyMerged {T κ : Type} [LinearOrder κ] (runs : List (List T)) (key : T → κ)
    (order : List MergedPos) : Prop where
  places : order.map MergedPos.toHead = (stableOrder runs key).map Prod.snd
  once : (order.map MergedPos.toHead).Nodup
  events : (order.map fun pos => runs[pos.toHead.1]? >>= fun run => run[pos.toHead.2]?) =
    (runs.flatten.insertionSort fun left right => key left ≤ key right).map some

section Bounded

variable {T κ : Type} [LinearOrder κ] {runs : List (List T)} {key : T → κ}

/-- The event at a place. -/
theorem eventAt_of_mem {event : T × Head} (h : event ∈ stableOrder runs key) :
    (runs[event.2.1]? >>= fun run => run[event.2.2]?) = some event.1 := by
  have hmem := (List.perm_insertionSort _ (placedRuns runs)).mem_iff.mp h
  obtain ⟨run, hrun, hevent⟩ := mem_placedRuns.mp hmem
  rw [hrun]
  exact hevent

theorem nodup_places (runs : List (List T)) (key : T → κ) :
    ((stableOrder runs key).map Prod.snd).Nodup := by
  have hperm := (List.perm_insertionSort
    (fun left right : T × Head => key left.1 ≤ key right.1) (placedRuns runs)).map Prod.snd
  apply hperm.nodup_iff.mpr
  apply List.pairwise_map.mpr
  apply (pairwise_placedRuns runs).imp
  rintro left right hlt heq
  exact hlt.ne (congrArg toLex heq)

theorem stablyMerged_of_bounded (hparts : runs.length ≤ 2 ^ 32)
    (hlengths : ∀ run ∈ runs, run.length ≤ 2 ^ 32) :
    StablyMerged runs key ((stableOrder runs key).map fun event => .ofHead event.2) := by
  have hplaces : ∀ event ∈ stableOrder runs key,
      (MergedPos.ofHead event.2).toHead = event.2 := by
    intro event hevent
    have hmem := (List.perm_insertionSort _ (placedRuns runs)).mem_iff.mp hevent
    obtain ⟨run, hrun, hindex⟩ := mem_placedRuns.mp hmem
    apply MergedPos.toHead_ofHead
    · exact (List.getElem?_eq_some_iff.mp hrun).1.trans_le hparts
    · exact (List.getElem?_eq_some_iff.mp hindex).1.trans_le
        (hlengths run (List.mem_of_getElem? hrun))
  have hall : ((stableOrder runs key).map fun event => MergedPos.ofHead event.2).map
        MergedPos.toHead =
      (stableOrder runs key).map Prod.snd := by
    rw [List.map_map]
    exact List.map_congr_left hplaces
  refine ⟨hall, ?_, ?_⟩
  · rw [hall]
    exact nodup_places runs key
  · have hsorted : (stableOrder runs key).map Prod.fst =
        runs.flatten.insertionSort fun left right => key left ≤ key right := by
      rw [← map_fst_placedRuns, stableOrder]
      apply List.map_insertionSort
      exact fun _ _ _ _ => Iff.rfl
    rw [← hsorted, List.map_map, List.map_map]
    apply List.map_congr_left
    intro event hevent
    change (runs[(MergedPos.ofHead event.2).toHead.1]? >>= _) = some event.1
    rw [hplaces event hevent]
    exact eventAt_of_mem hevent

end Bounded

/-- The key of an event. -/
def UsageEventData.sortKey (event : UsageEventView) : SortKey :=
  toLex (event.timestampMs, toLex (event.sourcePath, event.sourceOrder))

/-- An assembly from which the events of a run are read. -/
structure Reads (assembly : CompactUsageAssembly) (run : List UsageEventView) : Prop where
  length : assembly.events.length = run.length
  view : ∀ index, assembly.view index = run[index]?

/-- The key of a compact event is that of its view. -/
theorem Reads.sortKey {assembly : CompactUsageAssembly} {run : List UsageEventView}
    (h : Reads assembly run) (index : Nat) :
    assembly.sortKey index = run[index]?.map UsageEventData.sortKey := by
  have hview := h.view index
  cases hcompact : assembly.events[index]? with
  | none =>
      rw [CompactUsageAssembly.view, hcompact] at hview
      rw [CompactUsageAssembly.sortKey, hcompact, ← hview]
      rfl
  | some compact =>
      obtain ⟨event, hevent⟩ : ∃ event, run[index]? = some event := by
        have hlt := (List.getElem?_eq_some_iff.mp hcompact).1
        rw [h.length] at hlt
        exact ⟨_, List.getElem?_eq_getElem hlt⟩
      rw [hevent, CompactUsageAssembly.view, hcompact] at hview
      simp only [UsageEventData.mapText, Option.bind_eq_bind, Option.bind_some,
        Option.bind_eq_some_iff] at hview
      obtain ⟨path, hpath, _, _, _, _, _, _, _, _, _, _, _, _, _, _, heq⟩ := hview
      rw [CompactUsageAssembly.sortKey, hcompact, hevent, ← Option.some.inj heq]
      simp only [Option.bind_eq_bind, Option.bind_some, hpath]
      rfl

private theorem getElem?_forall₂ {α β : Type} {relation : α → β → Prop} {left : List α}
    {right : List β} (h : List.Forall₂ relation left right) (index : Nat) :
    (left[index]? = none ∧ right[index]? = none) ∨
      ∃ first second, left[index]? = some first ∧ right[index]? = some second ∧
        relation first second := by
  induction h generalizing index with
  | nil => exact Or.inl ⟨rfl, rfl⟩
  | cons hfirst _ ih =>
      cases index with
      | zero => exact Or.inr ⟨_, _, rfl, rfl, hfirst⟩
      | succ index => exact ih index

/-- Assemblies are merged as the runs that are read from them. -/
theorem buildMergedOrder_eq {parts : List CompactUsageAssembly}
    {runs : List (List UsageEventView)} (h : List.Forall₂ Reads parts runs) :
    buildMergedOrder parts = mergeRuns runs UsageEventData.sortKey := by
  have hkey : (fun part index => parts[part]? >>= fun assembly => assembly.sortKey index) =
      fun part index : Nat => (runs[part]? >>= fun run => run[index]?).map
        UsageEventData.sortKey := by
    funext part index
    obtain ⟨hnone, hnone'⟩ | ⟨assembly, run, hassembly, hrun, hreads⟩ := getElem?_forall₂ h part
    · rw [hnone, hnone']
      rfl
    · rw [hassembly, hrun]
      exact hreads.sortKey index
  have hlength : (fun part : Nat => parts[part]?.map fun assembly => assembly.events.length) =
      fun part => runs[part]?.map List.length := by
    funext part
    obtain ⟨hnone, hnone'⟩ | ⟨assembly, run, hassembly, hrun, hreads⟩ := getElem?_forall₂ h part
    · rw [hnone, hnone']
      rfl
    · rw [hassembly, hrun, Option.map_some, Option.map_some, hreads.length]
  rw [buildMergedOrder, hkey, hlength, h.length_eq, mergeRuns]

/-- As long as partitions and places have 32-bit numbers, both merges give the stable sort of the
runs. -/
theorem merged_order_is_stable {T κ : Type} [LinearOrder κ] :
    (∀ (runs : List (List T)) (key : T → κ),
      (∀ run ∈ runs, run.Pairwise fun left right => key left ≤ key right) →
      runs.length ≤ 2 ^ 32 → (∀ run ∈ runs, run.length ≤ 2 ^ 32) →
        ∃ order, mergeRuns runs key = some order ∧ StablyMerged runs key order) ∧
    ∀ (parts : List CompactUsageAssembly) (runs : List (List UsageEventView)),
      List.Forall₂ Reads parts runs →
      (∀ run ∈ runs, run.Pairwise fun left right => left.sortKey ≤ right.sortKey) →
      runs.length ≤ 2 ^ 32 → (∀ run ∈ runs, run.length ≤ 2 ^ 32) →
        ∃ order, buildMergedOrder parts = some order ∧
          StablyMerged runs UsageEventData.sortKey order := by
  constructor
  · intro runs key hsorted hparts hlengths
    exact ⟨_, mergeRuns_eq hsorted, stablyMerged_of_bounded hparts hlengths⟩
  · intro parts runs hreads hsorted hparts hlengths
    rw [buildMergedOrder_eq hreads]
    exact ⟨_, mergeRuns_eq hsorted, stablyMerged_of_bounded hparts hlengths⟩

/-- In a run with more events than there are 32-bit numbers a place comes back. -/
theorem not_stablyMerged_of_long {T κ : Type} [LinearOrder κ] {run : List T} {key : T → κ}
    (hsorted : run.Pairwise fun left right => key left ≤ key right)
    (hlong : 2 ^ 32 < run.length) :
    ¬ ∃ order, mergeRuns [run] key = some order ∧ StablyMerged [run] key order := by
  rintro ⟨order, horder, hstable⟩
  have hall : ∀ run' ∈ [run], run'.Pairwise fun left right => key left ≤ key right :=
    fun run' hrun => List.mem_singleton.mp hrun ▸ hsorted
  rw [mergeRuns_eq hall] at horder
  have hplaces := hstable.places
  rw [← Option.some.inj horder, List.map_map] at hplaces
  have hmem : (run[2 ^ 32], (0, 2 ^ 32)) ∈ stableOrder [run] key :=
    (List.perm_insertionSort _ (placedRuns [run])).mem_iff.mpr
      (mem_placedRuns.mpr ⟨run, rfl, List.getElem?_eq_getElem hlong⟩)
  have hplace := List.map_inj_left.mp hplaces _ hmem
  have hindex : (UInt32.ofNat (2 ^ 32)).toNat = 2 ^ 32 := congrArg Prod.snd hplace
  exact absurd hindex (UInt32.ofNat (2 ^ 32)).toNat_lt.ne

/-- An event whose only text is its path. -/
def eventAt {S P : Type} (sourcePath : P) (timestampMs : Nat) : UsageEventData S P where
  source := "claude"
  sourcePath
  sourceRecordId := none
  sessionId := none
  requestId := none
  messageId := none
  timestampMs
  project := none
  provider := none
  model := none
  tokens := { rawInput := 0, uncachedInput := 0, cacheRead := 0, cacheWrite := 0, output := 0 }
  sourceCostUsd := none
  costAuthoritative := false
  dedupeConfidence := "strong"
  conservativeUndercount := false
  cacheChainExcluded := false
  sidechain := false
  permissionReview := false
  sourceOrder := 0

theorem merged_order_of_two_runs :
    (∃ order, mergeRuns [[1, 3], [], [1, 2]] (id : Nat → Nat) = some order ∧
      StablyMerged [[1, 3], [], [1, 2]] id order) ∧
    ∃ order, buildMergedOrder [⟨[eventAt ⟨1, Nat.one_pos⟩ 5], ['a'], [1]⟩] = some order ∧
      StablyMerged [[eventAt "a" 5]] UsageEventData.sortKey order := by
  constructor
  · exact merged_order_is_stable.1 [[1, 3], [], [1, 2]] id (by decide) (by decide) (by decide)
  · apply (@merged_order_is_stable Nat Nat _).2 _ [[eventAt "a" 5]]
    · apply List.Forall₂.cons _ List.Forall₂.nil
      constructor
      · rfl
      · rintro (_ | index)
        · decide +kernel
        · rfl
    · intro run hrun
      rw [List.mem_singleton.mp hrun]
      exact List.pairwise_singleton _ _
    · decide
    · intro run hrun
      rw [List.mem_singleton.mp hrun]
      decide

/-- A run of equal events, one more than there are 32-bit numbers. -/
theorem merge_of_long_run_repeats :
    ¬ ∃ order, mergeRuns [List.replicate (2 ^ 32 + 1) (eventAt "a" 5 : UsageEventView)]
        UsageEventData.sortKey = some order ∧
      StablyMerged [List.replicate (2 ^ 32 + 1) (eventAt "a" 5 : UsageEventView)]
        UsageEventData.sortKey order := by
  apply not_stablyMerged_of_long
  · exact List.pairwise_replicate.mpr (Or.inr le_rfl)
  · rw [List.length_replicate]
    exact Nat.lt_succ_self _

end Memex.Usage
