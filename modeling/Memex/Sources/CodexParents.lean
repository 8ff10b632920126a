import Memex.Lib.Bisection
import Memex.Lib.Overlay
import Memex.Sources.CodexUsage
import Mathlib.Data.List.Sort

/-! # The snapshots of a parent session

`ParentData` of `sources/codex.rs` as it is built and asked: sorted times, the maxima up to each,
and a map from totals to when they were first seen. -/

namespace Memex.Codex

open Overlay Bisection

/-- A total and when it was reported. -/
abbrev TimedTokens := Nat × UsageTokens

/-- The index and the running maximum while the snapshots are read. -/
structure ParentLoad (D : Type) where
  index : ParentIndex D
  running : UsageTokens := default

variable {D : Type}

/-- When a total was first seen, with one more time. -/
def firstSeen (earliest : Table UsageTokens Nat) (snapshot : TimedTokens) : Nat :=
  match earliest.lookup snapshot.2 with
  | some first => min first snapshot.1
  | none => snapshot.1

/-- One snapshot is read. -/
def ParentLoad.visit (load : ParentLoad D) (snapshot : TimedTokens) : ParentLoad D :=
  let running := load.running.max snapshot.2
  { index :=
      { load.index with
        times := load.index.times ++ [snapshot.1]
        prefixMax := load.index.prefixMax ++ [running]
        earliest :=
          load.index.earliest.insert snapshot.2 (firstSeen load.index.earliest snapshot) }
    running }

namespace ParentIndex

/-- Snapshots by their times; of one time, in the order they came. -/
def inOrder (snapshots : List TimedTokens) : List TimedTokens :=
  snapshots.mergeSort fun left right => left.1 ≤ right.1

def new (deps : List D) (snapshots : List TimedTokens) : ParentIndex D :=
  ((inOrder snapshots).foldl ParentLoad.visit { index := { deps } }).index

/-- Number of snapshots at or before the cutoff. -/
def inheritedCount (parent : ParentIndex D) (cutoffMs : Nat) : Nat :=
  partitionPoint (fun timestamp => decide (timestamp ≤ cutoffMs)) parent.times

def inheritedBaseline (parent : ParentIndex D) (cutoffMs : Nat) : Option UsageTokens :=
  let count := parent.inheritedCount cutoffMs
  if count > 0 then parent.prefixMax[count - 1]? else none

end ParentIndex

/-! ## What the index holds -/

/-- The maxima of all snapshots. -/
def maxima (snapshots : List TimedTokens) : UsageTokens :=
  snapshots.foldl (fun running snapshot => running.max snapshot.2) default

/-- The index of snapshots that were read in this order. -/
structure ParentLoad.Indexes (load : ParentLoad D) (snapshots : List TimedTokens) : Prop where
  times : load.index.times = snapshots.map Prod.fst
  running : load.running = maxima snapshots
  prefixMax : ∀ count, 0 < count → count ≤ snapshots.length →
    load.index.prefixMax[count - 1]? = some (maxima (snapshots.take count))
  maximaLength : load.index.prefixMax.length = snapshots.length
  earliest : ∀ tokens cutoffMs,
    (load.index.earliest.lookup tokens).any (fun first => first ≤ cutoffMs) = true ↔
      ∃ time ≤ cutoffMs, (time, tokens) ∈ snapshots

/-- One more time can only be earlier. -/
theorem firstSeen_le_iff (earliest : Table UsageTokens Nat) (snapshot : TimedTokens)
    (cutoffMs : Nat) :
    firstSeen earliest snapshot ≤ cutoffMs ↔
      (earliest.lookup snapshot.2).any (fun first => first ≤ cutoffMs) = true ∨
        snapshot.1 ≤ cutoffMs := by
  unfold firstSeen
  cases earliest.lookup snapshot.2 with
  | none => simp
  | some first => simp

namespace ParentLoad

variable {load : ParentLoad D} {snapshots : List TimedTokens}

theorem Indexes.start (deps : List D) : Indexes { index := { deps } } [] where
  times := rfl
  running := rfl
  prefixMax count hpositive hle := absurd hpositive (Nat.not_lt.mpr hle)
  maximaLength := rfl
  earliest tokens cutoffMs := by
    rw [Finmap.lookup_empty]
    simp

theorem Indexes.visit (h : load.Indexes snapshots) (snapshot : TimedTokens) :
    (load.visit snapshot).Indexes (snapshots ++ [snapshot]) where
  times := by
    simp [ParentLoad.visit, h.times]
  running := by
    simp [ParentLoad.visit, h.running, maxima]
  prefixMax count hpositive hle := by
    rw [List.length_append, List.length_singleton] at hle
    simp only [ParentLoad.visit]
    obtain hlast | hearlier := eq_or_lt_of_le hle
    · rw [hlast, Nat.add_sub_cancel, ← h.maximaLength, List.getElem?_concat_length,
        h.maximaLength, List.take_of_length_le (by simp), h.running]
      simp [maxima]
    · have hplace : count - 1 < load.index.prefixMax.length := by
        rw [h.maximaLength]
        omega
      rw [List.getElem?_append_left hplace, h.prefixMax count hpositive (by omega),
        List.take_append_of_le_length (by omega)]
  maximaLength := by
    simp [ParentLoad.visit, h.maximaLength]
  earliest tokens cutoffMs := by
    have hseen : ∀ time, (time, tokens) ∈ snapshots ++ [snapshot] ↔
        (time, tokens) ∈ snapshots ∨ (time, tokens) = snapshot := by
      intro time
      rw [List.mem_append, List.mem_singleton]
    simp only [ParentLoad.visit, hseen, lookup_insert_ite]
    by_cases hsame : tokens = snapshot.2
    · rw [if_pos hsame, Option.any_some, decide_eq_true_iff, firstSeen_le_iff, ← hsame,
        h.earliest]
      constructor
      · rintro (⟨time, hle, hmem⟩ | hle)
        · exact ⟨time, hle, Or.inl hmem⟩
        · exact ⟨snapshot.1, hle, Or.inr (Prod.ext rfl hsame)⟩
      · rintro ⟨time, hle, hmem | rfl⟩
        · exact Or.inl ⟨time, hle, hmem⟩
        · exact Or.inr hle
    · rw [if_neg hsame, h.earliest]
      constructor
      · rintro ⟨time, hle, hmem⟩
        exact ⟨time, hle, Or.inl hmem⟩
      · rintro ⟨time, hle, hmem | heq⟩
        · exact ⟨time, hle, hmem⟩
        · exact absurd (congrArg Prod.snd heq) hsame

theorem Indexes.run (h : load.Indexes snapshots) (more : List TimedTokens) :
    (more.foldl ParentLoad.visit load).Indexes (snapshots ++ more) := by
  induction more generalizing load snapshots with
  | nil =>
      rw [List.append_nil]
      exact h
  | cons snapshot rest ih =>
      have hnext := ih (h.visit snapshot)
      rwa [List.append_assoc] at hnext

end ParentLoad

/-! ## The index against the snapshots -/

/-- The snapshots at or before the cutoff. -/
def reportedBy (cutoffMs : Nat) (snapshots : List TimedTokens) : List TimedTokens :=
  snapshots.filter fun snapshot => snapshot.1 ≤ cutoffMs

/-- The maximum of a component. -/
theorem part_maxima (snapshots : List TimedTokens) (component : Component) :
    (maxima snapshots).part component =
      (snapshots.map fun snapshot => snapshot.2.part component).foldl max 0 := by
  induction snapshots using List.reverseRecOn with
  | nil => exact UsageTokens.part_default component
  | append_singleton rest snapshot ih =>
      have hlast : maxima (rest ++ [snapshot]) = (maxima rest).max snapshot.2 := by
        simp [maxima]
      rw [List.map_append, List.foldl_append, ← ih, hlast]
      exact UsageTokens.part_ofParts _ component

private theorem max?_eq_foldl (numbers : List Nat) (h : numbers ≠ []) :
    numbers.max? = some (numbers.foldl max 0) := by
  cases numbers with
  | nil => exact absurd rfl h
  | cons first rest => rw [List.max?_cons', List.foldl_cons, Nat.zero_max]

namespace ParentIndex

variable {deps : List D} {snapshots : List TimedTokens}

theorem new_indexes (deps : List D) (snapshots : List TimedTokens) :
    ∃ load : ParentLoad D, load.index = new deps snapshots ∧
      load.Indexes (inOrder snapshots) :=
  ⟨_, rfl, (ParentLoad.Indexes.start deps).run (inOrder snapshots)⟩

theorem inOrder_perm (snapshots : List TimedTokens) : (inOrder snapshots).Perm snapshots :=
  List.mergeSort_perm _ _

/-- A later time that is reported comes after earlier ones that are. -/
theorem partitioned_times (snapshots : List TimedTokens) (cutoffMs : Nat) :
    Partitioned (fun snapshot : TimedTokens => decide (snapshot.1 ≤ cutoffMs))
      (inOrder snapshots) := by
  have hsorted : (inOrder snapshots).Pairwise fun left right =>
      decide (left.1 ≤ right.1) = true := by
    apply List.pairwise_mergeSort
    · intro _ _ _ hleft hright
      simp only [decide_eq_true_eq] at hleft hright ⊢
      exact hleft.trans hright
    · intro left right
      simp only [Bool.or_eq_true, decide_eq_true_eq]
      exact le_total left.1 right.1
  apply hsorted.imp
  intro first later hle hlater
  rw [decide_eq_true_eq] at hle hlater ⊢
  exact hle.trans hlater

theorem inheritedCount_eq (cutoffMs : Nat) :
    (new deps snapshots).inheritedCount cutoffMs =
      partitionPoint (fun snapshot : TimedTokens => decide (snapshot.1 ≤ cutoffMs))
        (inOrder snapshots) := by
  obtain ⟨load, hload, h⟩ := new_indexes deps snapshots
  have htimes : Partitioned (fun time : Nat => decide (time ≤ cutoffMs))
      ((inOrder snapshots).map Prod.fst) :=
    List.pairwise_map.mpr (partitioned_times snapshots cutoffMs)
  rw [inheritedCount, ← hload, h.times, partitionPoint_eq htimes,
    partitionPoint_eq (partitioned_times snapshots cutoffMs), List.takeWhile_map, List.length_map]
  rfl

/-- The counted snapshots are those reported by the cutoff. -/
theorem take_inheritedCount_perm (deps : List D) (snapshots : List TimedTokens) (cutoffMs : Nat) :
    ((inOrder snapshots).take ((new deps snapshots).inheritedCount cutoffMs)).Perm
      (reportedBy cutoffMs snapshots) := by
  rw [inheritedCount_eq, take_partitionPoint (partitioned_times snapshots cutoffMs)]
  exact (inOrder_perm snapshots).filter _

/-- The baseline is the maximum of what was reported by the cutoff. -/
theorem inheritedBaseline_eq (cutoffMs : Nat) :
    (new deps snapshots).inheritedBaseline cutoffMs =
      if reportedBy cutoffMs snapshots = [] then none
      else some (maxima
        ((inOrder snapshots).take ((new deps snapshots).inheritedCount cutoffMs))) := by
  have hperm := take_inheritedCount_perm deps snapshots cutoffMs
  obtain ⟨load, hload, h⟩ := new_indexes deps snapshots
  have hle : (new deps snapshots).inheritedCount cutoffMs ≤ (inOrder snapshots).length := by
    rw [inheritedCount_eq, partitionPoint_eq (partitioned_times snapshots cutoffMs)]
    exact (List.takeWhile_prefix _).length_le
  have hempty : reportedBy cutoffMs snapshots = [] ↔
      (new deps snapshots).inheritedCount cutoffMs = 0 := by
    rw [← List.length_eq_zero_iff, ← hperm.length_eq, List.length_take, Nat.min_eq_left hle]
  rw [inheritedBaseline]
  by_cases hzero : (new deps snapshots).inheritedCount cutoffMs = 0
  · rw [if_pos (hempty.mpr hzero)]
    exact if_neg (Nat.not_lt.mpr hzero.le)
  · have hpositive := Nat.pos_of_ne_zero hzero
    have hmaxima := h.prefixMax _ hpositive hle
    rw [hload] at hmaxima
    rw [if_neg (mt hempty.mp hzero)]
    exact (if_pos hpositive).trans hmaxima

/-- A total is inherited once it was reported by the cutoff. -/
theorem isInherited_iff (tokens : UsageTokens) (cutoffMs : Nat) :
    (new deps snapshots).isInherited tokens cutoffMs = true ↔
      ∃ time, (time, tokens) ∈ reportedBy cutoffMs snapshots := by
  obtain ⟨load, hload, h⟩ := new_indexes deps snapshots
  rw [isInherited, ← hload, h.earliest]
  simp only [reportedBy, List.mem_filter, decide_eq_true_eq, (inOrder_perm snapshots).mem_iff]
  exact exists_congr fun time => and_comm

end ParentIndex

/-- The index answers as its snapshots do: the baseline has in each component the maximum of what
was reported by the cutoff, and is missing when nothing was; a total is inherited exactly when it
was reported by the cutoff. -/
theorem parent_index_answers {D : Type} (deps : List D) (snapshots : List TimedTokens)
    (cutoffMs : Nat) :
    (∀ component, ((ParentIndex.new deps snapshots).inheritedBaseline cutoffMs).map
        (·.part component) =
      ((reportedBy cutoffMs snapshots).map fun snapshot => snapshot.2.part component).max?) ∧
    ∀ tokens, (ParentIndex.new deps snapshots).isInherited tokens cutoffMs = true ↔
      ∃ time, (time, tokens) ∈ reportedBy cutoffMs snapshots := by
  constructor
  · intro component
    have hperm := ParentIndex.take_inheritedCount_perm deps snapshots cutoffMs
    rw [ParentIndex.inheritedBaseline_eq]
    split
    next hnone =>
      rw [hnone]
      rfl
    next hsome =>
      have hnumbers : ((reportedBy cutoffMs snapshots).map
          fun snapshot => snapshot.2.part component) ≠ [] := mt List.map_eq_nil_iff.mp hsome
      rw [Option.map_some, part_maxima, max?_eq_foldl _ hnumbers]
      exact congrArg some ((hperm.map _).foldl_eq 0)
  · exact fun tokens => ParentIndex.isInherited_iff tokens cutoffMs

end Memex.Codex
