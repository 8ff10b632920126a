import Mathlib.Data.List.Basic
import Mathlib.Data.List.Nodup

/-! # Event traces

Statements about the events of a growing trace, each judged by the events before it. -/

namespace Trace

variable {ε : Type*} {judge : List ε → ε → Prop}

/-- Every event stands as judged by the events before it. -/
def Always (judge : List ε → ε → Prop) (trace : List ε) : Prop :=
  ∀ before event after, trace = before ++ event :: after → judge before event

/-- Some event stands as judged by the events before it. -/
def Occurs (judge : List ε → ε → Prop) (trace : List ε) : Prop :=
  ∃ before event after, trace = before ++ event :: after ∧ judge before event

/-- Where an event of an extended trace stands. -/
theorem concat_eq_append_cons_iff {trace before after : List ε} {last event : ε} :
    trace ++ [last] = before ++ event :: after ↔
      (trace = before ∧ last = event ∧ after = []) ∨
        ∃ init, after = init ++ [last] ∧ trace = before ++ event :: init := by
  constructor
  · intro h
    obtain rfl | ⟨init, final, rfl⟩ := List.eq_nil_or_concat after
    · obtain ⟨rfl, hlast⟩ := List.append_inj' h rfl
      exact Or.inl ⟨rfl, List.cons.inj hlast |>.1, rfl⟩
    · have hsplit : trace ++ [last] = (before ++ event :: init) ++ [final] := by simpa using h
      obtain ⟨rfl, hfinal⟩ := List.append_inj' hsplit rfl
      obtain rfl := (List.cons.inj hfinal).1
      exact Or.inr ⟨init, List.concat_eq_append, rfl⟩
  · rintro (⟨rfl, rfl, rfl⟩ | ⟨init, rfl, rfl⟩)
    · rfl
    · simp

theorem always_nil : Always judge [] := by
  intro before event after h
  simp at h

theorem always_concat {trace : List ε} {event : ε} :
    Always judge (trace ++ [event]) ↔ Always judge trace ∧ judge trace event := by
  constructor
  · intro h
    refine ⟨fun before other after htrace => ?_, h trace event [] rfl⟩
    exact h before other (after ++ [event]) (by simp [htrace])
  · rintro ⟨htrace, hevent⟩ before other after hsplit
    obtain ⟨rfl, rfl, -⟩ | ⟨init, -, rfl⟩ := concat_eq_append_cons_iff.mp hsplit
    · exact hevent
    · exact htrace before other init rfl

theorem Always.of_mem {trace : List ε} (h : Always judge trace) {event : ε}
    (hmem : event ∈ trace) :
    ∃ before after, trace = before ++ event :: after ∧ judge before event := by
  obtain ⟨before, after, hsplit⟩ := List.append_of_mem hmem
  exact ⟨before, after, hsplit, h before event after hsplit⟩

theorem occurs_concat {trace : List ε} {event : ε} :
    Occurs judge (trace ++ [event]) ↔ Occurs judge trace ∨ judge trace event := by
  constructor
  · rintro ⟨before, other, after, hsplit, hjudge⟩
    obtain ⟨rfl, rfl, -⟩ | ⟨init, -, rfl⟩ := concat_eq_append_cons_iff.mp hsplit
    · exact Or.inr hjudge
    · exact Or.inl ⟨before, other, init, rfl, hjudge⟩
  · rintro (⟨before, other, after, rfl, hjudge⟩ | hjudge)
    · exact ⟨before, other, after ++ [event], by simp, hjudge⟩
    · exact ⟨trace, event, [], rfl, hjudge⟩

theorem Occurs.append {trace : List ε} (h : Occurs judge trace) (more : List ε) :
    Occurs judge (trace ++ more) := by
  obtain ⟨before, event, after, rfl, hjudge⟩ := h
  exact ⟨before, event, after ++ more, by simp, hjudge⟩

section Names

variable {ν : Type*} {names : ε → List ν} {trace : List ε}

/-- When no name is given twice, an event shares none of its names with the others. -/
theorem not_mem_names_of_split (h : (trace.flatMap names).Nodup) {before after : List ε}
    {event other : ε} (hsplit : trace = before ++ event :: after) (hother : other ∈ before ++ after)
    {name : ν} (hname : name ∈ names event) : name ∉ names other := by
  intro hshared
  rw [hsplit, List.flatMap_append, List.flatMap_cons, List.nodup_append] at h
  obtain ⟨-, hrest, hdisjoint⟩ := h
  obtain hbefore | hafter := List.mem_append.mp hother
  · have hin : name ∈ before.flatMap names := List.mem_flatMap.mpr ⟨other, hbefore, hshared⟩
    exact hdisjoint name hin name (List.mem_append_left _ hname) rfl
  · have hin : name ∈ after.flatMap names := List.mem_flatMap.mpr ⟨other, hafter, hshared⟩
    exact (List.nodup_append.mp hrest).2.2 name hname name hin rfl

theorem eq_of_mem_names (h : (trace.flatMap names).Nodup) {event other : ε}
    (hevent : event ∈ trace) (hother : other ∈ trace) {name : ν} (hname : name ∈ names event)
    (hshared : name ∈ names other) : event = other := by
  obtain ⟨before, after, hsplit⟩ := List.append_of_mem hevent
  by_contra hne
  have hrest : other ∈ before ++ after := by
    rw [hsplit, List.mem_append, List.mem_cons] at hother
    rw [List.mem_append]
    obtain hbefore | rfl | hafter := hother
    · exact Or.inl hbefore
    · exact absurd rfl hne
    · exact Or.inr hafter
  exact not_mem_names_of_split h hsplit hrest hname hshared

/-- When no name is given twice, a name tells where its event stands. -/
theorem split_unique (h : (trace.flatMap names).Nodup) {before after before' after' : List ε}
    {event event' : ε} (hsplit : trace = before ++ event :: after)
    (hsplit' : trace = before' ++ event' :: after') {name : ν} (hname : name ∈ names event)
    (hname' : name ∈ names event') : before = before' ∧ event = event' ∧ after = after' := by
  have hnotin : ∀ {front back : List ε} {one other : ε} {rest : List ε}, name ∈ names one →
      name ∈ names other → trace = front ++ one :: (back ++ other :: rest) → False := by
    intro front back one other rest hone hother hboth
    exact not_mem_names_of_split h hboth (by simp) hone hother
  rw [hsplit, List.append_eq_append_iff] at hsplit'
  obtain ⟨middle, rfl, hrest⟩ | ⟨middle, rfl, hrest⟩ := hsplit'
  · cases middle with
    | nil =>
        rw [List.nil_append, List.cons.injEq] at hrest
        exact ⟨(List.append_nil before).symm, hrest.1, hrest.2⟩
    | cons first middle =>
        rw [List.cons_append, List.cons.injEq] at hrest
        rw [hrest.2] at hsplit
        exact (hnotin hname hname' hsplit).elim
  · cases middle with
    | nil =>
        rw [List.nil_append, List.cons.injEq] at hrest
        exact ⟨List.append_nil before', hrest.1.symm, hrest.2.symm⟩
    | cons first middle =>
        rw [List.cons_append, List.cons.injEq] at hrest
        obtain ⟨rfl, -⟩ := hrest
        rw [List.append_assoc, List.cons_append] at hsplit
        exact (hnotin hname' hname hsplit).elim

/-- The names of a new event were not given before. -/
theorem not_mem_names_of_concat {event other : ε} (h : ((trace ++ [event]).flatMap names).Nodup)
    (hother : other ∈ trace) {name : ν} (hname : name ∈ names event) : name ∉ names other :=
  not_mem_names_of_split h rfl (by simpa using hother) hname

end Names

end Trace
