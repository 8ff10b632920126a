import Memex.Watch.EventLoop

/-! # No hint is lost

A hint moves from the queue to the dirty set or to the resync flag, and only an ingest
that covers its path takes it away. -/

namespace Memex.Watch

namespace WatchService

variable {before middle after : WatchService} {config : WatchConfig} {path : String}

/-- A path is dirty or everything has to be reconciled. -/
def Marks (service : WatchService) (path : String) : Prop :=
  path ∈ service.dirty ∨ service.resyncNeeded = true

/-- No mark and no request for a resync goes away. -/
structure Keeps (before after : WatchService) : Prop where
  marks : ∀ path, before.Marks path → after.Marks path
  resync : before.resyncNeeded = true → after.resyncNeeded = true

theorem Keeps.refl (service : WatchService) : Keeps service service :=
  ⟨fun _ h => h, fun h => h⟩

theorem Keeps.trans (h : Keeps before middle) (h' : Keeps middle after) : Keeps before after :=
  ⟨fun path hpath => h'.marks path (h.marks path hpath),
    fun hresync => h'.resync (h.resync hresync)⟩

theorem Keeps.of_resync (h : after.resyncNeeded = true) : Keeps before after :=
  ⟨fun _ _ => Or.inr h, fun _ => h⟩

/-- Changes that leave the hints alone. -/
theorem Keeps.of_eq (hdirty : after.dirty = before.dirty)
    (hresync : after.resyncNeeded = before.resyncNeeded) : Keeps before after := by
  constructor
  · intro path hpath
    rwa [Marks, hdirty, hresync]
  · intro h
    rwa [hresync]

theorem keeps_activatePending (arm : String → Option String) (service : WatchService) :
    Keeps service (service.activatePending arm) := by
  rw [activatePending]
  split
  · exact Keeps.of_eq rfl rfl
  · exact Keeps.of_resync rfl

theorem keeps_startBatch (now : Nat) (service : WatchService) :
    Keeps service (service.startBatch now) := by
  rw [startBatch]
  split
  · exact Keeps.of_eq rfl rfl
  · exact Keeps.refl service

theorem keeps_insert (now : Nat) (service : WatchService) (path : String) :
    Keeps service { service with dirty := service.dirty.insert path now } := by
  constructor
  · rintro other (hother | hresync)
    · apply Or.inl
      rw [Finmap.mem_insert]
      exact Or.inr hother
    · exact Or.inr hresync
  · exact fun h => h

theorem keeps_insertDirty (config : WatchConfig) (now : Nat) (service : WatchService)
    (paths : List String) : Keeps service (insertDirty config now service paths) := by
  induction paths generalizing service with
  | nil => exact Keeps.refl service
  | cons path rest ih =>
      rw [insertDirty]
      split
      · exact Keeps.of_resync rfl
      · exact (keeps_insert now service path).trans (ih _)

/-- Every noted path is marked: a full set turns into a resync. -/
theorem marks_insertDirty (config : WatchConfig) (now : Nat) (service : WatchService)
    (paths : List String) (hpath : path ∈ paths) :
    (insertDirty config now service paths).Marks path := by
  induction paths generalizing service with
  | nil => cases hpath
  | cons first rest ih =>
      rw [insertDirty]
      split
      · exact Or.inr rfl
      · obtain rfl | hrest := List.mem_cons.mp hpath
        · apply (keeps_insertDirty config now _ rest).marks
          apply Or.inl
          rw [Finmap.mem_insert]
          exact Or.inl rfl
        · exact ih _ hrest

theorem keeps_noteDirtyAt (config : WatchConfig) (paths : List String) (now : Nat)
    (service : WatchService) : Keeps service (service.noteDirtyAt config paths now) :=
  (keeps_insertDirty config now service paths).trans (keeps_startBatch now _)

theorem marks_noteDirtyAt (config : WatchConfig) (now : Nat) (service : WatchService)
    {paths : List String} (hpath : path ∈ paths) :
    (service.noteDirtyAt config paths now).Marks path :=
  (keeps_startBatch now _).marks path (marks_insertDirty config now service paths hpath)

theorem keeps_drainResult (filter : WatchFilter) (config : WatchConfig) (now : Nat)
    (result : EventResult) (service : WatchService) :
    Keeps service (service.drainResult filter config now result) := by
  cases result with
  | error text => exact Keeps.of_resync rfl
  | ok event =>
      have hrequested : Keeps service
          (if (interestingEventPaths filter event).2 then service.requestResync else service) := by
        split
        · exact Keeps.of_resync rfl
        · exact Keeps.refl service
      rw [drainResult]
      dsimp only
      split
      · exact hrequested
      · exact hrequested.trans (keeps_noteDirtyAt config _ now _)

/-- A drained event marks its interesting paths. -/
theorem marks_drainResult {filter : WatchFilter} (config : WatchConfig) (now : Nat) {event : Event}
    (service : WatchService) (hpath : path ∈ (interestingEventPaths filter event).1) :
    (service.drainResult filter config now (.ok event)).Marks path := by
  rw [drainResult]
  dsimp only
  split
  · next hempty =>
      rw [hempty] at hpath
      cases hpath
  · exact marks_noteDirtyAt config now _ hpath

end WatchService

variable {filter : WatchFilter} {config : WatchConfig} {event : Event} {path : String}
  {system after : WatchSystem} {step : WatchStep} {steps : List WatchStep}

/-- The dirty set does not change while an ingest runs. -/
def SnapshotStands (system : WatchSystem) : Prop :=
  ∀ cause snapshot, system.phase = .ingesting cause snapshot →
    system.service.dirtyPaths = snapshot

/-- What a step can do: a callback adds to the queue or sets the bit, a result is received,
a running ingest ends, or the hints stay and an ingest may begin. -/
inductive Outcome (filter : WatchFilter) (config : WatchConfig) (system next : WatchSystem) :
    WatchStep → Prop where
  | callback {step : WatchStep} (hstep : ∀ running, ingestAfter running step = running)
      (hphase : next.phase = system.phase) (hservice : next.service = system.service)
      (hqueue : ∀ result ∈ system.queue, result ∈ next.queue)
      (hoverflow : system.overflow = true → next.overflow = true) :
      Outcome filter config system next step
  | quiet {step : WatchStep} (hstep : ∀ running, ingestAfter running step = running)
      (hphase : ∀ cause snapshot, next.phase ≠ .ingesting cause snapshot)
      (hservice : system.service.Keeps next.service)
      (hqueue : next.queue = system.queue)
      (hoverflow : system.overflow = true →
        next.overflow = true ∨ next.service.resyncNeeded = true) :
      Outcome filter config system next step
  | received {result : EventResult} {rest : List EventResult} {now : Nat} 
      (hqueue : system.queue = result :: rest)
      (hphase : ∀ cause snapshot, next.phase ≠ .ingesting cause snapshot)
      (hservice : next.service = system.service.drainResult filter config now result)
      (hnext : next.queue = rest) (hoverflow : next.overflow = system.overflow) :
      Outcome filter config system next .receive
  | refreshed {canonicalRoot : String → String} {roots : Finset String}
      (hphase : next.phase = system.phase)
      (hservice : next.service = system.service.ensureRoots canonicalRoot roots)
      (hqueue : next.queue = system.queue) (hoverflow : next.overflow = system.overflow) :
      Outcome filter config system next (.refreshRoots canonicalRoot roots)
  | started {cause : FireCause} {snapshot : Finset String}
      (hsnapshot : snapshot = system.service.dirtyPaths)
      (hnext : next = { system with phase := .ingesting cause snapshot }) :
      Outcome filter config system next (.start cause snapshot)
  | completed {cause : FireCause} {snapshot : Finset String} {fullScan : Bool} {now : Nat}
      (hphase : system.phase = .ingesting cause snapshot)
      (hnext : next = { system with
        service := system.service.markComplete config (if fullScan then .resync else cause) now
        phase := .idle }) :
      Outcome filter config system next (.complete fullScan now)
  | skipped {snapshot : Finset String} (hphase : system.phase = .ingesting .dirty snapshot)
      (hnext : next = { system with service := system.service.markSkipped, phase := .idle }) :
      Outcome filter config system next .skip
  | failed (hnext : next = { system with phase := .idle }) :
      Outcome filter config system next .fail

theorem outcome_callbackStep (h : callbackStep system step = some after) :
    Outcome filter config system after step := by
  cases step with
  | accept result =>
      simp only [callbackStep, Option.ite_none_right_eq_some, Option.some.injEq] at h
      obtain ⟨-, rfl⟩ := h
      refine Outcome.callback (fun _ => rfl) rfl rfl ?_ fun hset => hset
      intro other hother
      exact List.mem_append_left _ hother
  | refuse result =>
      simp only [callbackStep, Option.ite_none_left_eq_some, Option.some.injEq] at h
      obtain ⟨-, rfl⟩ := h
      exact Outcome.callback (fun _ => rfl) rfl rfl (fun _ hother => hother) fun hset => hset
  | storeOverflow result =>
      simp only [callbackStep, Option.ite_none_right_eq_some, Option.some.injEq] at h
      obtain ⟨-, rfl⟩ := h
      exact Outcome.callback (fun _ => rfl) rfl rfl (fun _ hother => hother) fun _ => rfl
  | _ => cases h

theorem outcome_loopStep {phase : LoopPhase} (hphase : system.phase = phase)
    (h : loopStep filter config system phase step = some after) :
    Outcome filter config system after step := by
  unfold loopStep at h
  split at h
  · simp only [Option.ite_none_right_eq_some, Option.some.injEq] at h
    obtain ⟨hsnapshot, rfl⟩ := h
    exact Outcome.started hsnapshot rfl
  · obtain rfl := Option.some.inj h
    exact Outcome.quiet (fun _ => rfl) (fun _ _ => LoopPhase.noConfusion)
      (WatchService.keeps_activatePending _ _) rfl Or.inl
  · obtain rfl := Option.some.inj h
    refine Outcome.quiet (fun _ => rfl) ?_ (WatchService.keeps_noteDirtyAt config _ _ _) rfl Or.inl
    intro cause snapshot
    dsimp only
    rw [hphase]
    exact LoopPhase.noConfusion
  · obtain rfl := Option.some.inj h
    refine Outcome.quiet (fun _ => rfl) (fun _ _ => LoopPhase.noConfusion) ?_ rfl ?_
    · dsimp only
      split
      · exact WatchService.Keeps.of_resync rfl
      · exact WatchService.Keeps.refl _
    · intro hset
      simp only [hset, if_true]
      exact Or.inr rfl
  · split at h
    · cases h
    · next result rest hqueue =>
        obtain rfl := Option.some.inj h
        exact Outcome.received hqueue (fun _ _ => LoopPhase.noConfusion) rfl rfl rfl
  · simp only [Option.ite_none_right_eq_some, Option.some.injEq] at h
    obtain ⟨-, rfl⟩ := h
    refine Outcome.quiet (fun _ => rfl) ?_ (WatchService.Keeps.refl _) rfl Or.inl
    intro cause snapshot
    dsimp only
    split
    · exact LoopPhase.noConfusion
    · exact LoopPhase.noConfusion
  · simp only [Option.ite_none_right_eq_some, Option.some.injEq] at h
    obtain ⟨⟨rfl, hsnapshot⟩, rfl⟩ := h
    exact Outcome.started hsnapshot rfl
  · obtain rfl := Option.some.inj h
    exact Outcome.refreshed rfl rfl rfl rfl
  · obtain rfl := Option.some.inj h
    exact Outcome.refreshed rfl rfl rfl rfl
  · obtain rfl := Option.some.inj h
    exact Outcome.completed hphase rfl
  · obtain rfl := Option.some.inj h
    exact Outcome.skipped hphase rfl
  · obtain rfl := Option.some.inj h
    exact Outcome.failed rfl
  · cases h

theorem outcome_watchStep (h : watchStep filter config system step = some after) :
    Outcome filter config system after step := by
  cases step with
  | accept _ => exact outcome_callbackStep h
  | refuse _ => exact outcome_callbackStep h
  | storeOverflow _ => exact outcome_callbackStep h
  | _ => exact outcome_loopStep rfl h

theorem SnapshotStands.next (h : SnapshotStands system)
    (hstep : watchStep filter config system step = some after) : SnapshotStands after := by
  intro cause snapshot hnext
  cases outcome_watchStep hstep with
  | callback _ hphase hservice _ _ =>
      rw [hservice]
      exact h cause snapshot (hphase ▸ hnext)
  | quiet _ hphase _ _ _ => exact absurd hnext (hphase cause snapshot)
  | received _ hphase _ _ _ => exact absurd hnext (hphase cause snapshot)
  | refreshed hphase hservice _ _ =>
      rw [hservice]
      exact h cause snapshot (hphase ▸ hnext)
  | started hsnapshot hstarted =>
      subst hstarted
      cases hnext
      exact hsnapshot.symm
  | completed _ hcompleted =>
      subst hcompleted
      cases hnext
  | skipped _ hskipped =>
      subst hskipped
      cases hnext
  | failed hfailed =>
      subst hfailed
      cases hnext

/-- The event waits in the queue, or the bit stands for it. -/
def Waits (event : Event) (system : WatchSystem) : Prop :=
  .ok event ∈ system.queue ∨ system.overflow = true

theorem Waits.hinted (h : Waits event system) : Hinted event path system := by
  obtain hqueue | hoverflow := h
  · exact Or.inr (Or.inl hqueue)
  · exact Or.inr (Or.inr (Or.inl hoverflow))

theorem hinted_iff : Hinted event path system ↔
    Waits event system ∨ system.service.Marks path := by
  rw [Hinted, Waits, WatchService.Marks]
  tauto

/-- What holds of an offered event after some steps: its path was covered, or its hint stands,
and an ingest that began before the offer has not seen the event yet. -/
structure Pursued (event : Event) (path : String) (steps : List WatchStep)
    (system : WatchSystem) : Prop where
  stands : SnapshotStands system
  hinted : Covered path steps ∨ Hinted event path system
  running : Covered path steps ∨ ∀ cause snapshot, system.phase = .ingesting cause snapshot →
    steps.foldl ingestAfter none = some (cause, snapshot) ∨ Waits event system

theorem Covered.concat (h : Covered path steps) (step : WatchStep) :
    Covered path (steps ++ [step]) :=
  Trace.occurs_concat.mpr (Or.inl h)

/-- An ingest that read the path ends. -/
theorem covered_concat {ingest : FireCause × Finset String}
    (hingest : steps.foldl ingestAfter none = some ingest) (hends : EndsCovering path ingest step) :
    Covered path (steps ++ [step]) :=
  Trace.occurs_concat.mpr (Or.inr ⟨ingest, hingest, hends⟩)

theorem foldl_ingestAfter_concat :
    (steps ++ [step]).foldl ingestAfter none = ingestAfter (steps.foldl ingestAfter none) step := by
  rw [List.foldl_append]
  rfl

/-- A hint stays where it is, or moves on. -/
theorem Hinted.mono (h : Hinted event path system)
    (hservice : system.service.Keeps after.service)
    (hwaits : Waits event system → Waits event after ∨ after.service.Marks path) :
    Hinted event path after := by
  rw [hinted_iff] at h ⊢
  obtain hwait | hmark := h
  · exact hwaits hwait
  · exact Or.inr (hservice.marks path hmark)

/-- What the end of an ingest leaves: hints of events it has not seen, and for the others the
ingest covered the path. -/
theorem Pursued.ended {cause : FireCause} {snapshot : Finset String}
    (h : Pursued event path steps system) (hphase : system.phase = .ingesting cause snapshot)
    (hcovers : EndsCovering path (cause, snapshot) step ∨
      (path ∉ snapshot ∧ after.service.resyncNeeded = system.service.resyncNeeded))
    (hqueue : after.queue = system.queue) (hoverflow : after.overflow = system.overflow) :
    Covered path (steps ++ [step]) ∨ Hinted event path after := by
  have hwaits : Waits event system → Waits event after := by
    rw [Waits, Waits, hqueue, hoverflow]
    exact id
  obtain hcovered | hrunning := h.running
  · exact Or.inl (hcovered.concat step)
  obtain hingest | hwait := hrunning cause snapshot hphase
  · obtain hends | ⟨hfresh, hresync⟩ := hcovers
    · exact Or.inl (covered_concat hingest hends)
    · obtain hcovered | hhinted := h.hinted
      · exact Or.inl (hcovered.concat step)
      · apply Or.inr
        rw [hinted_iff] at hhinted ⊢
        obtain hwait | hdirty | hneeded := hhinted
        · exact Or.inl (hwaits hwait)
        · rw [← Finmap.mem_keys] at hdirty
          exact absurd (h.stands cause snapshot hphase ▸ hdirty) hfresh
        · exact Or.inr (Or.inr (hresync.trans hneeded))
  · exact Or.inr (Or.inl (hwaits hwait) |> hinted_iff.mpr)

/-- One step keeps what is known of an offered event. -/
theorem Pursued.next (hpath : path ∈ (interestingEventPaths filter event).1)
    (h : Pursued event path steps system)
    (hstep : watchStep filter config system step = some after) :
    Pursued event path (steps ++ [step]) after := by
  have hstands : SnapshotStands after := h.stands.next hstep
  cases outcome_watchStep hstep with
  | callback hsame hphase hservice hqueue hoverflow =>
      have hwaits : Waits event system → Waits event after :=
        fun hwait => hwait.imp (hqueue _) hoverflow
      refine ⟨hstands, ?_, ?_⟩
      · refine h.hinted.imp (fun hcovered => hcovered.concat step) fun hhinted => ?_
        exact hhinted.mono (hservice ▸ WatchService.Keeps.refl _) fun hwait => Or.inl (hwaits hwait)
      · refine h.running.imp (fun hcovered => hcovered.concat step) fun hrunning => ?_
        intro cause snapshot hingesting
        rw [foldl_ingestAfter_concat, hsame]
        exact (hrunning cause snapshot (hphase ▸ hingesting)).imp id hwaits
  | quiet hsame hphase hservice hqueue hoverflow =>
      refine ⟨hstands, ?_, Or.inr fun cause snapshot hnext => absurd hnext (hphase cause snapshot)⟩
      refine h.hinted.imp (fun hcovered => hcovered.concat step) fun hhinted => ?_
      refine hhinted.mono hservice ?_
      rintro (hwait | hset)
      · exact Or.inl (Or.inl (hqueue ▸ hwait))
      · exact (hoverflow hset).imp Or.inr Or.inr
  | @received result rest now hqueue hphase hservice hnext hoverflow =>
      refine ⟨hstands, ?_, Or.inr fun cause snapshot hnext => absurd hnext (hphase cause snapshot)⟩
      refine h.hinted.imp (fun hcovered => hcovered.concat _) fun hhinted => ?_
      refine hhinted.mono (hservice ▸ WatchService.keeps_drainResult filter config now result _) ?_
      rintro (hwait | hset)
      · rw [hqueue, List.mem_cons] at hwait
        obtain rfl | hrest := hwait
        · apply Or.inr
          rw [hservice]
          exact WatchService.marks_drainResult config now _ hpath
        · exact Or.inl (Or.inl (hnext ▸ hrest))
      · exact Or.inl (Or.inr (hoverflow.trans hset))
  | refreshed hphase hservice hqueue hoverflow =>
      have hwaits : Waits event system → Waits event after :=
        fun hwait => hwait.imp (fun hmem => hqueue ▸ hmem) fun hset => hoverflow.trans hset
      refine ⟨hstands, ?_, ?_⟩
      · refine h.hinted.imp (fun hcovered => hcovered.concat _) fun hhinted => ?_
        have hkeeps : system.service.Keeps after.service :=
          hservice ▸ WatchService.Keeps.of_eq rfl rfl
        exact hhinted.mono hkeeps fun hwait => Or.inl (hwaits hwait)
      · refine h.running.imp (fun hcovered => hcovered.concat _) fun hrunning => ?_
        intro cause snapshot hingesting
        rw [foldl_ingestAfter_concat]
        exact (hrunning cause snapshot (hphase ▸ hingesting)).imp id hwaits
  | started hsnapshot hstarted =>
      subst hstarted
      refine ⟨hstands, h.hinted.imp (fun hcovered => hcovered.concat _) id, Or.inr ?_⟩
      intro cause snapshot hingesting
      cases hingesting
      rw [foldl_ingestAfter_concat]
      exact Or.inl rfl
  | @completed cause snapshot fullScan now hphase hcompleted =>
      subst hcompleted
      refine ⟨hstands, h.ended hphase ?_ rfl rfl, Or.inr fun _ _ hingesting => nomatch hingesting⟩
      cases hfull : fullScan with
      | true => exact Or.inl (Or.inl rfl)
      | false =>
          cases cause with
          | resync => exact Or.inl (Or.inr (Or.inl rfl))
          | dirty =>
              by_cases hmem : path ∈ snapshot
              · exact Or.inl (Or.inr (Or.inr hmem))
              · exact Or.inr ⟨hmem, rfl⟩
  | @skipped snapshot hphase hskipped =>
      subst hskipped
      refine ⟨hstands, h.ended hphase ?_ rfl rfl, Or.inr fun _ _ hingesting => nomatch hingesting⟩
      by_cases hmem : path ∈ snapshot
      · exact Or.inl hmem
      · exact Or.inr ⟨hmem, rfl⟩
  | failed hfailed =>
      subst hfailed
      exact ⟨hstands, h.hinted.imp (fun hcovered => hcovered.concat _) id,
        Or.inr fun _ _ hingesting => nomatch hingesting⟩

/-- An event that was just taken waits; one that was given up set the bit. -/
theorem Pursued.offered {step : WatchStep} (h : SnapshotStands system)
    (hstep : watchStep filter config system step = some after) (hoffers : Offers event step) :
    Pursued event path [] after := by
  have hwaits : Waits event after := by
    obtain rfl | rfl := hoffers
    · simp only [watchStep, callbackStep, Option.ite_none_right_eq_some,
        Option.some.injEq] at hstep
      obtain ⟨-, rfl⟩ := hstep
      exact Or.inl (List.mem_append_right _ (List.mem_singleton_self _))
    · simp only [watchStep, callbackStep, Option.ite_none_right_eq_some,
        Option.some.injEq] at hstep
      obtain ⟨-, rfl⟩ := hstep
      exact Or.inr rfl
  exact ⟨h.next hstep, Or.inr hwaits.hinted, Or.inr fun _ _ _ => Or.inr hwaits⟩

theorem snapshotStands_startWatch (config : WatchConfig) (roots : Finset String)
    (arm : String → Option String) (now : Nat) :
    SnapshotStands (startWatch config roots arm now) := by
  intro cause snapshot h
  cases h

/-- In every interleaving of callbacks with the loop, an interesting path of an offered event
is dirty, or its event is queued, or the overflow bit or the resync flag is set, until an
ingest that covers the path and began after the offer has ended without a failure. -/
theorem change_hints_not_lost {roots : Finset String} {arm : String → Option String} {now : Nat}
    {before steps : List WatchStep} {offer : WatchStep}
    (hrun : Transitions.run (watchStep filter config) (startWatch config roots arm now)
      (before ++ offer :: steps) = some system)
    (hoffers : Offers event offer) (hpath : path ∈ (interestingEventPaths filter event).1) :
    Covered path steps ∨ Hinted event path system := by
  obtain ⟨first, second, hfirst, hsecond, hsteps⟩ := Transitions.run_split_eq_some.mp hrun
  have hstands : SnapshotStands first :=
    Transitions.run_invariant (fun _ _ _ h hstep => h.next hstep)
      (snapshotStands_startWatch config roots arm now) hfirst
  have hpursued : Pursued event path steps system :=
    Transitions.run_history (fun _ _ _ _ h hstep => h.next hpath hstep)
      (Pursued.offered hstands hsecond hoffers) hsteps
  exact hpursued.hinted

/-- A transcript that is written while the first ingest runs. -/
def writtenTranscript : Event where
  kind := .modify
  paths := ["/sessions/a.jsonl"]

def plainFilter : WatchFilter where
  excluder := { set := none, canonicalize := fun _ => none }
  isConfiguredDatabase _ := false

theorem change_hints_not_lost_first_ingest :
    ∃ system,
      Transitions.run (watchStep plainFilter {}) (startWatch {} ∅ (fun _ => none) 0)
        [.start .resync ∅, .accept (.ok writtenTranscript), .complete true 1,
          .activatePending (fun _ => none) 2, .takeOverflow 3, .receive] = some system ∧
      (Covered "/sessions/a.jsonl" [.complete true 1, .activatePending (fun _ => none) 2,
          .takeOverflow 3, .receive] ∨
        Hinted writtenTranscript "/sessions/a.jsonl" system) := by
  refine ⟨_, rfl, ?_⟩
  have hrun : Transitions.run (watchStep plainFilter {}) (startWatch {} ∅ (fun _ => none) 0)
      ([WatchStep.start .resync ∅] ++ .accept (.ok writtenTranscript) :: [.complete true 1,
        .activatePending (fun _ => none) 2, .takeOverflow 3, .receive]) = some _ := rfl
  exact change_hints_not_lost hrun (Or.inl rfl) (by decide +kernel)

end Memex.Watch
