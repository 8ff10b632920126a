import Memex.Qt.ListSteps

/-! # The counter of the lists, the machines of the chart and their errors

`pending` counts the requests for sessions and projects that are waited for, the chart knows
the machines it waits for, and the errors tell which requests failed. -/

namespace Memex.Qt

open Sources

section Replies

/-- The requests of a kind that a generation made. -/
def madeFor (requests : List Issued) (kind : Kind) (generation : Nat) : Nat :=
  Outstanding.waiting (fun issued => decide (issued.request.kind = kind))
    (·.request.generation) generation requests

/-- The requests for a machine that a chart made. -/
def chartsFor (requests : List Issued) (machine : String) (activity : Nat) : Nat :=
  Outstanding.waiting (fun issued => decide (issued.request.kind = .activity machine))
    (·.request.activity) activity requests

/-- The reply to the last request of a kind that a generation made. -/
def lastReply (answered : List (Issued × Reply)) (kind : Kind) (generation : Nat) :
    Option Reply :=
  ((answered.filter fun entry => entry.1.request.kind = kind ∧
    entry.1.request.generation = generation).getLast?).map Prod.snd

/-- A reply is a failure. -/
def Failed (reply : Option Reply) : Prop := ∃ error, reply = some (.error error)

/-- A request of a kind failed in a generation. -/
def FailedIn (answered : List (Issued × Reply)) (kind : Kind) (generation : Nat) : Prop :=
  ∃ issued error, (issued, Except.error error) ∈ answered ∧ issued.request.kind = kind ∧
    issued.request.generation = generation

/-- The request of a chart for a machine failed. -/
def ChartFailed (answered : List (Issued × Reply)) (machine : String) (activity : Nat) : Prop :=
  ∃ issued error, (issued, Except.error error) ∈ answered ∧
    issued.request.kind = .activity machine ∧ issued.request.activity = activity

variable {answered : List (Issued × Reply)} {issued : Issued} {reply : Reply} {kind : Kind}
  {generation : Nat}

theorem lastReply_concat :
    lastReply (answered ++ [(issued, reply)]) kind generation =
      if issued.request.kind = kind ∧ issued.request.generation = generation then some reply
      else lastReply answered kind generation := by
  rw [lastReply, List.filter_append, List.filter_singleton]
  split
  next h =>
    rw [decide_eq_true h, cond_true, List.getLast?_concat]
    rfl
  next h =>
    rw [decide_eq_false h, cond_false, List.append_nil]
    rfl

/-- A generation that made no request of a kind has no reply to one. -/
theorem lastReply_eq_none (h : madeFor (answered.map Prod.fst) kind generation = 0) :
    lastReply answered kind generation = none := by
  rw [lastReply, Option.map_eq_none_iff, List.getLast?_eq_none_iff, List.filter_eq_nil_iff]
  intro entry hmem hmade
  rw [decide_eq_true_iff] at hmade
  have hzero := List.countP_eq_zero.mp h entry.1 (List.mem_map_of_mem hmem)
  apply hzero
  rw [Outstanding.waits_iff, decide_eq_true_iff]
  exact hmade

theorem failedIn_concat :
    FailedIn (answered ++ [(issued, reply)]) kind generation ↔
      FailedIn answered kind generation ∨
        ((∃ error, reply = .error error) ∧ issued.request.kind = kind ∧
          issued.request.generation = generation) := by
  constructor
  · rintro ⟨other, error, hmem, hkind, hgeneration⟩
    obtain hmem | hmem := List.mem_append.mp hmem
    · exact Or.inl ⟨other, error, hmem, hkind, hgeneration⟩
    · obtain ⟨rfl, rfl⟩ := Prod.mk.inj (List.mem_singleton.mp hmem)
      exact Or.inr ⟨⟨error, rfl⟩, hkind, hgeneration⟩
  · rintro (⟨other, error, hmem, hkind⟩ | ⟨⟨error, rfl⟩, hkind⟩)
    · exact ⟨other, error, List.mem_append_left _ hmem, hkind⟩
    · exact ⟨issued, error, List.mem_append_right _ (List.mem_singleton_self _), hkind⟩

theorem chartFailed_concat {machine : String} {activity : Nat} :
    ChartFailed (answered ++ [(issued, reply)]) machine activity ↔
      ChartFailed answered machine activity ∨
        ((∃ error, reply = .error error) ∧ issued.request.kind = .activity machine ∧
          issued.request.activity = activity) := by
  constructor
  · rintro ⟨other, error, hmem, hkind, hactivity⟩
    obtain hmem | hmem := List.mem_append.mp hmem
    · exact Or.inl ⟨other, error, hmem, hkind, hactivity⟩
    · obtain ⟨rfl, rfl⟩ := Prod.mk.inj (List.mem_singleton.mp hmem)
      exact Or.inr ⟨⟨error, rfl⟩, hkind, hactivity⟩
  · rintro (⟨other, error, hmem, hkind⟩ | ⟨⟨error, rfl⟩, hkind⟩)
    · exact ⟨other, error, List.mem_append_left _ hmem, hkind⟩
    · exact ⟨issued, error, List.mem_append_right _ (List.mem_singleton_self _), hkind⟩

end Replies

/-- The requests for the sessions and the projects. -/
structure LoadBooks (answered : List (Issued × Reply)) (store : Store) : Prop where
  balanced : store.Balanced .lists
  sessionsOnce : ∀ machine,
    madeFor store.requests (.sessions machine) store.epochs.generation ≤ 1
  projectsOnce : ∀ machine,
    madeFor store.requests (.projects machine) store.epochs.generation +
      madeFor (answered.map Prod.fst) (.projects machine) store.epochs.generation ≤ 1
  projects : ∀ machine, (store.lists.errors (.projects machine)).isSome = true ↔
    Failed (lastReply answered (.projects machine) store.epochs.generation)
  sessionsFailed : ∀ machine,
    Failed (lastReply answered (.sessions machine) store.epochs.generation) →
      (store.lists.errors (.sessions machine)).isSome = true
  sessionsError : ∀ machine, (store.lists.errors (.sessions machine)).isSome = true →
    FailedIn answered (.sessions machine) store.epochs.generation

/-- A request for a chart. -/
def isChart : Kind → Bool
  | .activity _ => true
  | _ => false

/-- The failures of a chart are those of the requests that it made; all are answered. -/
structure KeptChart (answered : List (Issued × Reply)) (requests : List Issued)
    (failures : AList fun _ : String => String) (activity : Nat) : Prop where
  settled : ∀ issued ∈ requests, isChart issued.request.kind = true →
    issued.request.activity ≠ activity
  failures : ∀ machine, (failures.lookup machine).isSome = true ↔
    ChartFailed answered machine activity

/-- No chart of the present epoch was asked for. -/
def Unasked (answered : List (Issued × Reply)) (store : Store) : Prop :=
  ∀ issued ∈ store.requests ++ answered.map Prod.fst, isChart issued.request.kind = true →
    issued.request.activity ≠ store.epochs.activity

instance (answered : List (Issued × Reply)) (store : Store) : Decidable (Unasked answered store) :=
  inferInstanceAs (Decidable (∀ issued ∈ store.requests ++ answered.map Prod.fst,
    isChart issued.request.kind = true → issued.request.activity ≠ store.epochs.activity))

/-- A saved state that comes now changes the settings only where it refreshes. -/
def Store.Settled (store : Store) : Prop :=
  0 < store.epochs.generation ∨ store.lists.configured = true

/-- The chart whose failures are shown: the one asked for last, one that is kept under the
criteria and the metric, or none of any machine. -/
inductive ChartSource (answered : List (Issued × Reply)) (store : Store) : Prop where
  | asked (hasked : ¬ Unasked answered store)
      (failures : ∀ machine, (store.charts.activityFailures.lookup machine).isSome = true ↔
        ChartFailed answered machine store.epochs.activity)
  | kept (hunasked : Unasked answered store) (hsettled : store.Settled) (cache : ActivityCache)
      (found : store.charts.activityCaches.lookup store.lists.activityKey = some cache)
      (hkept : KeptChart answered store.requests store.charts.activityFailures cache.epoch)
  | empty (hunasked : Unasked answered store)
      (hnone : store.charts.activityCaches = [] ∨ store.lists.ids = [])
      (failures : store.charts.activityFailures = ∅)

/-- The requests for the chart. -/
structure ChartBooks (answered : List (Issued × Reply)) (store : Store) : Prop where
  balanced : ∀ machine, store.Balanced (.chart machine)
  status : store.charts.status.activityPendingMachines = store.charts.activityPending
  nodup : store.charts.activityPending.Nodup
  errors : ∀ machine, store.lists.errors (.activity machine) =
    store.charts.activityFailures.lookup machine
  stamped : ∀ issued ∈ store.requests, isChart issued.request.kind = true →
    issued.request.activity = store.epochs.activity →
      issued.request.generation = store.epochs.generation
  once : ∀ machine, chartsFor store.requests machine store.epochs.activity +
    chartsFor (answered.map Prod.fst) machine store.epochs.activity ≤ 1
  machines : ∀ issued ∈ store.requests, isChart issued.request.kind = true →
    issued.request.activity = store.epochs.activity → store.lists.ids ≠ []
  source : ChartSource answered store

/-- What the lists and the chart need of the store before they are asked for again. -/
structure ListBase (answered : List (Issued × Reply)) (store : Store) : Prop where
  past : store.Past
  replied : ∀ entry ∈ answered, entry.1.request.toEpochs ≤ store.epochs
  machines : store.lists.machines.Nodup
  caches : ∀ entry ∈ store.charts.activityCaches, entry.2.complete = true →
    entry.2.epoch ≤ store.epochs.activity ∧
      KeptChart answered store.requests entry.2.failures entry.2.epoch
  keyed : ∀ entry ∈ store.charts.activityCaches, entry.1.1.ids ≠ []
  revisions : ∀ entry ∈ store.charts.activityCaches,
    entry.2.revision ≤ store.charts.activityRevision

theorem ids_nodup {lists : Lists} (h : lists.machines.Nodup) : lists.ids.Nodup := by
  rw [Lists.ids]
  split
  · exact h
  · exact List.nodup_singleton _

section Counting

variable {answered : List (Issued × Reply)} {store : Store} {issued : Issued} {reply : Reply}
  {kind : Kind} {generation index : Nat}

/-- A reply takes a request from those on their way to those that were answered. -/
theorem madeFor_answered (h : store.requests[index]? = some issued) :
    madeFor (store.answered index).requests kind generation +
        madeFor ((answered ++ [(issued, reply)]).map Prod.fst) kind generation =
      madeFor store.requests kind generation +
        madeFor (answered.map Prod.fst) kind generation := by
  have herase : madeFor store.requests kind generation =
      madeFor (store.answered index).requests kind generation +
        madeFor [issued] kind generation := by
    rw [madeFor, madeFor, madeFor, Outstanding.waiting_eraseIdx h, Outstanding.waiting_singleton]
    rfl
  have happend : madeFor ((answered ++ [(issued, reply)]).map Prod.fst) kind generation =
      madeFor (answered.map Prod.fst) kind generation + madeFor [issued] kind generation := by
    rw [List.map_append]
    exact Outstanding.waiting_append
  omega

theorem chartsFor_answered {machine : String} {activity : Nat}
    (h : store.requests[index]? = some issued) :
    chartsFor (store.answered index).requests machine activity +
        chartsFor ((answered ++ [(issued, reply)]).map Prod.fst) machine activity =
      chartsFor store.requests machine activity +
        chartsFor (answered.map Prod.fst) machine activity := by
  have herase : chartsFor store.requests machine activity =
      chartsFor (store.answered index).requests machine activity +
        chartsFor [issued] machine activity := by
    rw [chartsFor, chartsFor, chartsFor, Outstanding.waiting_eraseIdx h,
      Outstanding.waiting_singleton]
    rfl
  have happend : chartsFor ((answered ++ [(issued, reply)]).map Prod.fst) machine activity =
      chartsFor (answered.map Prod.fst) machine activity + chartsFor [issued] machine activity := by
    rw [List.map_append]
    exact Outstanding.waiting_append
  omega

/-- Requests made machine by machine are counted machine by machine. -/
theorem waiting_flatMap {ofKind : Issued → Bool} {π : Type} [DecidableEq π] {stamp : Issued → π}
    {present : π} {made : String → List Issued} {count : String → Nat}
    (h : ∀ id, Outstanding.waiting ofKind stamp present (made id) = count id)
    (ids : List String) :
    Outstanding.waiting ofKind stamp present (ids.flatMap made) = (ids.map count).sum := by
  induction ids with
  | nil => rfl
  | cons id rest ih =>
      rw [List.flatMap_cons, Outstanding.waiting_append, h, ih, List.map_cons, List.sum_cons]

theorem sum_map_const (ids : List String) (count : Nat) :
    (ids.map fun _ => count).sum = count * ids.length := by
  induction ids with
  | nil => rfl
  | cons id rest ih =>
      rw [List.map_cons, List.sum_cons, ih, List.length_cons, Nat.mul_succ, Nat.add_comm]

theorem sum_map_ite (ids : List String) (machine : String) :
    (ids.map fun id => if id = machine then 1 else 0).sum = ids.count machine := by
  induction ids with
  | nil => rfl
  | cons id rest ih =>
      rw [List.map_cons, List.sum_cons, ih, List.count_cons, Nat.add_comm]
      simp only [beq_iff_eq]

/-- The requests of a kind in the present generation are among those that `pending` counts. -/
theorem madeFor_le_waiting (hkind : Channel.lists.carries kind = true) :
    madeFor store.requests kind store.epochs.generation ≤ store.waiting .lists := by
  rw [Store.waiting_eq]
  apply List.countP_mono_left
  intro issued _ hwaits
  rw [Outstanding.waits_iff] at hwaits ⊢
  obtain ⟨heq, hgeneration⟩ := hwaits
  rw [decide_eq_true_iff] at heq
  refine ⟨heq ▸ hkind, ?_⟩
  rw [Channel.part, Channel.part, hgeneration]

end Counting

namespace LoadBooks

variable {answered : List (Issued × Reply)} {store after : Store} {issued : Issued}
  {reply : Reply} {index : Nat}

/-- What the books of the lists depend on. -/
theorem frame (h : LoadBooks answered store) {kinds : Kind → Prop}
    (hstep : Extends kinds store after)
    (hkinds : ∀ kind, kinds kind → Channel.lists.carries kind = false)
    (hgeneration : after.epochs.generation = store.epochs.generation)
    (hpending : after.lists.pending = store.lists.pending)
    (hsessions : ∀ machine, after.lists.errors (.sessions machine) =
      store.lists.errors (.sessions machine))
    (hprojects : ∀ machine, after.lists.errors (.projects machine) =
      store.lists.errors (.projects machine)) : LoadBooks answered after := by
  have hmade : ∀ kind, Channel.lists.carries kind = true →
      madeFor after.requests kind store.epochs.generation =
        madeFor store.requests kind store.epochs.generation := by
    intro kind hcarries
    obtain ⟨made, hmade, hmem⟩ := hstep.requests
    rw [hmade]
    apply Outstanding.waiting_append_other
    intro issued hissued
    apply decide_eq_false
    rintro rfl
    rw [hkinds _ (hmem issued hissued).1] at hcarries
    cases hcarries
  refine ⟨?_, ?_, ?_, ?_, ?_, ?_⟩
  · refine (hstep.waiting_eq hkinds ?_).trans (h.balanced.trans hpending.symm)
    rw [Channel.part, Channel.part, hgeneration]
  · intro machine
    rw [hgeneration, hmade _ rfl]
    exact h.sessionsOnce machine
  · intro machine
    rw [hgeneration, hmade _ rfl]
    exact h.projectsOnce machine
  · intro machine
    rw [hgeneration, hprojects]
    exact h.projects machine
  · intro machine
    rw [hgeneration, hsessions]
    exact h.sessionsFailed machine
  · intro machine
    rw [hgeneration, hsessions]
    exact h.sessionsError machine

/-- A reply that the counter does not stand for leaves the books as they are. -/
theorem answer_other (h : LoadBooks answered store)
    (hindex : store.requests[index]? = some issued)
    (hother : Channel.lists.carries issued.request.kind = true →
      issued.request.generation ≠ store.epochs.generation) :
    LoadBooks (answered ++ [(issued, reply)]) (store.answered index) := by
  have hunmatched : ∀ kind, Channel.lists.carries kind = true →
      ¬ (issued.request.kind = kind ∧
        issued.request.generation = store.epochs.generation) := by
    rintro kind hkind ⟨rfl, hgeneration⟩
    exact hother hkind hgeneration
  have hlast : ∀ kind, Channel.lists.carries kind = true →
      lastReply (answered ++ [(issued, reply)]) kind store.epochs.generation =
        lastReply answered kind store.epochs.generation := by
    intro kind hkind
    rw [lastReply_concat, if_neg (hunmatched kind hkind)]
  refine ⟨?_, ?_, ?_, ?_, ?_, ?_⟩
  · have hcount := @Store.waiting_answered store .lists index issued hindex
    rw [if_neg, Nat.add_zero] at hcount
    · exact hcount.symm.trans h.balanced
    · rw [Store.waits_eq, Outstanding.waits_iff]
      rintro ⟨hcarries, hpart⟩
      exact hother hcarries (congrArg Prod.fst hpart)
  · intro machine
    refine le_trans ?_ (h.sessionsOnce machine)
    have hcount := @madeFor_answered [] store issued reply (.sessions machine)
      store.epochs.generation index hindex
    exact le_trans (Nat.le_add_right _ _) hcount.le
  · intro machine
    exact (madeFor_answered hindex).trans_le (h.projectsOnce machine)
  · intro machine
    rw [show (store.answered index).epochs = store.epochs from rfl, hlast _ rfl]
    exact h.projects machine
  · intro machine
    rw [show (store.answered index).epochs = store.epochs from rfl, hlast _ rfl]
    exact h.sessionsFailed machine
  · intro machine hsome
    exact failedIn_concat.mpr (Or.inl (h.sessionsError machine hsome))

/-- The requests for one machine, counted. -/
theorem madeFor_load (store : Store) (now : Int) (kind : Kind) (id : String) :
    madeFor (store.loadRequests now id) kind store.epochs.generation =
      (if Kind.sessions id = kind then 1 else 0) + if Kind.count id = kind then 1 else 0 := by
  rw [madeFor, Store.loadRequests]
  simp only [Outstanding.waiting, List.countP_cons, List.countP_nil, Outstanding.waits,
    Store.issue, Bool.and_eq_true, decide_eq_true_eq, decide_true, and_true, Nat.zero_add]
  omega

/-- The requests of `refresh` for one machine, counted. -/
theorem madeFor_refresh (store : Store) (now : Int) (kind : Kind) (id : String) :
    madeFor (store.loadRequests now id ++ [store.issue (.projects id) (.projects id)]) kind
        store.epochs.generation =
      (if Kind.sessions id = kind then 1 else 0) + (if Kind.count id = kind then 1 else 0) +
        if Kind.projects id = kind then 1 else 0 := by
  have hprojects : Outstanding.waits (fun issued => decide (issued.request.kind = kind))
      (·.request.generation) store.epochs.generation
      (store.issue (.projects id) (.projects id)) = true ↔ Kind.projects id = kind := by
    rw [Outstanding.waits_iff, decide_eq_true_iff]
    exact and_iff_left rfl
  have hload := madeFor_load store now kind id
  rw [madeFor] at hload ⊢
  rw [Outstanding.waiting_append, Outstanding.waiting_singleton, hload]
  simp only [hprojects]

theorem waiting_refresh (store : Store) (now : Int) (id : String) :
    Outstanding.waiting (Channel.lists.carries ·.request.kind)
      (Channel.lists.part ·.request.toEpochs) (Channel.lists.part store.epochs)
      (store.loadRequests now id ++ [store.issue (.projects id) (.projects id)]) = 2 := by
  rw [Outstanding.waiting_append, Outstanding.waiting_singleton, Store.loadRequests]
  simp [Outstanding.waiting, Outstanding.waits, Store.issue, Channel.carries]

theorem waiting_load (store : Store) (now : Int) (id : String) :
    Outstanding.waiting (Channel.lists.carries ·.request.kind)
      (Channel.lists.part ·.request.toEpochs) (Channel.lists.part store.epochs)
      (store.loadRequests now id) = 1 := by
  rw [Store.loadRequests]
  simp [Outstanding.waiting, Outstanding.waits, Store.issue, Channel.carries]

/-- The next generation has made and answered nothing yet. -/
theorem madeFor_next {requests : List Issued} {generation : Nat} {kind : Kind}
    (h : ∀ issued ∈ requests, issued.request.generation ≤ generation) :
    madeFor requests kind (generation + 1) = 0 :=
  Outstanding.waiting_eq_zero_of_lt h (Nat.lt_succ_self _)

/-- The books after `refresh` has asked for the lists. -/
theorem loaded (hopen : store.shuttingDown = false) (hbase : ListBase answered store)
    (now : Int) : LoadBooks answered (store.loaded now) := by
  obtain ⟨-, hepochs, hpending, -, -, herrors, hrequests⟩ := Store.loaded_spec store now
  have hgeneration : (store.loaded now).epochs.generation = store.epochs.generation + 1 := by
    rw [hepochs]
  have hids := ids_nodup hbase.machines
  have hmade : ∀ kind, madeFor (store.loaded now).requests kind (store.epochs.generation + 1) =
      (store.lists.ids.map fun id => (if Kind.sessions id = kind then 1 else 0) +
        (if Kind.count id = kind then 1 else 0) +
          if Kind.projects id = kind then 1 else 0).sum := by
    intro kind
    have hold : madeFor store.requests kind (store.epochs.generation + 1) = 0 :=
      madeFor_next fun issued hmem => (Epochs.le_iff.mp (hbase.past issued hmem)).1
    rw [hrequests hopen, madeFor, Outstanding.waiting_append]
    rw [madeFor] at hold
    rw [hold, Nat.zero_add]
    exact waiting_flatMap (madeFor_refresh store.cleared now kind) _
  have hanswered : ∀ kind,
      madeFor (answered.map Prod.fst) kind (store.epochs.generation + 1) = 0 := by
    intro kind
    apply madeFor_next
    intro issued hmem
    obtain ⟨entry, hentry, rfl⟩ := List.mem_map.mp hmem
    exact (Epochs.le_iff.mp (hbase.replied entry hentry)).1
  have hlast : ∀ kind, lastReply answered kind (store.loaded now).epochs.generation = none := by
    intro kind
    rw [hgeneration]
    exact lastReply_eq_none (hanswered kind)
  refine ⟨?_, ?_, ?_, ?_, ?_, ?_⟩
  · have hold : Outstanding.waiting (Channel.lists.carries ·.request.kind)
        (Channel.lists.part ·.request.toEpochs)
        (Channel.lists.part { store.epochs with generation := store.epochs.generation + 1 })
        store.requests = 0 := by
      apply Outstanding.waiting_eq_zero_of_lt
        (fun issued hmem => Channel.lists.part_mono (hbase.past issued hmem))
      exact Prod.mk_lt_mk_iff_left.mpr (Nat.lt_succ_self _)
    have hnew := waiting_flatMap (waiting_refresh store.cleared now) store.lists.ids
    rw [sum_map_const] at hnew
    rw [Store.Balanced, Store.waiting_eq, hepochs, hrequests hopen, Outstanding.waiting_append,
      hold, Nat.zero_add, Store.indicator, hpending]
    exact hnew
  · intro machine
    rw [hgeneration, hmade]
    simp only [Kind.sessions.injEq, reduceCtorEq, if_false, Nat.add_zero]
    rw [sum_map_ite]
    exact List.nodup_iff_count_le_one.mp hids machine
  · intro machine
    rw [hgeneration, hmade, hanswered]
    simp only [Kind.projects.injEq, reduceCtorEq, if_false, Nat.zero_add, Nat.add_zero]
    rw [sum_map_ite]
    exact List.nodup_iff_count_le_one.mp hids machine
  · intro machine
    rw [herrors, hlast]
    constructor
    · intro hsome
      cases hsome
    · rintro ⟨error, hfailed⟩
      cases hfailed
  · intro machine hfailed
    rw [hlast] at hfailed
    obtain ⟨_, h⟩ := hfailed
    cases h
  · intro machine hsome
    rw [herrors] at hsome
    cases hsome

/-- Further pages of the lists are asked for once nothing is waited for. -/
theorem load (hmachines : store.lists.machines.Nodup) (h : LoadBooks answered store) (now : Int)
    (hidle : store.lists.pending = 0) (hepochs : after.epochs = store.epochs)
    (hpending : after.lists.pending = store.lists.ids.length)
    (herrors : after.lists.errors = store.lists.errors)
    (hrequests : after.requests =
      store.requests ++ store.lists.ids.flatMap (store.raiseLimit.loadRequests now)) :
    LoadBooks answered after := by
  have hzero : store.waiting .lists = 0 := h.balanced.trans hidle
  have hgeneration : after.epochs.generation = store.epochs.generation := by rw [hepochs]
  have hmade : ∀ kind, Channel.lists.carries kind = true →
      madeFor after.requests kind store.epochs.generation =
        (store.lists.ids.map fun id => (if Kind.sessions id = kind then 1 else 0) +
          if Kind.count id = kind then 1 else 0).sum := by
    intro kind hkind
    have hold : madeFor store.requests kind store.epochs.generation = 0 :=
      Nat.le_zero.mp (hzero ▸ madeFor_le_waiting hkind)
    rw [hrequests, madeFor, Outstanding.waiting_append]
    rw [madeFor] at hold
    rw [hold, Nat.zero_add]
    exact waiting_flatMap (madeFor_load store.raiseLimit now kind) _
  refine ⟨?_, ?_, ?_, ?_, ?_, ?_⟩
  · have hnew := waiting_flatMap (waiting_load store.raiseLimit now) store.lists.ids
    rw [sum_map_const, Nat.one_mul] at hnew
    rw [Store.waiting_eq] at hzero
    rw [Store.Balanced, Store.waiting_eq, hepochs, hrequests, Outstanding.waiting_append, hzero,
      Nat.zero_add, Store.indicator, hpending]
    exact hnew
  · intro machine
    rw [hgeneration, hmade _ rfl]
    simp only [Kind.sessions.injEq, reduceCtorEq, if_false, Nat.add_zero]
    rw [sum_map_ite]
    exact List.nodup_iff_count_le_one.mp (ids_nodup hmachines) machine
  · intro machine
    rw [hgeneration, hmade _ rfl]
    simp only [reduceCtorEq, if_false, Nat.add_zero]
    rw [sum_map_const, Nat.zero_mul, Nat.zero_add]
    exact le_trans (Nat.le_add_left _ _) (h.projectsOnce machine)
  · intro machine
    rw [hgeneration, herrors]
    exact h.projects machine
  · intro machine
    rw [hgeneration, herrors]
    exact h.sessionsFailed machine
  · intro machine
    rw [hgeneration, herrors]
    exact h.sessionsError machine

theorem moreSessions (hopen : store.shuttingDown = false) (hmachines : store.lists.machines.Nodup)
    (h : LoadBooks answered store) (now : Int) :
    LoadBooks answered (store.moreSessions now) := by
  rw [Store.moreSessions]
  split
  next hidle =>
    obtain ⟨-, hepochs, hlists⟩ :=
      @Store.foldl_loadMachine now store.raiseLimit.lists.ids store.raiseLimit
    refine h.load hmachines now hidle.1 hepochs ?_ ?_ ?_
    · rw [hlists]
      exact (congrArg (· + _) hidle.1).trans (Nat.zero_add _)
    · rw [hlists]
      rfl
    · exact @Store.requests_foldl_loadMachine now store.raiseLimit.lists.ids store.raiseLimit hopen
  next => exact h

section Current

variable (h : LoadBooks answered store) (hindex : store.requests[index]? = some issued)
  (hgeneration : issued.request.generation = store.epochs.generation)

include h hindex hgeneration

/-- A request that the counter stands for is answered. -/
theorem waiting_answered (hcarries : Channel.lists.carries issued.request.kind = true) :
    (store.answered index).waiting .lists + 1 = store.lists.pending := by
  have hcount := @Store.waiting_answered store .lists index issued hindex
  rw [if_pos] at hcount
  · exact hcount.symm.trans h.balanced
  · rw [Store.waits_eq, Outstanding.waits_iff]
    refine ⟨hcarries, ?_⟩
    rw [Channel.part, Channel.part, hgeneration]

/-- The books after a reply that the counter stands for. -/
theorem answer (hcarries : Channel.lists.carries issued.request.kind = true)
    (hepochs : after.epochs = store.epochs)
    (hrequests : after.requests = (store.answered index).requests)
    (hpending : after.lists.pending = store.lists.pending - 1)
    (hprojects : ∀ machine, (after.lists.errors (.projects machine)).isSome = true ↔
      (store.lists.errors (.projects machine)).isSome = true ∨
        (issued.request.kind = .projects machine ∧ ∃ error, reply = .error error))
    (hsessions : ∀ machine, (after.lists.errors (.sessions machine)).isSome = true ↔
      (store.lists.errors (.sessions machine)).isSome = true ∨
        (issued.request.kind = .sessions machine ∧ ∃ error, reply = .error error)) :
    LoadBooks (answered ++ [(issued, reply)]) after := by
  have hgen : after.epochs.generation = store.epochs.generation := by rw [hepochs]
  have hlast : ∀ kind, lastReply (answered ++ [(issued, reply)]) kind store.epochs.generation =
      if issued.request.kind = kind then some reply
      else lastReply answered kind store.epochs.generation := by
    intro kind
    rw [lastReply_concat]
    simp only [hgeneration, and_true]
  have hnone : ∀ machine, issued.request.kind = .projects machine →
      lastReply answered (.projects machine) store.epochs.generation = none := by
    intro machine hkind
    apply lastReply_eq_none
    have honce := h.projectsOnce machine
    have hmade : 0 < madeFor store.requests (.projects machine) store.epochs.generation := by
      apply Outstanding.waiting_pos_iff.mpr
      refine ⟨issued, List.mem_of_getElem? hindex, Outstanding.waits_iff.mpr ⟨?_, hgeneration⟩⟩
      exact decide_eq_true hkind
    omega
  refine ⟨?_, ?_, ?_, ?_, ?_, ?_⟩
  · have hcount := h.waiting_answered hindex hgeneration hcarries
    rw [Store.Balanced, Store.waiting_congr (by rw [hepochs]; rfl) hrequests, Store.indicator,
      hpending]
    omega
  · intro machine
    rw [hgen, hrequests]
    refine le_trans ?_ (h.sessionsOnce machine)
    have hcount := @madeFor_answered [] store issued reply (.sessions machine)
      store.epochs.generation index hindex
    exact le_trans (Nat.le_add_right _ _) hcount.le
  · intro machine
    rw [hgen, hrequests]
    exact (madeFor_answered hindex).trans_le (h.projectsOnce machine)
  · intro machine
    rw [hgen, hprojects, hlast]
    by_cases hkind : issued.request.kind = .projects machine
    · have hquiet : ¬ (store.lists.errors (.projects machine)).isSome = true := by
        rw [h.projects, hnone machine hkind]
        rintro ⟨error, hfailed⟩
        cases hfailed
      rw [if_pos hkind]
      constructor
      · rintro (hsome | ⟨-, error, rfl⟩)
        · exact absurd hsome hquiet
        · exact ⟨error, rfl⟩
      · rintro ⟨error, herror⟩
        exact Or.inr ⟨hkind, error, Option.some.inj herror⟩
    · rw [if_neg hkind, ← h.projects]
      exact ⟨fun hor => hor.elim id fun hand => absurd hand.1 hkind, Or.inl⟩
  · intro machine hfailed
    rw [hgen, hlast] at hfailed
    rw [hsessions]
    by_cases hkind : issued.request.kind = .sessions machine
    · rw [if_pos hkind] at hfailed
      obtain ⟨error, herror⟩ := hfailed
      exact Or.inr ⟨hkind, error, Option.some.inj herror⟩
    · rw [if_neg hkind] at hfailed
      exact Or.inl (h.sessionsFailed machine hfailed)
  · intro machine hsome
    rw [hgen, failedIn_concat]
    obtain hsome | ⟨hkind, herror⟩ := (hsessions machine).mp hsome
    · exact Or.inl (h.sessionsError machine hsome)
    · exact Or.inr ⟨herror, hkind, hgeneration⟩

end Current

end LoadBooks

end Memex.Qt
