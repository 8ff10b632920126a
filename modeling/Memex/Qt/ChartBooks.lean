import Memex.Qt.ListBooks

/-! # The books of the chart, and the books in every run

The chart waits for one request of each machine and keeps the failures of the chart that it
shows. With the books of the lists and of the reader, every indicator is right in every run. -/

namespace Memex.Qt

open Sources

section Facts

variable {answered : List (Issued × Reply)} {store after : Store} {issued : Issued}
  {reply : Reply} {index : Nat}

theorem isChart_iff {kind : Kind} : isChart kind = true ↔ ∃ machine, kind = .activity machine := by
  cases kind with
  | activity machine => exact ⟨fun _ => ⟨machine, rfl⟩, fun _ => rfl⟩
  | _ =>
      refine ⟨fun h => absurd h Bool.false_ne_true, ?_⟩
      rintro ⟨machine, h⟩
      cases h

theorem isChart_of_carries {kind : Kind} {machine : String}
    (h : (Channel.chart machine).carries kind = true) : isChart kind = true := by
  cases kind <;> first | rfl | exact absurd h Bool.false_ne_true

theorem KeptChart.answer {failures : AList fun _ : String => String} {activity : Nat}
    (h : KeptChart answered store.requests failures activity)
    (hindex : store.requests[index]? = some issued) :
    KeptChart (answered ++ [(issued, reply)]) (store.answered index).requests failures
      activity where
  settled other hmem := h.settled other (List.mem_of_mem_eraseIdx hmem)
  failures machine := by
    rw [h.failures, chartFailed_concat]
    refine ⟨Or.inl, ?_⟩
    rintro (hfailed | ⟨-, hkind, hactivity⟩)
    · exact hfailed
    · have hchart : isChart issued.request.kind = true := isChart_iff.mpr ⟨machine, hkind⟩
      exact absurd hactivity (h.settled issued (List.mem_of_getElem? hindex) hchart)

theorem KeptChart.extend {kinds : Kind → Prop} {failures : AList fun _ : String => String}
    {activity : Nat} (h : KeptChart answered store.requests failures activity)
    (hstep : Extends kinds store after) (hkinds : ∀ kind, kinds kind → isChart kind = false) :
    KeptChart answered after.requests failures activity where
  settled issued hmem hchart := by
    obtain ⟨made, hmade, hnew⟩ := hstep.requests
    rw [hmade] at hmem
    obtain hmem | hmem := List.mem_append.mp hmem
    · exact h.settled issued hmem hchart
    · rw [hkinds _ (hnew issued hmem).1] at hchart
      cases hchart
  failures := h.failures

/-- A chart that was not asked for has no failures. -/
theorem not_chartFailed {machine : String} {activity : Nat}
    (h : chartsFor (answered.map Prod.fst) machine activity = 0) :
    ¬ ChartFailed answered machine activity := by
  rintro ⟨issued, error, hmem, hkind, hactivity⟩
  have hzero := List.countP_eq_zero.mp h issued (List.mem_map_of_mem hmem)
  exact hzero (Outstanding.waits_iff.mpr ⟨decide_eq_true hkind, hactivity⟩)

/-- A reply changes nothing about what was asked for. -/
theorem unasked_answered (hindex : store.requests[index]? = some issued) :
    Unasked (answered ++ [(issued, reply)]) (store.answered index) ↔ Unasked answered store := by
  obtain ⟨hlt, rfl⟩ := List.getElem?_eq_some_iff.mp hindex
  have hmem : ∀ other, other ∈ (store.answered index).requests ++
      (answered ++ [(store.requests[index], reply)]).map Prod.fst ↔
        other ∈ store.requests ++ answered.map Prod.fst := by
    intro other
    have herase := (List.getElem_cons_eraseIdx_perm hlt).mem_iff (a := other)
    rw [List.mem_cons] at herase
    rw [List.map_append, List.mem_append, List.mem_append, List.mem_append, ← herase,
      Store.answered]
    simp only [List.map_cons, List.map_nil, List.mem_singleton]
    tauto
  exact forall_congr' fun other => imp_congr_left (hmem other)

end Facts

namespace ListBase

variable {answered : List (Issued × Reply)} {store after : Store} {issued : Issued}
  {reply : Reply} {index : Nat}

theorem extend {kinds : Kind → Prop} (h : ListBase answered store)
    (hstep : Extends kinds store after) (hkinds : ∀ kind, kinds kind → isChart kind = false)
    (hmachines : after.lists.machines.Nodup)
    (hcaches : after.charts.activityCaches = store.charts.activityCaches)
    (hrevision : store.charts.activityRevision ≤ after.charts.activityRevision) :
    ListBase answered after where
  past := hstep.past h.past
  replied entry hmem := (h.replied entry hmem).trans hstep.epochs
  machines := hmachines
  caches entry hmem hcomplete := by
    rw [hcaches] at hmem
    obtain ⟨hle, hkept⟩ := h.caches entry hmem hcomplete
    have hactivity := (Epochs.le_iff.mp hstep.epochs).2.2.2.1
    exact ⟨hle.trans hactivity, hkept.extend hstep hkinds⟩
  keyed := by
    rw [hcaches]
    exact h.keyed
  revisions entry hmem := by
    rw [hcaches] at hmem
    exact (h.revisions entry hmem).trans hrevision

theorem answer (h : ListBase answered store) (hindex : store.requests[index]? = some issued) :
    ListBase (answered ++ [(issued, reply)]) (store.answered index) where
  past other hmem := h.past other (List.mem_of_mem_eraseIdx hmem)
  replied entry hmem := by
    obtain hmem | hmem := List.mem_append.mp hmem
    · exact h.replied entry hmem
    · obtain rfl := List.mem_singleton.mp hmem
      exact h.past issued (List.mem_of_getElem? hindex)
  machines := h.machines
  caches entry hmem hcomplete := by
    obtain ⟨hle, hkept⟩ := h.caches entry hmem hcomplete
    exact ⟨hle, hkept.answer hindex⟩
  keyed := h.keyed
  revisions := h.revisions

/-- What `refreshActivity` leaves is a base for the next time. -/
theorem refreshActivity (hopen : store.shuttingDown = false) (h : ListBase answered store)
    (now : Int) : ListBase answered (store.refreshActivity now) := by
  have hstep := (Store.keepsReader_refreshActivity store now).step
  obtain ⟨hlists, hepochs, hcaches, hrevision, -, houtcome⟩ :=
    Store.refreshActivity_spec store now
  refine ⟨hstep.past h.past, fun entry hmem => (h.replied entry hmem).trans hstep.epochs, ?_, ?_,
    ?_, ?_⟩
  · rw [hlists]
    exact h.machines
  · intro entry hmem hcomplete
    rw [hcaches] at hmem
    obtain ⟨hle, hkept⟩ := h.caches entry hmem hcomplete
    refine ⟨?_, ?_, hkept.failures⟩
    · rw [hepochs]
      exact hle.trans (Nat.le_succ _)
    · intro issued hissued hchart
      cases houtcome with
      | kept cache found complete revision requests pending failures charts =>
          rw [requests] at hissued
          exact hkept.settled issued hissued hchart
      | asked requests pending failures charts =>
          rw [requests hopen] at hissued
          obtain hissued | hissued := List.mem_append.mp hissued
          · exact hkept.settled issued hissued hchart
          · obtain ⟨id, -, rfl⟩ := List.mem_map.mp hissued
            exact (Nat.lt_succ_of_le hle).ne'
  · rw [hcaches]
    exact h.keyed
  · rw [hcaches, hrevision]
    exact h.revisions

end ListBase

namespace ChartBooks

variable {answered : List (Issued × Reply)} {store after : Store} {issued : Issued}
  {reply : Reply} {index : Nat}

/-- What the books of the chart depend on. -/
theorem frame (h : ChartBooks answered store) {kinds : Kind → Prop}
    (hstep : Extends kinds store after) (hkinds : ∀ kind, kinds kind → isChart kind = false)
    (hgeneration : after.epochs.generation = store.epochs.generation)
    (hactivity : after.epochs.activity = store.epochs.activity)
    (hpending : after.charts.activityPending = store.charts.activityPending)
    (hfailures : after.charts.activityFailures = store.charts.activityFailures)
    (hcaches : after.charts.activityCaches = store.charts.activityCaches)
    (hstatus : after.charts.status = store.charts.status)
    (hkey : after.lists.activityKey = store.lists.activityKey)
    (hconfigured : store.lists.configured = true → after.lists.configured = true)
    (herrors : ∀ machine, after.lists.errors (.activity machine) =
      store.lists.errors (.activity machine)) : ChartBooks answered after := by
  obtain ⟨made, hmade, hnew⟩ := hstep.requests
  have hold : ∀ issued ∈ after.requests, isChart issued.request.kind = true →
      issued ∈ store.requests := by
    intro issued hmem hchart
    rw [hmade] at hmem
    obtain hmem | hmem := List.mem_append.mp hmem
    · exact hmem
    · rw [hkinds _ (hnew issued hmem).1] at hchart
      cases hchart
  have hids : after.lists.ids = store.lists.ids := congrArg (fun key => key.1.ids) hkey
  have hsettled : store.Settled → after.Settled := by
    rw [Store.Settled, Store.Settled, hgeneration]
    exact Or.imp_right hconfigured
  have hunasked : Unasked answered after ↔ Unasked answered store := by
    rw [Unasked, Unasked, hactivity, hmade]
    constructor
    · intro hunasked issued hmem
      apply hunasked issued
      rw [List.append_assoc]
      exact (List.mem_append.mp hmem).elim (List.mem_append_left _)
        fun hmem => List.mem_append_right _ (List.mem_append_right made hmem)
    · intro hunasked issued hmem hchart
      refine hunasked issued ?_ hchart
      obtain hmem | hmem := List.mem_append.mp hmem
      · exact List.mem_append_left _ (hold issued (hmade ▸ hmem) hchart)
      · exact List.mem_append_right _ hmem
  refine ⟨?_, ?_, ?_, ?_, ?_, ?_, ?_, ?_⟩
  · intro machine
    refine (hstep.waiting_eq ?_ ?_).trans ((h.balanced machine).trans ?_)
    · intro kind hkind
      by_contra hcarries
      have hchart := hkinds kind hkind
      cases kind <;> first | exact hcarries rfl | exact absurd hchart.symm Bool.false_ne_true
    · rw [Channel.part, Channel.part, hgeneration, hactivity]
    · rw [Store.indicator, Store.indicator, hpending]
  · rw [hstatus, hpending]
    exact h.status
  · rw [hpending]
    exact h.nodup
  · intro machine
    rw [herrors, hfailures]
    exact h.errors machine
  · intro issued hmem hchart
    rw [hactivity, hgeneration]
    exact h.stamped issued (hold issued hmem hchart) hchart
  · intro machine
    have hsame : chartsFor after.requests machine store.epochs.activity =
        chartsFor store.requests machine store.epochs.activity := by
      rw [hmade]
      apply Outstanding.waiting_append_other
      intro issued hmem
      apply decide_eq_false
      intro hkind
      have hchart := hkinds _ (hnew issued hmem).1
      rw [hkind] at hchart
      cases hchart
    rw [hactivity, hsame]
    exact h.once machine
  · intro issued hmem hchart hnow
    rw [hids]
    exact h.machines issued (hold issued hmem hchart) hchart (hnow.trans hactivity)
  · cases h.source with
    | asked hasked failures =>
        apply ChartSource.asked (hasked ∘ hunasked.mp)
        rw [hfailures, hactivity]
        exact failures
    | kept hbefore hset cache found hkept =>
        apply ChartSource.kept (hunasked.mpr hbefore) (hsettled hset) cache
        · rw [hcaches, hkey]
          exact found
        · rw [hfailures]
          exact hkept.extend hstep hkinds
    | empty hbefore hnone failures =>
        apply ChartSource.empty (hunasked.mpr hbefore)
        · rw [hcaches, hids]
          exact hnone
        · exact hfailures.trans failures

/-- Chart requests for machines, counted. -/
theorem chartsFor_chartRequest (store : Store) (now : Int) (machine : String) (ids : List String) :
    chartsFor (ids.map (store.chartRequest now)) machine store.epochs.activity =
      ids.count machine := by
  induction ids with
  | nil => rfl
  | cons id rest ih =>
      rw [chartsFor] at ih ⊢
      rw [List.map_cons, Outstanding.waiting, List.countP_cons, List.count_cons]
      rw [Outstanding.waiting] at ih
      rw [ih]
      simp [Outstanding.waits, Store.chartRequest]

theorem waiting_chartRequest (store : Store) (now : Int) (machine : String)
    (ids : List String) :
    Outstanding.waiting ((Channel.chart machine).carries ·.request.kind)
      ((Channel.chart machine).part ·.request.toEpochs)
      ((Channel.chart machine).part store.epochs) (ids.map (store.chartRequest now)) =
      ids.count machine := by
  induction ids with
  | nil => rfl
  | cons id rest ih =>
      rw [List.map_cons, Outstanding.waiting, List.countP_cons, List.count_cons]
      rw [Outstanding.waiting] at ih
      have hwaits : Outstanding.waits ((Channel.chart machine).carries ·.request.kind)
          ((Channel.chart machine).part ·.request.toEpochs)
          ((Channel.chart machine).part store.epochs) (store.chartRequest now id) =
          (id == machine) := by
        rw [Bool.eq_iff_iff, Outstanding.waits_iff, beq_iff_eq]
        exact ⟨fun h => (beq_iff_eq.mp h.1).symm, fun h => ⟨beq_iff_eq.mpr h.symm, rfl⟩⟩
      rw [ih, hwaits]

/-- No chart of the next epoch was asked for or answered. -/
theorem chartsFor_next {requests : List Issued} {machine : String} {activity : Nat}
    (h : ∀ issued ∈ requests, issued.request.activity ≤ activity) :
    chartsFor requests machine (activity + 1) = 0 :=
  Outstanding.waiting_eq_zero_of_lt h (Nat.lt_succ_self _)

/-- The books after the chart was asked for or shown from the cache. -/
theorem refreshActivity (hopen : store.shuttingDown = false) (hbase : ListBase answered store)
    (hsettled : store.Settled ∨ ∀ entry ∈ store.charts.activityCaches,
      entry.2.revision ≠ store.charts.activityRevision) (now : Int) :
    ChartBooks answered (store.refreshActivity now) := by
  obtain ⟨hlists, hepochs, hcaches, -, hstatus, houtcome⟩ :=
    Store.refreshActivity_spec store now
  have hstep := (Store.keepsReader_refreshActivity store now).step
  generalize store.refreshActivity now = after at *
  have hactivity : after.epochs.activity = store.epochs.activity + 1 := by rw [hepochs]
  have hpast : ∀ issued ∈ store.requests, issued.request.activity ≤ store.epochs.activity :=
    fun issued hmem => (Epochs.le_iff.mp (hbase.past issued hmem)).2.2.2.1
  have hreplied : ∀ issued ∈ answered.map Prod.fst,
      issued.request.activity ≤ store.epochs.activity := by
    intro issued hmem
    obtain ⟨entry, hentry, rfl⟩ := List.mem_map.mp hmem
    exact (Epochs.le_iff.mp (hbase.replied entry hentry)).2.2.2.1
  have herrors : ∀ machine, after.lists.errors (.activity machine) =
      after.charts.activityFailures.lookup machine := by
    intro machine
    rw [hlists]
    rfl
  have hold : ∀ machine, Outstanding.waiting ((Channel.chart machine).carries ·.request.kind)
      ((Channel.chart machine).part ·.request.toEpochs)
      ((Channel.chart machine).part after.epochs) store.requests = 0 := by
    intro machine
    rw [hepochs]
    apply Outstanding.waiting_eq_zero_of_lt
      (fun issued hmem => (Channel.chart machine).part_mono (hbase.past issued hmem))
    exact Prod.mk_lt_mk_iff_right.mpr (Nat.lt_succ_self _)
  have hids : after.lists.ids = store.lists.ids := by
    rw [hlists]
    rfl
  cases houtcome with
  | kept cache found complete revision requests pending failures charts =>
      have hunasked : Unasked answered after := by
        intro issued hmem _
        rw [hactivity, requests] at *
        apply Nat.ne_of_lt
        apply Nat.lt_succ_of_le
        obtain hmem | hmem := List.mem_append.mp hmem
        · exact hpast issued hmem
        · exact hreplied issued hmem
      obtain ⟨earlier, later, hsplit, -⟩ := List.lookup_eq_some_iff.mp found
      have hmem : (store.lists.activityKey, cache) ∈ store.charts.activityCaches := by
        rw [hsplit]
        exact List.mem_append_right _ List.mem_cons_self
      have hsettled' : store.Settled := hsettled.resolve_right fun hnone => hnone _ hmem revision
      obtain ⟨-, hkept⟩ := hbase.caches _ hmem complete
      refine ⟨?_, hstatus, ?_, herrors, ?_, ?_, ?_, .kept hunasked ?_ cache ?_ ?_⟩
      · intro machine
        rw [Store.Balanced, Store.waiting_eq, requests, hold, Store.indicator, pending]
        rfl
      · rw [pending]
        exact List.nodup_nil
      · intro issued hmem hchart heq
        exact absurd heq (hunasked issued (List.mem_append_left _ hmem) hchart)
      · intro machine
        rw [hactivity, requests, chartsFor_next hpast, chartsFor_next hreplied]
        exact Nat.zero_le _
      · intro issued hmem hchart heq
        exact absurd heq (hunasked issued (List.mem_append_left _ hmem) hchart)
      · rw [Store.Settled, hepochs, hlists]
        exact hsettled'
      · rw [hcaches, hlists]
        exact found
      · rw [requests, failures]
        exact hkept
  | asked requests pending failures charts =>
      have hmade := requests hopen
      have hunasked : store.lists.ids = [] → Unasked answered after := by
        intro hnone issued hmem _
        rw [hmade, hnone, List.map_nil, List.append_nil] at hmem
        rw [hactivity]
        apply Nat.ne_of_lt
        apply Nat.lt_succ_of_le
        obtain hmem | hmem := List.mem_append.mp hmem
        · exact hpast issued hmem
        · exact hreplied issued hmem
      refine ⟨?_, hstatus, ?_, herrors, ?_, ?_, ?_, ?_⟩
      · intro machine
        have hnew := waiting_chartRequest { store with epochs :=
          { store.epochs with activity := store.epochs.activity + 1 } } now machine store.lists.ids
        rw [Store.Balanced, Store.waiting_eq, hmade, Outstanding.waiting_append, hold, hepochs,
          Nat.zero_add, Store.indicator, pending]
        exact hnew
      · rw [pending]
        exact ids_nodup hbase.machines
      · intro issued hmem hchart heq
        rw [hmade] at hmem
        rw [hactivity] at heq
        obtain hmem | hmem := List.mem_append.mp hmem
        · exact absurd heq (Nat.lt_succ_of_le (hpast issued hmem)).ne
        · obtain ⟨id, -, rfl⟩ := List.mem_map.mp hmem
          rw [hepochs]
          rfl
      · intro machine
        have hnew := chartsFor_chartRequest { store with epochs :=
          { store.epochs with activity := store.epochs.activity + 1 } } now machine store.lists.ids
        have hbefore := @chartsFor_next store.requests machine store.epochs.activity hpast
        have hafter := @chartsFor_next (answered.map Prod.fst) machine store.epochs.activity
          hreplied
        have honce := List.nodup_iff_count_le_one.mp (ids_nodup hbase.machines) machine
        rw [hactivity, hmade, hafter, chartsFor, Outstanding.waiting_append]
        rw [chartsFor] at hbefore hnew
        rw [hbefore, hnew]
        omega
      · intro issued hmem hchart heq hnone
        rw [hids] at hnone
        exact hunasked hnone issued (List.mem_append_left _ hmem) hchart heq
      · by_cases hnone : store.lists.ids = []
        · exact .empty (hunasked hnone) (Or.inr (hids.trans hnone)) failures
        · refine .asked (fun hunasked => ?_) fun machine => ?_
          · obtain ⟨id, hid⟩ := List.exists_mem_of_ne_nil _ hnone
            have hmem : { store with epochs := { store.epochs with
                activity := store.epochs.activity + 1 } }.chartRequest now id ∈
                  after.requests := by
              rw [hmade]
              exact List.mem_append_right _ (List.mem_map_of_mem hid)
            exact hunasked _ (List.mem_append_left _ hmem) rfl hactivity.symm
          · rw [failures, hactivity]
            have hnone := @not_chartFailed answered machine _
              (@chartsFor_next (answered.map Prod.fst) machine store.epochs.activity hreplied)
            exact ⟨fun h => absurd h Bool.false_ne_true, fun h => absurd h hnone⟩

/-- A reply that the chart does not wait for leaves the books as they are. -/
theorem answer_other (h : ChartBooks answered store)
    (hindex : store.requests[index]? = some issued)
    (hother : isChart issued.request.kind = true →
      issued.request.activity ≠ store.epochs.activity) :
    ChartBooks (answered ++ [(issued, reply)]) (store.answered index) := by
  refine ⟨?_, h.status, h.nodup, h.errors, ?_, ?_, ?_, ?_⟩
  · intro machine
    have hcount := @Store.waiting_answered store (.chart machine) index issued hindex
    rw [if_neg, Nat.add_zero] at hcount
    · exact hcount.symm.trans (h.balanced machine)
    · rw [Store.waits_eq, Outstanding.waits_iff]
      rintro ⟨hcarries, hpart⟩
      exact hother (isChart_of_carries hcarries) (congrArg Prod.snd hpart)
  · intro other hmem
    exact h.stamped other (List.mem_of_mem_eraseIdx hmem)
  · intro machine
    exact (chartsFor_answered hindex).trans_le (h.once machine)
  · intro other hmem
    exact h.machines other (List.mem_of_mem_eraseIdx hmem)
  · cases h.source with
    | asked hasked failures =>
        refine .asked (hasked ∘ (unasked_answered hindex).mp) fun machine =>
          (failures machine).trans ?_
        rw [chartFailed_concat]
        refine ⟨Or.inl, ?_⟩
        rintro (hfailed | ⟨-, hkind, hactivity⟩)
        · exact hfailed
        · exact absurd hactivity (hother (isChart_iff.mpr ⟨machine, hkind⟩))
    | kept hunasked hset cache found hkept =>
        exact .kept ((unasked_answered hindex).mpr hunasked) hset cache found
          (hkept.answer hindex)
    | empty hunasked hnone failures =>
        exact .empty ((unasked_answered hindex).mpr hunasked) hnone failures

section Current

variable {id : String}

/-- A request that the chart waits for is answered. -/
theorem waiting_answered (h : ChartBooks answered store)
    (hindex : store.requests[index]? = some issued) (hkind : issued.request.kind = .activity id)
    (hactivity : issued.request.activity = store.epochs.activity) (machine : String) :
    (store.answered index).waiting (.chart machine) =
      (store.charts.activityPending.filter fun other => other != id).count machine := by
  have hcount := @Store.waiting_answered store (.chart machine) index issued hindex
  have hbalanced : store.waiting (.chart machine) = store.charts.activityPending.count machine :=
    h.balanced machine
  have hstamp : issued.request.generation = store.epochs.generation :=
    h.stamped issued (List.mem_of_getElem? hindex) (isChart_iff.mpr ⟨id, hkind⟩) hactivity
  have hwaits : store.waits (.chart machine) issued = true ↔ machine = id := by
    rw [Store.waits_eq, Outstanding.waits_iff, hkind, Channel.carries, beq_iff_eq,
      Channel.part, Channel.part, hstamp, hactivity]
    exact and_iff_left rfl
  rw [hbalanced] at hcount
  by_cases hmachine : machine = id
  · rw [if_pos (hwaits.mpr hmachine)] at hcount
    have honce := List.nodup_iff_count_le_one.mp h.nodup machine
    have hzero : (store.charts.activityPending.filter fun other => other != id).count machine =
        0 := by
      rw [List.count_eq_zero, List.mem_filter, hmachine]
      rintro ⟨-, hne⟩
      rw [bne_self_eq_false] at hne
      cases hne
    omega
  · rw [if_neg fun hsome => hmachine (hwaits.mp hsome), Nat.add_zero] at hcount
    rw [@List.count_filter _ _ _ (fun other => other != id) _ _ (bne_iff_ne.mpr hmachine)]
    exact hcount.symm

/-- The failures of the chart after a reply of a machine. -/
theorem failures_takeChart (h : ChartBooks answered store)
    (hindex : store.requests[index]? = some issued) (hkind : issued.request.kind = .activity id)
    (hactivity : issued.request.activity = store.epochs.activity) (machine : String) :
    (((Store.takeChart store.charts id reply).activityFailures.lookup machine).isSome = true ↔
      ChartFailed (answered ++ [(issued, reply)]) machine store.epochs.activity) := by
  have hmem : issued ∈ store.requests := List.mem_of_getElem? hindex
  have hchart : isChart issued.request.kind = true := isChart_iff.mpr ⟨id, hkind⟩
  have hasked : ∀ machine, (store.charts.activityFailures.lookup machine).isSome = true ↔
      ChartFailed answered machine store.epochs.activity := by
    cases h.source with
    | asked _ failures => exact failures
    | kept hunasked =>
        exact absurd hactivity (hunasked issued (List.mem_append_left _ hmem) hchart)
    | empty hunasked =>
        exact absurd hactivity (hunasked issued (List.mem_append_left _ hmem) hchart)
  have hfirst : ¬ ChartFailed answered id store.epochs.activity := by
    apply not_chartFailed
    have honce := h.once id
    have hpos : 0 < chartsFor store.requests id store.epochs.activity :=
      Outstanding.waiting_pos_iff.mpr
        ⟨issued, hmem, Outstanding.waits_iff.mpr ⟨decide_eq_true hkind, hactivity⟩⟩
    omega
  rw [chartFailed_concat, hkind]
  by_cases hmachine : machine = id
  · subst hmachine
    cases reply with
    | ok value =>
        rw [Store.takeChart]
        dsimp only
        rw [AList.lookup_erase]
        refine ⟨fun hsome => absurd hsome Bool.false_ne_true, ?_⟩
        rintro (hfailed | ⟨⟨error, herror⟩, -⟩)
        · exact absurd hfailed hfirst
        · cases herror
    | error error =>
        rw [Store.takeChart]
        dsimp only
        rw [AList.lookup_insert]
        exact ⟨fun _ => Or.inr ⟨⟨error, rfl⟩, rfl, hactivity⟩, fun _ => rfl⟩
  · have hsame : (Store.takeChart store.charts id reply).activityFailures.lookup machine =
        store.charts.activityFailures.lookup machine := by
      cases reply with
      | ok value => exact AList.lookup_erase_ne hmachine
      | error error => exact AList.lookup_insert_ne hmachine
    rw [hsame, hasked]
    refine ⟨Or.inl, ?_⟩
    rintro (hfailed | ⟨-, hother, -⟩)
    · exact hfailed
    · exact absurd (Kind.activity.inj hother).symm hmachine

/-- The books after a reply of a machine to the chart. -/
theorem acceptActivity (h : ChartBooks answered store)
    (hindex : store.requests[index]? = some issued) (hkind : issued.request.kind = .activity id)
    (hactivity : issued.request.activity = store.epochs.activity) (now : Int) :
    ChartBooks (answered ++ [(issued, reply)])
      ((store.answered index).acceptActivity now id reply) := by
  obtain ⟨hepochs, hrequests, hpending, hfailures, hstatus, herrors, -, hkey, -⟩ :=
    Store.acceptActivity_spec (store.answered index) now id reply
  refine ⟨?_, ?_, ?_, ?_, ?_, ?_, ?_, ?_⟩
  · intro machine
    rw [Store.Balanced, Store.waiting_congr (by rw [hepochs]) hrequests,
      h.waiting_answered hindex hkind hactivity, Store.indicator, hpending]
    cases reply <;> rfl
  · rw [hstatus]
  · rw [hpending]
    cases reply <;> exact h.nodup.filter _
  · intro machine
    rw [herrors]
    rfl
  · intro other hmem
    rw [hrequests] at hmem
    rw [hepochs]
    exact h.stamped other (List.mem_of_mem_eraseIdx hmem)
  · intro machine
    rw [hrequests, hepochs]
    exact (chartsFor_answered hindex).trans_le (h.once machine)
  · intro other hmem hchart hnow
    rw [hrequests] at hmem
    rw [hepochs] at hnow
    have hids : ((store.answered index).acceptActivity now id reply).lists.ids =
        store.lists.ids := congrArg (fun key => key.1.ids) hkey
    rw [hids]
    exact h.machines other (List.mem_of_mem_eraseIdx hmem) hchart hnow
  · apply ChartSource.asked
    · intro hunasked
      apply hunasked issued
      · rw [List.map_append]
        exact List.mem_append_right _ (List.mem_append_right _ (List.mem_singleton_self _))
      · exact isChart_iff.mpr ⟨id, hkind⟩
      · rw [hepochs]
        exact hactivity
    · intro machine
      rw [hfailures, hepochs]
      exact h.failures_takeChart hindex hkind hactivity machine

end Current

/-- A chart that waits for no machine has all its requests answered. -/
theorem keptChart (h : ChartBooks answered store) (hpending : store.charts.activityPending = [])
    (hasked : ∀ machine, (store.charts.activityFailures.lookup machine).isSome = true ↔
      ChartFailed answered machine store.epochs.activity) :
    KeptChart answered store.requests store.charts.activityFailures store.epochs.activity where
  settled issued hmem hchart hactivity := by
    obtain ⟨id, hkind⟩ := isChart_iff.mp hchart
    have hbalanced : store.waiting (.chart id) = store.charts.activityPending.count id :=
      h.balanced id
    have hpos : 0 < store.waiting (.chart id) := by
      rw [Store.waiting_eq, Outstanding.waiting_pos_iff]
      refine ⟨issued, hmem, Outstanding.waits_iff.mpr ⟨?_, ?_⟩⟩
      · rw [hkind]
        exact beq_self_eq_true id
      · exact Prod.ext (h.stamped issued hmem hchart hactivity) hactivity
    rw [hbalanced, hpending] at hpos
    exact absurd hpos (Nat.lt_irrefl 0)
  failures := hasked

end ChartBooks

end Memex.Qt
