import Memex.Qt.ChartBooks

/-! # The counters and the errors of the lists in every run

Every action and every reply keeps the books of the lists and of the chart, as long as the store
is not shut down and a list of machines names each machine once. -/

namespace Memex.Qt

open Sources

/-- The books of the lists and of the chart. -/
structure ListBooks (answered : List (Issued × Reply)) (store : Store) : Prop where
  base : ListBase answered store
  loads : LoadBooks answered store
  charts : ChartBooks answered store
  /-- The machines are listed with a refresh. -/
  first : store.epochs.generation = 0 → store.lists.machines = ["local"]

section Extending

variable {store after : Store} {kinds others : Kind → Prop} {now : Int}

/-- The kinds of the requests that were made, where these are known. -/
theorem Extends.narrow (h : Extends kinds store after) {made : List Issued}
    (hmade : after.requests = store.requests ++ made)
    (hothers : ∀ issued ∈ made, others issued.request.kind) : Extends others store after where
  epochs := h.epochs
  shut := h.shut
  requests := by
    obtain ⟨made', hmade', hkinds⟩ := h.requests
    obtain rfl := List.append_cancel_left (hmade'.symm.trans hmade)
    exact ⟨made', hmade', fun issued hmem => ⟨hothers issued hmem, (hkinds issued hmem).2⟩⟩
  down := h.down

/-- The requests of `refresh` before the chart. -/
theorem Store.extends_loaded (hopen : store.shuttingDown = false) (now : Int) :
    Extends (fun kind => isChart kind = false) store (store.loaded now) := by
  obtain ⟨-, -, -, -, -, -, hrequests⟩ := Store.loaded_spec store now
  apply Store.keepsReader_loaded.step.narrow (hrequests hopen)
  intro issued hmem
  obtain ⟨id, -, hmem⟩ := List.mem_flatMap.mp hmem
  simp only [Store.loadRequests, List.cons_append, List.nil_append, List.mem_cons,
    List.not_mem_nil, or_false] at hmem
  obtain rfl | rfl | rfl := hmem <;> rfl

/-- The requests of `refresh_activity`. -/
theorem Store.extends_refreshActivity (hopen : store.shuttingDown = false) (now : Int) :
    Extends (fun kind => isChart kind = true) store (store.refreshActivity now) := by
  have hstep := (Store.keepsReader_refreshActivity store now).step
  obtain ⟨-, -, -, -, -, houtcome⟩ := Store.refreshActivity_spec store now
  cases houtcome with
  | kept cache found complete revision requests pending failures charts =>
      apply @Extends.narrow _ _ _ _ hstep []
      · rw [requests, List.append_nil]
      · exact fun issued hmem => absurd hmem List.not_mem_nil
  | asked requests pending failures charts =>
      apply hstep.narrow (requests hopen)
      intro issued hmem
      obtain ⟨id, -, rfl⟩ := List.mem_map.mp hmem
      rfl

/-- The requests of `moreSessions`. -/
theorem Store.extends_foldl_loadMachine (hopen : store.shuttingDown = false) (ids : List String)
    (now : Int) : Extends (fun kind => isChart kind = false) store
      (ids.foldl (fun store id => store.loadMachine now id) store) := by
  have hstep := (KeepsReader.foldl (fun store id => Store.keepsReader_loadMachine store now id)
    ids store).step
  apply hstep.narrow (Store.requests_foldl_loadMachine ids store hopen)
  intro issued hmem
  obtain ⟨id, -, hmem⟩ := List.mem_flatMap.mp hmem
  simp only [Store.loadRequests, List.mem_cons, List.not_mem_nil, or_false] at hmem
  obtain rfl | rfl := hmem <;> rfl

/-- A change of the settings changes nothing else. Where it asks for no refresh it is one of the
order of the projects. -/
structure Configured (before after : Lists × Bool × Bool) : Prop where
  settings : ∃ settings, after.1 = { before.1 with settings }
  order : after.2 = (false, false) → before.2 = (false, false) ∧
    ∀ key, key ≠ "projectSort" → after.1.settings key = before.1.settings key

theorem Configured.trans {first second third : Lists × Bool × Bool}
    (h : Configured first second) (h' : Configured second third) : Configured first third where
  settings := by
    obtain ⟨_, hsecond⟩ := h.settings
    obtain ⟨settings, hthird⟩ := h'.settings
    exact ⟨settings, by rw [hthird, hsecond]⟩
  order hthird := by
    obtain ⟨hsecond, hlast⟩ := h'.order hthird
    obtain ⟨hfirst, hearlier⟩ := h.order hsecond
    exact ⟨hfirst, fun key hkey => (hlast key hkey).trans (hearlier key hkey)⟩

theorem Store.configureKey_configured (changes : Row) (state : Lists × Bool × Bool)
    (key : String) : Configured state (Store.configureKey changes state key) := by
  obtain ⟨lists, refresh, activity⟩ := state
  rw [Store.configureKey]
  split
  next => exact ⟨⟨lists.settings, rfl⟩, fun h => ⟨h, fun _ _ => rfl⟩⟩
  next value _ =>
    split
    next => exact ⟨⟨lists.settings, rfl⟩, fun h => ⟨h, fun _ _ => rfl⟩⟩
    next =>
      refine ⟨⟨_, rfl⟩, fun h => ?_⟩
      simp only [Prod.mk.injEq, Bool.or_eq_false_iff, Bool.and_eq_false_iff, bne_eq_false_iff_eq,
        beq_eq_false_iff_ne] at h
      obtain ⟨⟨rfl, hkey⟩, rfl, hmetric⟩ := h
      obtain rfl := hkey.resolve_left hmetric
      exact ⟨rfl, fun other hother => Function.update_of_ne hother _ _⟩

theorem Store.foldl_configureKey (changes : Row) (keys : List String)
    (state : Lists × Bool × Bool) :
    Configured state (keys.foldl (Store.configureKey changes) state) := by
  induction keys generalizing state with
  | nil => exact ⟨⟨state.1.settings, rfl⟩, fun h => ⟨h, fun _ _ => rfl⟩⟩
  | cons key rest ih => exact (Store.configureKey_configured changes state key).trans (ih _)

/-- The criteria and the metric do not depend on the order of the projects. -/
theorem activityKey_congr {lists : Lists} {settings : String → String}
    (h : ∀ key, key ≠ "projectSort" → settings key = lists.settings key) :
    ({ lists with settings } : Lists).activityKey = lists.activityKey := by
  simp only [Lists.activityKey, Lists.criteriaKey, Lists.ids, h "machine" (by decide),
    h "query" (by decide), h "project" (by decide), h "provider" (by decide),
    h "timeframe" (by decide), h "origin" (by decide), h "metric" (by decide)]

end Extending

/-- Lists that are asked for again may be any. -/
theorem ListBase.withLists {answered : List (Issued × Reply)} {store : Store}
    (h : ListBase answered store) {lists : Lists} (hmachines : lists.machines.Nodup) :
    ListBase answered { store with lists } where
  past := h.past
  replied := h.replied
  machines := hmachines
  caches := h.caches
  keyed := h.keyed
  revisions := h.revisions

namespace ListBooks

variable {answered : List (Issued × Reply)} {store after : Store} {issued : Issued}
  {reply : Reply} {index : Nat} {now : Int}

/-- What the books depend on. -/
theorem frame (h : ListBooks answered store) {kinds : Kind → Prop}
    (hstep : Extends kinds store after)
    (hkinds : ∀ kind, kinds kind → isChart kind = false ∧ Channel.lists.carries kind = false)
    (hgeneration : after.epochs.generation = store.epochs.generation)
    (hactivity : after.epochs.activity = store.epochs.activity)
    (hpending : after.lists.pending = store.lists.pending)
    (hmachines : after.lists.machines = store.lists.machines)
    (hkey : after.lists.activityKey = store.lists.activityKey)
    (hconfigured : store.lists.configured = true → after.lists.configured = true)
    (herrors : ∀ key, key ≠ .machines → after.lists.errors key = store.lists.errors key)
    (hcharts : after.charts = store.charts) : ListBooks answered after where
  base := by
    apply h.base.extend hstep (fun kind hkind => (hkinds kind hkind).1)
    · rw [hmachines]
      exact h.base.machines
    · rw [hcharts]
    · rw [hcharts]
  loads := by
    apply h.loads.frame hstep (fun kind hkind => (hkinds kind hkind).2) hgeneration hpending
    · exact fun machine => herrors _ fun heq => (nomatch heq)
    · exact fun machine => herrors _ fun heq => (nomatch heq)
  charts := by
    apply h.charts.frame hstep (fun kind hkind => (hkinds kind hkind).1) hgeneration hactivity
    · rw [hcharts]
    · rw [hcharts]
    · rw [hcharts]
    · rw [hcharts]
    · exact hkey
    · exact hconfigured
    · exact fun machine => herrors _ fun heq => (nomatch heq)
  first hzero := hmachines.trans (h.first (hgeneration.symm.trans hzero))

/-- An operation on the reader. -/
theorem keepsLists (h : ListBooks answered store) (hstep : KeepsLists store after) :
    ListBooks answered after := by
  have hside := hstep.side
  have hlists : ∀ {β : Type} (f : ListSide → β), f after.listSide = f store.listSide :=
    fun f => congrArg f hside
  apply h.frame hstep.step
  · intro kind hkind
    cases kind <;> first | exact ⟨rfl, rfl⟩ | exact absurd hkind Bool.false_ne_true
  · exact hlists ListSide.generation
  · exact hlists ListSide.activity
  · exact hlists fun side => side.lists.pending
  · exact hlists fun side => side.lists.machines
  · exact hlists fun side => side.lists.activityKey
  · exact (hlists fun side => side.lists.configured).trans
  · exact fun key _ => hlists fun side => side.lists.errors key
  · exact hlists ListSide.charts

/-- An operation that asks for nothing. -/
theorem keepsRequests (h : ListBooks answered store) (hepochs : after.epochs = store.epochs)
    (hshut : after.shuttingDown = store.shuttingDown)
    (hrequests : after.requests = store.requests)
    (hpending : after.lists.pending = store.lists.pending)
    (hmachines : after.lists.machines = store.lists.machines)
    (hkey : after.lists.activityKey = store.lists.activityKey)
    (hconfigured : store.lists.configured = true → after.lists.configured = true)
    (herrors : ∀ key, key ≠ .machines → after.lists.errors key = store.lists.errors key)
    (hcharts : after.charts = store.charts) : ListBooks answered after :=
  h.frame (@Extends.of_eq (fun _ => False) _ _ hepochs.ge hshut hrequests)
    (fun _ hfalse => hfalse.elim) (by rw [hepochs]) (by rw [hepochs]) hpending hmachines hkey
    hconfigured herrors hcharts

/-- Lists that differ in what the books do not depend on. -/
theorem withLists (h : ListBooks answered store) {lists : Lists}
    (hpending : lists.pending = store.lists.pending)
    (hmachines : lists.machines = store.lists.machines)
    (hkey : lists.activityKey = store.lists.activityKey)
    (hconfigured : store.lists.configured = true → lists.configured = true)
    (herrors : ∀ key, key ≠ .machines → lists.errors key = store.lists.errors key) :
    ListBooks answered { store with lists } :=
  h.keepsRequests rfl rfl rfl hpending hmachines hkey hconfigured herrors rfl

/-- The lists are asked for again. -/
theorem refresh (hbase : ListBase answered store) (hopen : store.shuttingDown = false)
    (now : Int) : ListBooks answered (store.refresh now) := by
  obtain ⟨hcharts, hlater, -, hmachines, -, -, -⟩ := Store.loaded_spec store now
  have hloaded := Store.extends_loaded hopen now
  have hbase' : ListBase answered (store.loaded now) := by
    apply hbase.extend hloaded (fun kind hkind => hkind)
    · rw [hmachines]
      exact hbase.machines
    · rw [hcharts]
    · rw [hcharts]
  have hopen' : (store.loaded now).shuttingDown = false := hloaded.shut.trans hopen
  have hgeneration : 0 < (store.loaded now).epochs.generation := by
    rw [hlater]
    exact Nat.succ_pos _
  obtain ⟨hlists, hepochs, -⟩ := Store.refreshActivity_spec (store.loaded now) now
  rw [Store.refresh_eq]
  refine ⟨hbase'.refreshActivity hopen' now, ?_,
    ChartBooks.refreshActivity hopen' hbase' (Or.inl (Or.inl hgeneration)) now, ?_⟩
  apply (LoadBooks.loaded hopen hbase now).frame (Store.extends_refreshActivity hopen' now)
  · intro kind hkind
    obtain ⟨machine, rfl⟩ := isChart_iff.mp hkind
    rfl
  · rw [hepochs]
  · rw [hlists]
  · intro machine
    rw [hlists]
    rfl
  · intro machine
    rw [hlists]
    rfl
  · intro hzero
    rw [hepochs] at hzero
    exact absurd hzero hgeneration.ne'

/-- The chart is asked for again. -/
theorem refreshActivity (hbase : ListBase answered store) (hloads : LoadBooks answered store)
    (hfirst : store.epochs.generation = 0 → store.lists.machines = ["local"])
    (hsettled : store.Settled ∨ ∀ entry ∈ store.charts.activityCaches,
      entry.2.revision ≠ store.charts.activityRevision)
    (hopen : store.shuttingDown = false) (now : Int) :
    ListBooks answered (store.refreshActivity now) := by
  obtain ⟨hlists, hepochs, -⟩ := Store.refreshActivity_spec store now
  refine ⟨hbase.refreshActivity hopen now, ?_,
    ChartBooks.refreshActivity hopen hbase hsettled now, ?_⟩
  apply hloads.frame (Store.extends_refreshActivity hopen now)
  · intro kind hkind
    obtain ⟨machine, rfl⟩ := isChart_iff.mp hkind
    rfl
  · rw [hepochs]
  · rw [hlists]
  · intro machine
    rw [hlists]
    rfl
  · intro machine
    rw [hlists]
    rfl
  · rw [hepochs, hlists]
    exact hfirst

theorem moreSessions (h : ListBooks answered store) (hopen : store.shuttingDown = false)
    (now : Int) : ListBooks answered (store.moreSessions now) := by
  have hloads := h.loads.moreSessions hopen h.base.machines now
  rw [Store.moreSessions] at hloads ⊢
  split
  next hidle =>
    rw [if_pos hidle] at hloads
    obtain ⟨hcharts, hepochs, hlists⟩ :=
      @Store.foldl_loadMachine now store.raiseLimit.lists.ids store.raiseLimit
    have hstep : Extends (fun kind => isChart kind = false) store
        (store.raiseLimit.lists.ids.foldl (fun store id => store.loadMachine now id)
          store.raiseLimit) :=
      (@Extends.of_eq _ store store.raiseLimit le_rfl rfl rfl).trans
        (@Store.extends_foldl_loadMachine store.raiseLimit hopen store.raiseLimit.lists.ids now)
    refine ⟨h.base.extend hstep (fun _ hkind => hkind) ?_ ?_ ?_, hloads,
      h.charts.frame hstep (fun _ hkind => hkind) ?_ ?_ ?_ ?_ ?_ ?_ ?_ ?_ ?_, ?_⟩
    · rw [hlists]
      exact h.base.machines
    · exact congrArg Charts.activityCaches hcharts
    · exact (congrArg Charts.activityRevision hcharts).ge
    · rw [hepochs]
      rfl
    · rw [hepochs]
      rfl
    · exact congrArg Charts.activityPending hcharts
    · exact congrArg Charts.activityFailures hcharts
    · exact congrArg Charts.activityCaches hcharts
    · exact congrArg Charts.status hcharts
    · rw [hlists]
      rfl
    · rw [hlists]
      exact id
    · intro machine
      rw [hlists]
      rfl
    · rw [hepochs, hlists]
      exact h.first
  next => exact h

theorem configure (h : ListBooks answered store) (hopen : store.shuttingDown = false)
    (now : Int) (changes : Row) : ListBooks answered (store.configure now changes) := by
  have hsettings := Store.foldl_configureKey changes
    ["query", "project", "machine", "provider", "timeframe", "origin", "projectSort", "metric"]
    ({ store.lists with configured := true }, false, false)
  rw [Store.configure]
  dsimp only
  generalize ["query", "project", "machine", "provider", "timeframe", "origin", "projectSort",
    "metric"].foldl (Store.configureKey changes) ({ store.lists with configured := true }, false,
      false) = state at hsettings ⊢
  obtain ⟨lists, refreshes, activity⟩ := state
  obtain ⟨⟨settings, rfl⟩, horder⟩ := hsettings
  have hbase : ListBase answered ({ store with lists := { store.lists with
      configured := true, settings } } : Store).mergeProjects := h.base.withLists h.base.machines
  split
  next => exact refresh hbase hopen now
  next hlists =>
    split
    next =>
      have hstep : Extends (fun _ => False) store ({ store with lists := { store.lists with
          configured := true, settings } } : Store).mergeProjects := .of_eq le_rfl rfl rfl
      exact refreshActivity hbase (h.loads.frame hstep (fun _ hfalse => hfalse.elim) rfl rfl
        (fun _ => rfl) fun _ => rfl) h.first (Or.inl (Or.inr rfl)) hopen now
    next hactivity =>
      obtain ⟨-, hsame⟩ := horder (Prod.ext (Bool.eq_false_iff.mpr hlists)
        (Bool.eq_false_iff.mpr hactivity))
      exact h.withLists rfl rfl (activityKey_congr hsame) (fun _ => rfl) fun _ _ => rfl

theorem resetFilters (h : ListBooks answered store) (hopen : store.shuttingDown = false)
    (now : Int) : ListBooks answered (store.resetFilters now) := by
  have hbase : ListBase answered { store with lists := { store.lists with
      settings := Function.update (Function.update (Function.update store.lists.settings
        "provider" "") "timeframe" "all") "origin" "interactive"
      configured := true } } := h.base.withLists h.base.machines
  exact refresh hbase hopen now

theorem nextRevision (h : ListBooks answered store) : ListBooks answered store.nextRevision := by
  have hstep : Extends (fun _ => False) store store.nextRevision := .of_eq le_rfl rfl rfl
  refine ⟨?_, ?_, ?_, h.first⟩
  · exact h.base.extend hstep (fun _ hfalse => hfalse.elim) h.base.machines rfl (Nat.le_succ _)
  · exact h.loads.frame hstep (fun _ hfalse => hfalse.elim) rfl rfl (fun _ => rfl) fun _ => rfl
  · exact h.charts.frame hstep (fun _ hfalse => hfalse.elim) rfl rfl rfl rfl rfl rfl rfl id
      fun _ => rfl

/-- After that no chart that is kept is shown unasked. -/
theorem outdated (h : ListBooks answered store) :
    ∀ entry ∈ store.nextRevision.charts.activityCaches,
      entry.2.revision ≠ store.nextRevision.charts.activityRevision :=
  fun entry hmem => (Nat.lt_succ_of_le (h.base.revisions entry hmem)).ne

theorem action (h : ListBooks answered store) (hopen : store.shuttingDown = false) (now : Int)
    (action : Action) (haction : action ≠ .shutdown) :
    ListBooks answered (store.action now action) := by
  rw [Store.action.eq_def, hopen]
  simp only [Bool.false_eq_true, if_false]
  cases action with
  | initialise =>
      have hstep : Extends (fun kind => kind = .machines) store
          (store.request .machines .machines) := .request store .machines rfl
      apply h.frame hstep
      · rintro kind rfl
        exact ⟨rfl, rfl⟩
      · rw [Store.epochs_request]
      · rw [Store.epochs_request]
      · rw [Store.lists_request]
      · rw [Store.lists_request]
      · rw [Store.lists_request]
      · rw [Store.lists_request]
        exact id
      · intro key _
        rw [Store.lists_request]
      · rw [Store.charts_request]
  | shutdown => exact absurd rfl haction
  | refresh => exact refresh h.nextRevision.base hopen now
  | configure changes => exact h.configure hopen now changes
  | resetFilters => exact h.resetFilters hopen now
  | moreSessions => exact h.moreSessions hopen now
  | refreshActivity =>
      exact refreshActivity h.nextRevision.base h.nextRevision.loads h.first (Or.inr h.outdated)
        hopen now
  | openSession session => exact h.keepsLists (Store.keepsLists_openSession store session)
  | earlier => exact h.keepsLists (Store.keepsLists_earlier store)
  | later => exact h.keepsLists (Store.keepsLists_later store)
  | find text => exact h.keepsLists (Store.keepsLists_startFind store text)
  | navigateFind direction => exact h.keepsLists (Store.keepsLists_navigateFind store direction)
  | saveAnchor id offset expansion =>
      exact h.keepsLists (Store.keepsLists_saveAnchor store id offset expansion)

section Replies

/-- A reply that neither the counter nor the chart stands for. -/
theorem answer_other (h : ListBooks answered store)
    (hindex : store.requests[index]? = some issued)
    (hlists : Channel.lists.carries issued.request.kind = true →
      issued.request.generation ≠ store.epochs.generation)
    (hcharts : isChart issued.request.kind = true →
      issued.request.activity ≠ store.epochs.activity) :
    ListBooks (answered ++ [(issued, reply)]) (store.answered index) :=
  ⟨h.base.answer hindex, h.loads.answer_other hindex hlists, h.charts.answer_other hindex hcharts,
    h.first⟩

/-- A reply that was overtaken is none of those that are counted. -/
theorem answer_stale (h : ListBooks answered store)
    (hindex : store.requests[index]? = some issued)
    (hstale : store.epochs.stale issued.request = true) :
    ListBooks (answered ++ [(issued, reply)]) (store.answered index) := by
  have hpart : ∀ channel : Channel, channel.carries issued.request.kind = true →
      channel.part issued.request.toEpochs ≠ channel.part store.epochs := by
    intro channel hcarries heq
    rw [Store.stale_eq store.epochs hcarries, decide_eq_true heq] at hstale
    cases hstale
  apply h.answer_other hindex
  · intro hcarries hgeneration
    apply hpart .lists hcarries
    rw [Channel.part, Channel.part, hgeneration]
  · intro hchart hactivity
    obtain ⟨machine, hkind⟩ := isChart_iff.mp hchart
    have hcarries : (Channel.chart machine).carries issued.request.kind = true := by
      rw [hkind]
      exact beq_self_eq_true machine
    apply hpart _ hcarries
    have hstamp := h.charts.stamped issued (List.mem_of_getElem? hindex) hchart hactivity
    exact Prod.ext hstamp hactivity

/-- Settings that come before anything was asked for or set. -/
theorem takeSaved (h : ListBooks answered store) (hnew : ¬ store.Settled) (saved : Row) :
    ListBooks answered (store.takeSaved saved) := by
  have hlocal : store.lists.machines = ["local"] :=
    h.first (Nat.eq_zero_of_not_pos fun hpos => hnew (Or.inl hpos))
  have hids : ∀ lists : Lists, lists.machines = ["local"] → lists.ids ≠ [] := by
    intro lists hmachines
    rw [Lists.ids, hmachines]
    split
    · exact List.cons_ne_nil _ _
    · exact List.cons_ne_nil _ _
  have hstep : Extends (fun _ => False) store (store.takeSaved saved) := .of_eq le_rfl rfl rfl
  refine ⟨h.base.withLists h.base.machines, ?_, ?_, h.first⟩
  · exact h.loads.frame hstep (fun _ hfalse => hfalse.elim) rfl rfl (fun _ => rfl) fun _ => rfl
  · refine ⟨h.charts.balanced, h.charts.status, h.charts.nodup, h.charts.errors,
      h.charts.stamped, h.charts.once, fun _ _ _ _ => hids _ hlocal, ?_⟩
    cases h.charts.source with
    | asked hasked failures => exact .asked hasked failures
    | kept _ hsettled => exact absurd hsettled hnew
    | empty hunasked hnone failures =>
        exact .empty hunasked (hnone.imp_right fun hnil => absurd hnil (hids _ hlocal)) failures

theorem acceptRestore (h : ListBooks answered store) (hopen : store.shuttingDown = false)
    (now : Int) (reply : Reply) : ListBooks answered (store.acceptRestore now reply) := by
  cases reply with
  | error error => exact h
  | ok value =>
      have htaken : ListBase answered (store.takeSaved (members value)) :=
        h.base.withLists h.base.machines
      rw [Store.acceptRestore]
      split
      next => exact refresh htaken hopen now
      next hkept =>
        by_cases hconfigured : store.lists.configured = true
        · have hkey : (store.takeSaved (members value)).lists.activityKey =
              store.lists.activityKey := by
            simp only [Store.takeSaved, Store.mergeProjects, Lists.activityKey,
              Lists.criteriaKey, Lists.ids, if_pos hconfigured]
          exact h.keepsRequests rfl rfl rfl rfl rfl hkey id (fun _ _ => rfl) rfl
        · apply h.takeSaved
          rintro (hpos | hset)
          · rw [Bool.not_eq_true] at hconfigured
            have hold : (store.takeSaved (members value)).lists.configured = false := hconfigured
            have hgeneration : 0 < (store.takeSaved (members value)).epochs.generation := hpos
            simp [hold, hgeneration] at hkept
          · exact hconfigured hset

theorem setMachines (h : ListBase answered store) {value : Json}
    (hdistinct : (Store.machineIds value).Nodup) :
    ListBase answered (store.setMachines value) := by
  rw [Store.setMachines]
  dsimp only
  split
  · exact h.withLists (List.nodup_singleton _)
  · exact h.withLists hdistinct

theorem errorMachines (h : ListBooks answered store) (error : String) :
    ListBooks answered (store.error .machines error) :=
  h.withLists rfl rfl rfl id fun _ hkey => Function.update_of_ne hkey _ _

theorem acceptMachines (h : ListBooks answered store) (hopen : store.shuttingDown = false)
    (now : Int) {reply : Reply}
    (hdistinct : ∀ value, reply = .ok value → (Store.machineIds value).Nodup) :
    ListBooks answered (store.acceptMachines now reply) := by
  cases reply with
  | ok value =>
      have hmachines := setMachines h.base (hdistinct value rfl)
      exact refresh hmachines ((Store.keepsReader_setMachines store value).step.shut.trans
        hopen) now
  | error error => exact (refresh (h.errorMachines error).base hopen now).errorMachines error

theorem acceptCount (h : ListBooks answered store) (id : String) (reply : Reply) :
    ListBooks answered (store.acceptCount id reply) :=
  h.withLists rfl rfl rfl (fun hconfigured => hconfigured) fun _ _ => rfl

/-- The errors after a reply to a request for the lists. -/
def errorsAfter (errors : ErrorKey → Option String) (key : ErrorKey) (reply : Reply) :
    ErrorKey → Option String :=
  match reply with
  | .ok _ => errors
  | .error error => Function.update errors key (some error)

theorem isSome_errorsAfter {errors : ErrorKey → Option String} {key other : ErrorKey} :
    (errorsAfter errors key reply other).isSome = true ↔
      (errors other).isSome = true ∨ (other = key ∧ ∃ error, reply = .error error) := by
  cases reply with
  | ok value =>
      refine ⟨Or.inl, ?_⟩
      rintro (hsome | ⟨-, error, herror⟩)
      · exact hsome
      · cases herror
  | error error =>
      rw [errorsAfter]
      by_cases hother : other = key
      · subst hother
        rw [Function.update_self]
        exact ⟨fun _ => Or.inr ⟨rfl, error, rfl⟩, fun _ => rfl⟩
      · rw [Function.update_of_ne hother]
        refine ⟨Or.inl, ?_⟩
        rintro (hsome | ⟨heq, -⟩)
        · exact hsome
        · exact absurd heq hother

/-- The books after a reply that the counter stands for. -/
theorem answer (h : ListBooks answered store) (hindex : store.requests[index]? = some issued)
    (hcarries : Channel.lists.carries issued.request.kind = true)
    (hgeneration : issued.request.generation = store.epochs.generation) {key : ErrorKey}
    (hprojects : ∀ machine, ErrorKey.projects machine = key ↔
      issued.request.kind = .projects machine)
    (hsessions : ∀ machine, ErrorKey.sessions machine = key ↔
      issued.request.kind = .sessions machine)
    (hactivity : ∀ machine, ErrorKey.activity machine ≠ key)
    (hepochs : after.epochs = store.epochs) (hshut : after.shuttingDown = store.shuttingDown)
    (hrequests : after.requests = (store.answered index).requests)
    (hcharts : after.charts = store.charts)
    (hmachines : after.lists.machines = store.lists.machines)
    (hkey : after.lists.activityKey = store.lists.activityKey)
    (hconfigured : store.lists.configured = true → after.lists.configured = true)
    (hpending : after.lists.pending = store.lists.pending - 1)
    (herrors : after.lists.errors = errorsAfter store.lists.errors key reply) :
    ListBooks (answered ++ [(issued, reply)]) after := by
  have hother : isChart issued.request.kind = true →
      issued.request.activity ≠ store.epochs.activity := by
    intro hchart
    obtain ⟨machine, hkind⟩ := isChart_iff.mp hchart
    rw [hkind] at hcarries
    exact absurd hcarries Bool.false_ne_true
  have hstep : Extends (fun _ => False) (store.answered index) after :=
    .of_eq hepochs.ge hshut hrequests
  refine ⟨?_, ?_, ?_, ?_⟩
  · apply (h.base.answer hindex).extend hstep (fun _ hfalse => hfalse.elim)
    · rw [hmachines]
      exact h.base.machines
    · rw [hcharts]
      rfl
    · rw [hcharts]
      rfl
  · apply h.loads.answer hindex hgeneration hcarries hepochs hrequests hpending
    · intro machine
      rw [herrors, isSome_errorsAfter, hprojects]
    · intro machine
      rw [herrors, isSome_errorsAfter, hsessions]
  · apply (h.charts.answer_other hindex hother).frame hstep (fun _ hfalse => hfalse.elim)
    · rw [hepochs]
      rfl
    · rw [hepochs]
      rfl
    · rw [hcharts]
      rfl
    · rw [hcharts]
      rfl
    · rw [hcharts]
      rfl
    · rw [hcharts]
      rfl
    · exact hkey
    · exact hconfigured
    · intro machine
      rw [herrors]
      cases reply with
      | ok value => rfl
      | error error => exact Function.update_of_ne (hactivity machine) _ _
  · rw [hepochs, hmachines]
    exact h.first

theorem acceptSessions (h : ListBooks answered store)
    (hindex : store.requests[index]? = some issued) {id : String}
    (hkind : issued.request.kind = .sessions id)
    (hgeneration : issued.request.generation = store.epochs.generation) :
    ListBooks (answered ++ [(issued, reply)])
      ((store.answered index).acceptSessions id reply) := by
  apply @answer _ _ _ _ reply _ h hindex _ hgeneration (.sessions id)
  · intro machine
    rw [hkind]
    exact ⟨fun heq => (nomatch heq), fun heq => (nomatch heq)⟩
  · intro machine
    rw [hkind, ErrorKey.sessions.injEq, Kind.sessions.injEq, eq_comm]
  · exact fun machine heq => (nomatch heq)
  · cases reply <;> rfl
  · cases reply <;> rfl
  · cases reply <;> rfl
  · cases reply <;> rfl
  · cases reply <;> rfl
  · cases reply <;> rfl
  · cases reply <;> exact fun hconfigured => hconfigured
  · cases reply <;> exact Int.toNat_sub _ 1
  · cases reply <;> rfl
  · rw [hkind]
    rfl

theorem acceptProjects (h : ListBooks answered store)
    (hindex : store.requests[index]? = some issued) {id : String}
    (hkind : issued.request.kind = .projects id)
    (hgeneration : issued.request.generation = store.epochs.generation) :
    ListBooks (answered ++ [(issued, reply)])
      ((store.answered index).acceptProjects id reply) := by
  apply @answer _ _ _ _ reply _ h hindex _ hgeneration (.projects id)
  · intro machine
    rw [hkind, ErrorKey.projects.injEq, Kind.projects.injEq, eq_comm]
  · intro machine
    rw [hkind]
    exact ⟨fun heq => (nomatch heq), fun heq => (nomatch heq)⟩
  · exact fun machine heq => (nomatch heq)
  · cases reply <;> rfl
  · cases reply <;> rfl
  · cases reply <;> rfl
  · cases reply <;> rfl
  · cases reply <;> rfl
  · cases reply <;> rfl
  · cases reply <;> exact fun hconfigured => hconfigured
  · cases reply <;> exact Int.toNat_sub _ 1
  · cases reply <;> rfl
  · rw [hkind]
    rfl

/-- The books after a reply of a machine to the chart. -/
theorem acceptActivity (h : ListBooks answered store)
    (hindex : store.requests[index]? = some issued) {id : String}
    (hkind : issued.request.kind = .activity id)
    (hactivity : issued.request.activity = store.epochs.activity) (now : Int) :
    ListBooks (answered ++ [(issued, reply)])
      ((store.answered index).acceptActivity now id reply) := by
  have hcharts := @ChartBooks.acceptActivity _ _ _ reply _ _ h.charts hindex hkind hactivity now
  obtain ⟨hepochs, hrequests, hpending, hfailures, -, herrors, hrevision, -, hcaches⟩ :=
    Store.acceptActivity_spec (store.answered index) now id reply
  have hlists : ((store.answered index).acceptActivity now id reply).lists.machines =
        store.lists.machines ∧
      ((store.answered index).acceptActivity now id reply).lists.pending =
        store.lists.pending := by
    cases reply <;> exact ⟨rfl, rfl⟩
  have hstep : Extends (fun _ => False) (store.answered index)
      ((store.answered index).acceptActivity now id reply) :=
    .of_eq hepochs.ge (by cases reply <;> rfl) hrequests
  have hanswer := @ListBase.answer answered store issued reply index h.base hindex
  refine ⟨⟨hstep.past hanswer.past, ?_, ?_, ?_, ?_, ?_⟩, ?_, hcharts, ?_⟩
  · rw [hepochs]
    exact hanswer.replied
  · rw [hlists.1]
    exact h.base.machines
  · intro entry hmem hcomplete
    rw [hepochs, hrequests]
    obtain hold | hnow := hcaches entry hmem
    · exact hanswer.caches entry hold hcomplete
    · have hepoch : entry.2.epoch = store.epochs.activity := hnow.epoch
      refine ⟨hepoch.le, ?_⟩
      have hasked : ∀ machine, (((store.answered index).acceptActivity now id
          reply).charts.activityFailures.lookup machine).isSome = true ↔
          ChartFailed (answered ++ [(issued, reply)]) machine store.epochs.activity := by
        intro machine
        rw [hfailures]
        exact h.charts.failures_takeChart hindex hkind hactivity machine
      have hkept := hcharts.keptChart (hnow.complete hcomplete) (by rw [hepochs]; exact hasked)
      rw [hnow.failures, hepoch]
      rw [hepochs, hrequests] at hkept
      exact hkept
  · intro entry hmem
    obtain hold | hnow := hcaches entry hmem
    · exact hanswer.keyed entry hold
    · rw [hnow.key]
      exact h.charts.machines issued (List.mem_of_getElem? hindex)
        (isChart_iff.mpr ⟨id, hkind⟩) hactivity
  · intro entry hmem
    rw [hrevision]
    obtain hold | hnow := hcaches entry hmem
    · exact hanswer.revisions entry hold
    · exact hnow.revision.le
  · apply (h.loads.answer_other hindex ?_).frame hstep (fun _ hfalse => hfalse.elim)
    · rw [hepochs]
    · exact hlists.2
    · intro machine
      rw [herrors]
      rfl
    · intro machine
      rw [herrors]
      rfl
    · rw [hkind]
      exact fun hcarries => absurd hcarries Bool.false_ne_true
  · rw [hepochs, hlists.1]
    exact h.first

/-- The active requests have no part in the books. -/
theorem retire (h : ListBooks answered store) (request : Request) :
    ListBooks answered (store.retire request) :=
  h.keepsRequests rfl rfl rfl rfl rfl rfl id (fun _ _ => rfl) rfl

/-- A reply of a kind that is not counted. -/
theorem answer_uncounted (h : ListBooks answered store)
    (hindex : store.requests[index]? = some issued)
    (hlists : Channel.lists.carries issued.request.kind = false)
    (hchart : isChart issued.request.kind = false) :
    ListBooks (answered ++ [(issued, reply)])
      ((store.answered index).retire issued.request) := by
  apply ListBooks.retire
  apply h.answer_other hindex
  · rw [hlists]
    exact fun hcarries => absurd hcarries Bool.false_ne_true
  · rw [hchart]
    exact fun hcarries => absurd hcarries Bool.false_ne_true

/-- A reply, wanted or overtaken. -/
theorem accept (h : ListBooks answered store) (hopen : store.shuttingDown = false)
    (hindex : store.requests[index]? = some issued) (texts : Texts) (now : Int)
    (hdistinct : issued.request.kind = .machines → ∀ value, reply = .ok value →
      (Store.machineIds value).Nodup) :
    ListBooks (answered ++ [(issued, reply)])
      ((store.answered index).accept texts now issued.request reply) := by
  rw [Store.accept]
  split
  next hstale => exact (h.answer_stale hindex hstale).retire issued.request
  next hcurrent =>
    have hnow : store.epochs.stale issued.request = false := Bool.eq_false_iff.mpr hcurrent
    have hstamp : ∀ channel : Channel, channel.carries issued.request.kind = true →
        channel.part issued.request.toEpochs = channel.part store.epochs := by
      intro channel hcarries
      rw [Store.stale_eq store.epochs hcarries, Bool.not_eq_false', decide_eq_true_iff] at hnow
      exact hnow
    cases hkind : issued.request.kind with
    | sessions id =>
        have hgeneration := congrArg Prod.fst (hstamp .lists (by rw [hkind]; rfl))
        have hbooks := @acceptSessions _ _ _ reply _ h hindex id hkind hgeneration
        cases reply <;> exact hbooks.retire issued.request
    | projects id =>
        have hgeneration := congrArg Prod.fst (hstamp .lists (by rw [hkind]; rfl))
        have hbooks := @acceptProjects _ _ _ reply _ h hindex id hkind hgeneration
        cases reply <;> exact hbooks.retire issued.request
    | activity id =>
        have hcarries : (Channel.chart id).carries issued.request.kind = true := by
          rw [hkind]
          exact beq_self_eq_true id
        have hactivity := congrArg Prod.snd (hstamp (.chart id) hcarries)
        have hbooks := @acceptActivity _ _ _ reply _ h hindex id hkind hactivity now
        cases reply <;> exact hbooks.retire issued.request
    | restore =>
        exact (h.answer_uncounted hindex (by rw [hkind]; rfl) (by rw [hkind]; rfl)).acceptRestore
          hopen now reply
    | machines =>
        exact (h.answer_uncounted hindex (by rw [hkind]; rfl) (by rw [hkind]; rfl)).acceptMachines
          hopen now (hdistinct hkind)
    | count id =>
        exact (h.answer_uncounted hindex (by rw [hkind]; rfl) (by rw [hkind]; rfl)).acceptCount
          id reply
    | _ =>
        apply (h.answer_uncounted hindex (by rw [hkind]; rfl) (by rw [hkind]; rfl)).keepsLists
        exact Store.keepsLists_apply _ now texts rfl reply

end Replies

section Runs

theorem new (persistence : Bool) : ListBooks [] (Store.new persistence) := by
  have hempty : ListBooks [] { lists := { settings := initialSettings } } := by
    refine ⟨⟨?_, ?_, ?_, ?_, ?_, ?_⟩, ⟨?_, ?_, ?_, ?_, ?_, ?_⟩,
      ⟨?_, ?_, ?_, ?_, ?_, ?_, ?_, .empty ?_ (Or.inl rfl) rfl⟩, fun _ => rfl⟩
    · exact fun _ hmem => absurd hmem List.not_mem_nil
    · exact fun _ hmem => absurd hmem List.not_mem_nil
    · exact List.nodup_singleton _
    · exact fun _ hmem => absurd hmem List.not_mem_nil
    · exact fun _ hmem => absurd hmem List.not_mem_nil
    · exact fun _ hmem => absurd hmem List.not_mem_nil
    · rfl
    · exact fun _ => Nat.zero_le _
    · exact fun _ => Nat.zero_le _
    · exact fun _ =>
        ⟨fun hsome => absurd hsome Bool.false_ne_true, fun ⟨_, hnone⟩ => (nomatch hnone)⟩
    · exact fun _ ⟨_, hnone⟩ => (nomatch hnone)
    · exact fun _ hsome => absurd hsome Bool.false_ne_true
    · exact fun _ => rfl
    · rfl
    · exact List.nodup_nil
    · exact fun _ => rfl
    · exact fun _ hmem => absurd hmem List.not_mem_nil
    · exact fun _ => Nat.zero_le _
    · exact fun _ hmem => absurd hmem List.not_mem_nil
    · exact fun _ hmem => absurd hmem List.not_mem_nil
  have hmerge : ∀ {store : Store}, ListBooks [] store → ListBooks [] store.mergeProjects :=
    fun h => h.withLists rfl rfl rfl id fun _ _ => rfl
  cases persistence with
  | false => exact hmerge hempty
  | true =>
      apply hmerge
      have hstep : Extends (fun kind => kind = .restore)
          ({ lists := { settings := initialSettings } } : Store)
          (({ lists := { settings := initialSettings } } : Store).request .restore .restore) :=
        .request _ _ rfl
      apply hempty.frame hstep
      · rintro kind rfl
        exact ⟨rfl, rfl⟩
      · rfl
      · rfl
      · rfl
      · rfl
      · rfl
      · exact id
      · exact fun _ _ => rfl
      · rfl

end Runs

end ListBooks

/-- Every list of machines that came back names each machine once. -/
def DistinctMachines (answered : List (Issued × Reply)) : Prop :=
  ∀ entry ∈ answered, entry.1.request.kind = .machines → ∀ value, entry.2 = .ok value →
    (Store.machineIds value).Nodup

/-- The books are kept in every run that was not shut down. -/
theorem ListBooks.run {texts : Texts} {persistence : Bool} {events : List Event}
    {session : Session}
    (hrun : Transitions.run (Session.step texts) (Session.start persistence) events =
      some session) (hopen : session.store.shuttingDown = false)
    (hdistinct : DistinctMachines session.answered) :
    ListBooks session.answered session.store := by
  refine @Transitions.run_invariant _ _ _ (fun session : Session =>
    session.store.shuttingDown = false → DistinctMachines session.answered →
      ListBooks session.answered session.store) ?_ _ _ _ (fun _ _ => ListBooks.new persistence)
    hrun hopen hdistinct
  intro session event next h hstep hopen hdistinct
  cases event with
  | action action now =>
      obtain rfl := Option.some.inj hstep
      have haction : action ≠ .shutdown := by
        rintro rfl
        rw [Store.shuttingDown_shutdown] at hopen
        cases hopen
      have hbefore : session.store.shuttingDown = false := by
        obtain hkeeps | hkeeps := Store.action_cases session.store now action haction
        · exact hkeeps.step.shut.symm.trans hopen
        · exact hkeeps.step.shut.symm.trans hopen
      exact (h hbefore hdistinct).action hbefore now action haction
  | reply index result now =>
      obtain ⟨issued, hindex, rfl⟩ := Option.map_eq_some_iff.mp hstep
      have hbefore : session.store.shuttingDown = false :=
        (Store.shut_accept (session.store.answered index) now texts issued.request
          result).symm.trans
          hopen
      have hearlier : DistinctMachines session.answered :=
        fun entry hmem => hdistinct entry (List.mem_append_left _ hmem)
      have hlast := hdistinct (issued, result)
        (List.mem_append_right _ (List.mem_singleton_self _))
      exact (h hbefore hearlier).accept hbefore hindex texts now hlast

/-- The errors tell of the chart that is shown. Where it was asked for in this epoch these are the
failures of its own requests. Otherwise they are those of the epoch whose replies filled the
chart that is kept under the criteria and the metric, all of which have come. -/
structure ShowsChart (session : Session) : Prop where
  asked : ¬ Unasked session.answered session.store → ∀ machine,
    (session.store.lists.errors (.activity machine)).isSome = true ↔
      ChartFailed session.answered machine session.store.epochs.activity
  kept : Unasked session.answered session.store → ∀ cache,
    session.store.charts.activityCaches.lookup session.store.lists.activityKey = some cache →
      (∀ machine, (session.store.lists.errors (.activity machine)).isSome = true ↔
        ChartFailed session.answered machine cache.epoch) ∧
      ∀ issued ∈ session.store.requests, isChart issued.request.kind = true →
        issued.request.activity ≠ cache.epoch
  none : Unasked session.answered session.store →
    session.store.charts.activityCaches.lookup session.store.lists.activityKey = none →
      ∀ machine, session.store.lists.errors (.activity machine) = none

theorem ListBooks.showsChart {session : Session}
    (h : ListBooks session.answered session.store) : ShowsChart session := by
  cases h.charts.source with
  | asked hasked failures =>
      refine ⟨fun _ machine => ?_, fun hunasked => absurd hunasked hasked,
        fun hunasked => absurd hunasked hasked⟩
      rw [h.charts.errors]
      exact failures machine
  | kept hunasked hsettled cache found hkept =>
      refine ⟨fun hasked => absurd hunasked hasked, fun _ other hother => ?_, fun _ hnone => ?_⟩
      · obtain rfl := Option.some.inj (found.symm.trans hother)
        refine ⟨fun machine => ?_, hkept.settled⟩
        rw [h.charts.errors]
        exact hkept.failures machine
      · cases found.symm.trans hnone
  | empty hunasked hnone failures =>
      refine ⟨fun hasked => absurd hunasked hasked, fun _ cache hcache => ?_,
        fun _ _ machine => ?_⟩
      · obtain ⟨earlier, later, hsplit, -⟩ := List.lookup_eq_some_iff.mp hcache
        obtain hnil | hids := hnone
        · rw [hnil] at hsplit
          exact absurd hsplit.symm (List.append_ne_nil_of_right_ne_nil _ (List.cons_ne_nil _ _))
        · refine absurd hids (h.base.keyed (session.store.lists.activityKey, cache) ?_)
          rw [hsplit]
          exact List.mem_append_right _ List.mem_cons_self
      · rw [h.charts.errors, failures]
        rfl

/-- In every run of a store that is not shut down the counter of the lists, the flags of the
reader, the find and the details and the machines of the chart stand for exactly the requests
that are on their way and not overtaken, and the errors tell which requests failed. -/
theorem indicators_exact {texts : Texts} {persistence : Bool} {events : List Event}
    {session : Session}
    (hrun : Transitions.run (Session.step texts) (Session.start persistence) events =
      some session) (hopen : session.store.shuttingDown = false)
    (hdistinct : DistinctMachines session.answered) :
    session.store.lists.pending = session.store.waiting .lists ∧
      (session.store.view.readerBusy = true ↔ 0 < session.store.waiting .reader) ∧
      (session.store.view.finding = true ↔ 0 < session.store.waiting .find) ∧
      (session.store.view.metadataBusy = true ↔ 0 < session.store.waiting .details) ∧
      (∀ machine, machine ∈ session.store.charts.status.activityPendingMachines ↔
        0 < session.store.waiting (.chart machine)) ∧
      (∀ machine, (session.store.lists.errors (.projects machine)).isSome = true ↔
        Failed (lastReply session.answered (.projects machine)
          session.store.epochs.generation)) ∧
      (∀ machine, Failed (lastReply session.answered (.sessions machine)
          session.store.epochs.generation) →
        (session.store.lists.errors (.sessions machine)).isSome = true) ∧
      (∀ machine, (session.store.lists.errors (.sessions machine)).isSome = true →
        FailedIn session.answered (.sessions machine) session.store.epochs.generation) ∧
      ShowsChart session := by
  have hbooks := ListBooks.run hrun hopen hdistinct
  have hreader := (ReaderBooks.run hrun).balanced hopen
  have hflag : ∀ (channel : Channel) (flag : Bool), channel.ofReader = true →
      session.store.indicator channel = flag.toNat →
        (flag = true ↔ 0 < session.store.waiting channel) := by
    intro channel flag hchannel hindicator
    rw [hreader channel hchannel, hindicator]
    cases flag <;> simp
  refine ⟨hbooks.loads.balanced.symm, hflag .reader _ rfl rfl, hflag .find _ rfl rfl,
    hflag .details _ rfl rfl, ?_, hbooks.loads.projects, hbooks.loads.sessionsFailed,
    hbooks.loads.sessionsError, hbooks.showsChart⟩
  · intro machine
    have hbalanced : session.store.waiting (.chart machine) =
        session.store.charts.activityPending.count machine := hbooks.charts.balanced machine
    rw [hbalanced, hbooks.charts.status, List.count_pos_iff]

/-- Texts that are taken as they are. -/
def plainTexts : Texts where
  lowercase text := text
  openingTitle _ := none

/-- A setting is changed. -/
def setting (key value : String) : Action :=
  .configure fun field => if field = key then .string value else .null

/-- A chart fails, another one of the same generation comes, and the first is looked at again. -/
def chartEvents : List Event :=
  [.action .refreshActivity 0, .reply 0 (.error "timeout") 0,
    .action (setting "metric" "tokens") 1, .reply 0 (.ok (.object [])) 1,
    .action (setting "metric" "sessions") 2]

/-- The errors are those of the first of the three charts. -/
theorem indicators_exact_for_charts :
    ∃ session cache, Transitions.run (Session.step plainTexts) (Session.start false) chartEvents =
        some session ∧
      session.store.charts.activityCaches.lookup session.store.lists.activityKey = some cache ∧
      cache.epoch = 1 ∧ session.store.epochs.activity = 3 ∧
      ∀ machine, (session.store.lists.errors (.activity machine)).isSome = true ↔
        ChartFailed session.answered machine 1 := by
  refine ⟨_, _, rfl, rfl, rfl, rfl, ?_⟩
  refine ((@indicators_exact plainTexts false chartEvents _ rfl rfl ?_).2.2.2.2.2.2.2.2.kept
    (by decide) _ rfl).1
  intro entry hmem hkind
  have hnone : entry.1.request.kind = .activity "local" := by
    revert entry
    decide
  rw [hnone] at hkind
  cases hkind

/-- The kept chart shows the failure of its own request although the last request for a chart
of the machine, in the same generation, went well and nothing is outstanding. -/
theorem kept_failure_outlives_success :
    ∃ session, Transitions.run (Session.step plainTexts) (Session.start false) chartEvents =
        some session ∧ session.store.requests = [] ∧
      (session.store.lists.errors (.activity "local")).isSome = true ∧
      ¬ Failed (lastReply session.answered (.activity "local")
        session.store.epochs.generation) := by
  refine ⟨_, rfl, rfl, rfl, ?_⟩
  rintro ⟨error, herror⟩
  cases herror

end Memex.Qt
