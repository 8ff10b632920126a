import Memex.Qt.StoreRuns

/-! # What the operations on the lists and the chart do

The requests that `refresh`, `refresh_activity` and `moreSessions` make, the counters they set
and the errors they leave. -/

namespace Memex.Qt

open Sources

namespace Store

variable {store : Store} {channel : Channel} {now : Int}

section Loading

theorem lists_loadMachine (id : String) :
    (store.loadMachine now id).lists =
      { store.lists with pending := store.lists.pending + 1 } := by
  rw [loadMachine, lists_request, lists_request, pending]
  rfl

@[simp] theorem charts_loadMachine (id : String) :
    (store.loadMachine now id).charts = store.charts := by
  rw [loadMachine, charts_request, charts_request]
  rfl

@[simp] theorem epochs_loadMachine (id : String) :
    (store.loadMachine now id).epochs = store.epochs := by
  rw [loadMachine, epochs_request, epochs_request]
  rfl

/-- A request of the present moment. -/
def issue (store : Store) (kind : Kind) (payload : Payload) : Issued :=
  { request := { store.epochs with kind }, payload
    criteria := store.lists.criteriaKey, metric := store.lists.settings "metric" }

/-- The requests of a machine that is loaded. -/
def loadRequests (store : Store) (now : Int) (id : String) : List Issued :=
  let filters := store.lists.filters now
  let query := trim (store.lists.settings "query")
  [store.issue (.sessions id)
      (if query = "" then .sessions id filters else .search id query filters),
    store.issue (.count id) (.count id (if query = "" then none else some query) filters)]

theorem requests_loadMachine (hopen : store.shuttingDown = false) (id : String) :
    (store.loadMachine now id).requests = store.requests ++ store.loadRequests now id := by
  rw [loadMachine, requests_request, requests_request (by exact hopen), epochs_request,
    lists_request, List.append_assoc]
  · rfl
  · rw [shuttingDown_request]
    exact hopen

theorem requests_refreshMachine (hopen : store.shuttingDown = false) (id : String) :
    (store.refreshMachine now id).requests = store.requests ++
      (store.loadRequests now id ++ [store.issue (.projects id) (.projects id)]) := by
  have hshut := (keepsReader_loadMachine store now id).step.shut
  have hlists : (store.loadMachine now id).lists.criteriaKey = store.lists.criteriaKey ∧
      (store.loadMachine now id).lists.settings = store.lists.settings := by
    rw [lists_loadMachine]
    exact ⟨rfl, rfl⟩
  have hissue : ((store.loadMachine now id).pending 1).issue (.projects id) (.projects id) =
      store.issue (.projects id) (.projects id) := by
    rw [issue, issue, ← hlists.1, ← hlists.2, ← @epochs_loadMachine store now id]
    rfl
  rw [refreshMachine, requests_request (by exact hshut.trans hopen), ← hissue,
    ← List.append_assoc, ← requests_loadMachine hopen id]
  rfl

theorem lists_refreshMachine (id : String) :
    (store.refreshMachine now id).lists =
      { store.lists with pending := store.lists.pending + 2 } := by
  rw [refreshMachine, lists_request, pending, lists_loadMachine]
  rfl

@[simp] theorem charts_refreshMachine (id : String) :
    (store.refreshMachine now id).charts = store.charts := by
  rw [refreshMachine, charts_request, pending, charts_loadMachine]

@[simp] theorem epochs_refreshMachine (id : String) :
    (store.refreshMachine now id).epochs = store.epochs := by
  rw [refreshMachine, epochs_request, pending, epochs_loadMachine]

theorem shuttingDown_refreshMachine (id : String) :
    (store.refreshMachine now id).shuttingDown = store.shuttingDown :=
  (keepsReader_refreshMachine store now id).step.shut

/-- What the loop of `refresh` leaves of the store, machine by machine. -/
theorem foldl_refreshMachine (ids : List String) (store : Store) :
    (ids.foldl (refreshMachine now) store).charts = store.charts ∧
      (ids.foldl (refreshMachine now) store).epochs = store.epochs ∧
      (ids.foldl (refreshMachine now) store).lists =
        { store.lists with pending := store.lists.pending + 2 * ids.length } := by
  induction ids generalizing store with
  | nil => exact ⟨rfl, rfl, rfl⟩
  | cons id rest ih =>
      obtain ⟨hcharts, hepochs, hlists⟩ := ih (store.refreshMachine now id)
      rw [List.foldl_cons]
      refine ⟨hcharts.trans (charts_refreshMachine id), hepochs.trans (epochs_refreshMachine id),
        ?_⟩
      have hpending : store.lists.pending + 2 + 2 * rest.length =
          store.lists.pending + 2 * (rest.length + 1) := by omega
      rw [hlists, lists_refreshMachine, List.length_cons]
      exact congrArg (fun pending => { store.lists with pending }) hpending

theorem foldl_loadMachine (ids : List String) (store : Store) :
    (ids.foldl (fun store id => store.loadMachine now id) store).charts = store.charts ∧
      (ids.foldl (fun store id => store.loadMachine now id) store).epochs = store.epochs ∧
      (ids.foldl (fun store id => store.loadMachine now id) store).lists =
        { store.lists with pending := store.lists.pending + ids.length } := by
  induction ids generalizing store with
  | nil => exact ⟨rfl, rfl, rfl⟩
  | cons id rest ih =>
      obtain ⟨hcharts, hepochs, hlists⟩ := ih (store.loadMachine now id)
      rw [List.foldl_cons]
      refine ⟨hcharts.trans (charts_loadMachine id), hepochs.trans (epochs_loadMachine id), ?_⟩
      have hpending : store.lists.pending + 1 + rest.length =
          store.lists.pending + (rest.length + 1) := by omega
      rw [hlists, lists_loadMachine, List.length_cons]
      exact congrArg (fun pending => { store.lists with pending }) hpending

/-- The requests depend on the epochs and on settings that loading leaves alone. -/
theorem loadRequests_congr {before after : Store} (hepochs : after.epochs = before.epochs)
    {pending : Nat} (hlists : after.lists = { before.lists with pending }) (now : Int) :
    after.loadRequests now = before.loadRequests now ∧ after.issue = before.issue := by
  have hissue : after.issue = before.issue := by
    funext kind payload
    rw [issue, issue, hepochs, hlists]
    rfl
  refine ⟨?_, hissue⟩
  funext id
  rw [loadRequests, loadRequests, hissue, hlists]
  rfl

theorem requests_foldl_refreshMachine (ids : List String) (store : Store)
    (hopen : store.shuttingDown = false) :
    (ids.foldl (refreshMachine now) store).requests = store.requests ++ ids.flatMap fun id =>
      store.loadRequests now id ++ [store.issue (.projects id) (.projects id)] := by
  induction ids generalizing store with
  | nil => exact (List.append_nil _).symm
  | cons id rest ih =>
      obtain ⟨hload, hissue⟩ := loadRequests_congr (@epochs_refreshMachine store now id)
        (lists_refreshMachine id) now
      rw [List.foldl_cons, ih _ ((shuttingDown_refreshMachine id).trans hopen), hload, hissue,
        requests_refreshMachine hopen, List.flatMap_cons, List.append_assoc]

theorem requests_foldl_loadMachine (ids : List String) (store : Store)
    (hopen : store.shuttingDown = false) :
    (ids.foldl (fun store id => store.loadMachine now id) store).requests =
      store.requests ++ ids.flatMap (store.loadRequests now) := by
  induction ids generalizing store with
  | nil => exact (List.append_nil _).symm
  | cons id rest ih =>
      have hload := (loadRequests_congr (@epochs_loadMachine store now id)
        (lists_loadMachine id) now).1
      rw [List.foldl_cons, ih _ ((keepsReader_loadMachine store now id).step.shut.trans hopen),
        hload, requests_loadMachine hopen, List.flatMap_cons, List.append_assoc]

end Loading

section Charts

/-- The request for the chart of a machine. -/
def chartRequest (store : Store) (now : Int) (id : String) : Issued :=
  { request := { store.epochs with kind := .activity id }
    payload := .activity id (store.lists.settings "metric")
      (match store.lists.settings "timeframe" with
        | "day" => "24h"
        | "week" => "7d"
        | "month" => "30d"
        | _ => "all")
      now (nonempty (store.lists.settings "query")) (nonempty (store.lists.settings "project"))
      (nonempty (store.lists.settings "provider")) (store.lists.settings "origin")
    criteria := store.lists.criteriaKey
    metric := store.lists.settings "metric" }

theorem foldl_requestActivity (ids : List String) (store : Store) :
    (ids.foldl (requestActivity now) store).charts = store.charts ∧
      (ids.foldl (requestActivity now) store).lists = store.lists ∧
      (ids.foldl (requestActivity now) store).epochs = store.epochs ∧
      (store.shuttingDown = false → (ids.foldl (requestActivity now) store).requests =
        store.requests ++ ids.map (store.chartRequest now)) := by
  induction ids generalizing store with
  | nil => exact ⟨rfl, rfl, rfl, fun _ => (List.append_nil _).symm⟩
  | cons id rest ih =>
      obtain ⟨hcharts, hlists, hepochs, hrequests⟩ := ih (requestActivity now store id)
      have hlists' : (requestActivity now store id).lists = store.lists := lists_request _ _
      have hepochs' : (requestActivity now store id).epochs = store.epochs := epochs_request _ _
      rw [List.foldl_cons]
      refine ⟨hcharts.trans (charts_request _ _), hlists.trans hlists', hepochs.trans hepochs', ?_⟩
      intro hopen
      have hopen' : (requestActivity now store id).shuttingDown = false :=
        (shuttingDown_request _ _).trans hopen
      have hsame : (requestActivity now store id).chartRequest now = store.chartRequest now := by
        funext other
        rw [chartRequest, chartRequest, hlists', hepochs']
      rw [hrequests hopen', hsame, List.map_cons, requestActivity, requests_request hopen,
        List.append_assoc]
      rfl

/-- What `refreshActivity` does: it shows a kept chart, or it asks every machine. -/
inductive ActivityOutcome (store : Store) (now : Int) (after : Store) : Prop where
  | kept (cache : ActivityCache)
      (found : store.charts.activityCaches.lookup store.lists.activityKey = some cache)
      (complete : cache.complete = true)
      (revision : cache.revision = store.charts.activityRevision)
      (requests : after.requests = store.requests)
      (pending : after.charts.activityPending = [])
      (failures : after.charts.activityFailures = cache.failures)
      (charts : after.charts.charts = cache.charts)
  | asked (requests : store.shuttingDown = false → after.requests = store.requests ++
        store.lists.ids.map ({ store with epochs :=
          { store.epochs with activity := store.epochs.activity + 1 } }.chartRequest now))
      (pending : after.charts.activityPending = store.lists.ids)
      (failures : after.charts.activityFailures = ∅)
      (charts : after.charts.charts = ∅ ∨ ∃ cache,
        store.charts.activityCaches.lookup store.lists.activityKey = some cache ∧
          after.charts.charts = cache.charts)

/-- What `refreshActivity` leaves of the store. -/
structure ActivityRefreshed (store : Store) (now : Int) (after : Store) : Prop where
  lists : after.lists = { store.lists with
    errors := activityErrors store.lists after.charts.activityFailures }
  epochs : after.epochs = { store.epochs with activity := store.epochs.activity + 1 }
  caches : after.charts.activityCaches = store.charts.activityCaches
  revision : after.charts.activityRevision = store.charts.activityRevision
  status : after.charts.status.activityPendingMachines = after.charts.activityPending
  outcome : ActivityOutcome store now after

theorem askActivity_spec (store : Store) (now : Int) :
    (store.askActivity now).lists = { store.lists with
        errors := activityErrors store.lists store.charts.activityFailures } ∧
      (store.askActivity now).epochs = store.epochs ∧
      (store.askActivity now).charts.activityCaches = store.charts.activityCaches ∧
      (store.askActivity now).charts.activityRevision = store.charts.activityRevision ∧
      (store.askActivity now).charts.activityPending = store.lists.ids ∧
      (store.askActivity now).charts.activityFailures = store.charts.activityFailures ∧
      (store.askActivity now).charts.charts = store.charts.charts ∧
      (store.askActivity now).charts.status.activityPendingMachines = store.lists.ids ∧
      (store.shuttingDown = false → (store.askActivity now).requests =
        store.requests ++ store.lists.ids.map (store.chartRequest now)) := by
  obtain ⟨hcharts, hlists, hepochs, hrequests⟩ := @foldl_requestActivity now store.lists.ids
    { store with charts := { store.charts with
        activityPending := store.lists.ids } }.activityStatus.mergeActivity
  rw [askActivity]
  dsimp only
  rw [hcharts, hlists, hepochs]
  refine ⟨rfl, rfl, rfl, rfl, rfl, rfl, rfl, rfl, ?_⟩
  intro hopen
  exact hrequests hopen

theorem refreshActivity_spec (store : Store) (now : Int) :
    ActivityRefreshed store now (store.refreshActivity now) := by
  rw [refreshActivity]
  dsimp only
  split
  next hlookup =>
    obtain ⟨hlists, hepochs, hcaches, hrevision, hpending, hfailures, hcharts, hstatus,
        hrequests⟩ :=
      askActivity_spec { { store with epochs := { store.epochs with
        activity := store.epochs.activity + 1 } }.cancelStale with
          charts := { store.charts with
            charts := ∅, activityFailures := ∅, activityPending := [], activityNow := now } } now
    refine ⟨?_, hepochs, hcaches, hrevision, hstatus.trans hpending.symm,
      .asked hrequests hpending hfailures (Or.inl hcharts)⟩
    exact hlists.trans (congrArg (fun failures =>
      { store.lists with errors := activityErrors store.lists failures }) hfailures.symm)
  next cache hlookup =>
    split
    next hfresh =>
      rw [fresh, Bool.and_eq_true, Bool.and_eq_true, beq_iff_eq] at hfresh
      exact ⟨rfl, rfl, rfl, rfl, rfl,
        .kept cache hlookup hfresh.1.1 hfresh.1.2 rfl rfl rfl rfl⟩
    next =>
      obtain ⟨hlists, hepochs, hcaches, hrevision, hpending, hfailures, hcharts, hstatus,
          hrequests⟩ :=
        askActivity_spec { { store with epochs := { store.epochs with
          activity := store.epochs.activity + 1 } }.cancelStale with
            charts := { store.charts with
              charts := cache.charts, activityFailures := ∅, activityPending := []
              activityNow := now } } now
      refine ⟨?_, hepochs, hcaches, hrevision, hstatus.trans hpending.symm,
        .asked hrequests hpending hfailures (Or.inr ⟨cache, hlookup, hcharts⟩)⟩
      exact hlists.trans (congrArg (fun failures =>
        { store.lists with errors := activityErrors store.lists failures }) hfailures.symm)

/-- A chart is kept as it is shown. -/
structure KeptNow (store after : Store) (entry : ActivityKey × ActivityCache) : Prop where
  key : entry.1 = store.lists.activityKey
  epoch : entry.2.epoch = store.epochs.activity
  revision : entry.2.revision = store.charts.activityRevision
  failures : entry.2.failures = after.charts.activityFailures
  complete : entry.2.complete = true → after.charts.activityPending = []

/-- What a reply of a machine to the chart leaves of the store. -/
structure ActivityAccepted (store : Store) (id : String) (reply : Reply) (after : Store) :
    Prop where
  epochs : after.epochs = store.epochs
  requests : after.requests = store.requests
  pending : after.charts.activityPending = (takeChart store.charts id reply).activityPending
  failures : after.charts.activityFailures = (takeChart store.charts id reply).activityFailures
  status : after.charts.status.activityPendingMachines = after.charts.activityPending
  errors : after.lists.errors = activityErrors store.lists after.charts.activityFailures
  revision : after.charts.activityRevision = store.charts.activityRevision
  key : after.lists.activityKey = store.lists.activityKey
  caches : ∀ entry ∈ after.charts.activityCaches,
    entry ∈ store.charts.activityCaches ∨ KeptNow store after entry

/-- A cache that is kept is an older one or the chart that is shown. -/
theorem mem_cacheActivity {entry : ActivityKey × ActivityCache}
    (hmem : entry ∈ (store.cacheActivity now).charts.activityCaches) :
    entry ∈ store.charts.activityCaches ∨ KeptNow store store entry := by
  rw [cacheActivity] at hmem
  obtain hmem | hmem := List.mem_append.mp (List.mem_of_mem_drop hmem)
  · exact Or.inl (List.mem_of_mem_filter hmem)
  · obtain rfl := List.mem_singleton.mp hmem
    exact Or.inr ⟨rfl, rfl, rfl, rfl, of_decide_eq_true⟩

theorem acceptActivity_spec (store : Store) (now : Int) (id : String) (reply : Reply) :
    ActivityAccepted store id reply (store.acceptActivity now id reply) := by
  cases reply with
  | ok value =>
      refine ⟨rfl, rfl, rfl, rfl, rfl, rfl, rfl, rfl, fun entry hmem => ?_⟩
      exact (mem_cacheActivity hmem).imp_right fun h =>
        ⟨h.key, h.epoch, h.revision, h.failures, h.complete⟩
  | error error =>
      have hother : ∀ key, (∀ machine, key ≠ .activity machine) →
          (store.error (.activity id) error).lists.errors key = store.lists.errors key :=
        fun key hkey => Function.update_of_ne (hkey id) _ _
      refine ⟨rfl, rfl, rfl, rfl, rfl, ?_, rfl, rfl, fun entry hmem =>
        (mem_cacheActivity hmem).imp_right fun h =>
          ⟨h.key, h.epoch, h.revision, h.failures, h.complete⟩⟩
      funext key
      cases key with
      | activity machine => rfl
      | machines => exact hother .machines fun _ h => (nomatch h)
      | sessions machine => exact hother (.sessions machine) fun _ h => (nomatch h)
      | projects machine => exact hother (.projects machine) fun _ h => (nomatch h)

end Charts

section Refreshing

/-- The lists once `refresh` has emptied them. -/
def cleared (store : Store) : Store :=
  let epochs := { store.epochs with generation := store.epochs.generation + 1 }
  let store := { store with epochs }.cancelStale.keepBatches.mergeSessions
  { store with lists := { store.lists with
      total := none, canLoadMore := false, errors := fun _ => none } }

/-- The lists once `refresh` has asked for them. -/
def loaded (store : Store) (now : Int) : Store :=
  (store.cleared.lists.ids.foldl (refreshMachine now) store.cleared).mergeProjects

theorem refresh_eq (store : Store) (now : Int) :
    store.refresh now = (store.loaded now).refreshActivity now := rfl

/-- What `refresh` leaves of the store when the lists are asked for. -/
theorem loaded_spec (store : Store) (now : Int) :
    (store.loaded now).charts = store.charts ∧
      (store.loaded now).epochs =
        { store.epochs with generation := store.epochs.generation + 1 } ∧
      (store.loaded now).lists.pending = 2 * store.lists.ids.length ∧
      (store.loaded now).lists.machines = store.lists.machines ∧
      (store.loaded now).lists.settings = store.lists.settings ∧
      (∀ key, (store.loaded now).lists.errors key = none) ∧
      (store.shuttingDown = false → (store.loaded now).requests =
        store.requests ++ store.lists.ids.flatMap fun id =>
          store.cleared.loadRequests now id ++
            [store.cleared.issue (.projects id) (.projects id)]) := by
  obtain ⟨hcharts, hepochs, hlists⟩ :=
    @foldl_refreshMachine now store.cleared.lists.ids store.cleared
  refine ⟨hcharts, hepochs, ?_, ?_, ?_, ?_, ?_⟩
  · refine (congrArg Lists.pending hlists).trans ?_
    exact Nat.zero_add _
  · exact (congrArg Lists.machines hlists).trans rfl
  · exact (congrArg Lists.settings hlists).trans rfl
  · exact fun key => congrFun (congrArg Lists.errors hlists) key
  · intro hopen
    exact requests_foldl_refreshMachine store.cleared.lists.ids store.cleared hopen

theorem keepsReader_cleared : KeepsReader store store.cleared :=
  .of_eq rfl (Epochs.le_iff.mpr ⟨Nat.le_succ _, le_rfl, le_rfl, le_rfl, le_rfl⟩) rfl rfl

theorem keepsReader_loaded : KeepsReader store (store.loaded now) := by
  refine KeepsReader.trans ?_ (keepsReader_mergeProjects _)
  exact keepsReader_cleared.trans (KeepsReader.foldl (keepsReader_refreshMachine · now) _ _)

end Refreshing

end Store

end Memex.Qt
