import Memex.Lib.Outstanding
import Memex.Qt.StoreSteps

/-! # Indicators of the Qt store and the requests they stand for

The counter of the lists and the busy flags of the reader, the find, the details and the chart
each stand for the requests of some kinds that are on their way and not overtaken. The reader's
part: every operation on the reader keeps its three flags right. -/

namespace Memex.Qt

/-- What an indicator of the app stands for. -/
inductive Channel where
  | lists
  | reader
  | find
  | details
  | chart (machine : String)

namespace Channel

/-- The kinds of the requests. -/
def carries : Channel → Kind → Bool
  | .lists, .sessions _ => true
  | .lists, .projects _ => true
  | .reader, .page .. => true
  | .reader, .locate .. => true
  | .find, .find _ => true
  | .details, .metadata => true
  | .details, .openingTitle => true
  | .chart machine, .activity id => machine == id
  | _, _ => false

/-- The epochs that overtake the requests. -/
def part : Channel → Epochs → Nat × Nat
  | .lists, epochs => (epochs.generation, 0)
  | .reader, epochs => (epochs.reader, epochs.page)
  | .find, epochs => (epochs.reader, epochs.find)
  | .details, epochs => (epochs.reader, 0)
  | .chart _, epochs => (epochs.generation, epochs.activity)

/-- An indicator of the reader. -/
def ofReader : Channel → Bool
  | .reader | .find | .details => true
  | _ => false

theorem ofReader_eq {channel : Channel} {kind : Kind} (h : channel.carries kind = true) :
    kind.ofReader = channel.ofReader := by
  cases channel <;> cases kind <;> first | rfl | cases h

theorem part_mono (channel : Channel) {before after : Epochs} (h : before ≤ after) :
    channel.part before ≤ channel.part after := by
  obtain ⟨hgeneration, hreader, hfind, hactivity, hpage⟩ := Epochs.le_iff.mp h
  cases channel with
  | lists => exact ⟨hgeneration, le_rfl⟩
  | reader => exact ⟨hreader, hpage⟩
  | find => exact ⟨hreader, hfind⟩
  | details => exact ⟨hreader, le_rfl⟩
  | chart machine => exact ⟨hgeneration, hactivity⟩

end Channel

namespace Store

/-- A request on its way that is not overtaken. -/
def waits (store : Store) (channel : Channel) (issued : Issued) : Bool :=
  channel.carries issued.request.kind && !store.epochs.stale issued.request

/-- How many requests of a channel are on their way and not overtaken. -/
def waiting (store : Store) (channel : Channel) : Nat :=
  store.requests.countP (store.waits channel)

/-- What the app shows of a channel. -/
def indicator (store : Store) : Channel → Nat
  | .lists => store.lists.pending
  | .reader => store.view.readerBusy.toNat
  | .find => store.view.finding.toNat
  | .details => store.view.metadataBusy.toNat
  | .chart machine => store.charts.activityPending.count machine

/-- The indicator counts the requests of its channel. -/
def Balanced (store : Store) (channel : Channel) : Prop :=
  store.waiting channel = store.indicator channel

/-- No request carries an epoch that is still to come. -/
def Past (store : Store) : Prop :=
  ∀ issued ∈ store.requests, issued.request.toEpochs ≤ store.epochs

/-- A request is overtaken exactly where the epochs of its channel have moved on. -/
theorem stale_eq {channel : Channel} {request : Request} (epochs : Epochs)
    (h : channel.carries request.kind = true) :
    epochs.stale request = !decide (channel.part request.toEpochs = channel.part epochs) := by
  obtain ⟨stamp, kind⟩ := request
  cases channel <;> cases kind <;> first | cases h | skip
  all_goals
    simp only [Epochs.stale, Channel.part, Prod.mk.injEq, and_true, Bool.decide_and,
      Bool.not_and]
    rfl

theorem waits_eq (store : Store) (channel : Channel) :
    store.waits channel = Outstanding.waits (channel.carries ·.request.kind)
      (channel.part ·.request.toEpochs) (channel.part store.epochs) := by
  funext issued
  rw [waits, Outstanding.waits]
  cases h : channel.carries issued.request.kind with
  | false => rfl
  | true => rw [stale_eq _ h, Bool.not_not]

theorem waiting_eq (store : Store) (channel : Channel) :
    store.waiting channel = Outstanding.waiting (channel.carries ·.request.kind)
      (channel.part ·.request.toEpochs) (channel.part store.epochs) store.requests := by
  rw [waiting, waits_eq]
  rfl

variable {store after : Store} {channel : Channel}

theorem waiting_congr (hpart : channel.part after.epochs = channel.part store.epochs)
    (hrequests : after.requests = store.requests) :
    after.waiting channel = store.waiting channel := by
  rw [waiting_eq, waiting_eq, hpart, hrequests]

/-- Once an epoch of a channel moves on, none of its requests is waited for. -/
theorem waiting_eq_zero (hpast : store.Past) (hle : store.epochs ≤ after.epochs)
    (hpart : channel.part after.epochs ≠ channel.part store.epochs)
    (hrequests : after.requests = store.requests) : after.waiting channel = 0 := by
  rw [waiting_eq, hrequests]
  apply Outstanding.waiting_eq_zero_of_lt (fun issued hmem => channel.part_mono (hpast issued hmem))
  exact lt_of_le_of_ne (channel.part_mono hle) (Ne.symm hpart)

theorem waiting_le (hpast : store.Past) (hle : store.epochs ≤ after.epochs)
    (hrequests : after.requests = store.requests) :
    after.waiting channel ≤ store.waiting channel := by
  rw [waiting_eq, waiting_eq, hrequests]
  apply Outstanding.waiting_le_of_le (fun issued hmem => channel.part_mono (hpast issued hmem))
  exact channel.part_mono hle

@[simp] theorem epochs_request (kind : Kind) (payload : Payload) :
    (store.request kind payload).epochs = store.epochs := by
  rw [request]
  split <;> rfl

@[simp] theorem view_request (kind : Kind) (payload : Payload) :
    (store.request kind payload).view = store.view := by
  rw [request]
  split <;> rfl

@[simp] theorem lists_request (kind : Kind) (payload : Payload) :
    (store.request kind payload).lists = store.lists := by
  rw [request]
  split <;> rfl

@[simp] theorem charts_request (kind : Kind) (payload : Payload) :
    (store.request kind payload).charts = store.charts := by
  rw [request]
  split <;> rfl

@[simp] theorem cache_request (kind : Kind) (payload : Payload) :
    (store.request kind payload).cache = store.cache := by
  rw [request]
  split <;> rfl

@[simp] theorem shuttingDown_request (kind : Kind) (payload : Payload) :
    (store.request kind payload).shuttingDown = store.shuttingDown := by
  rw [request]
  split <;> rfl

theorem requests_request (h : store.shuttingDown = false) (kind : Kind) (payload : Payload) :
    (store.request kind payload).requests = store.requests ++
      [{ request := { store.epochs with kind }, payload
         criteria := store.lists.criteriaKey, metric := store.lists.settings "metric" }] := by
  rw [request, h]
  rfl

/-- A request that is made is waited for. -/
theorem waiting_request (h : store.shuttingDown = false) (kind : Kind) (payload : Payload) :
    (store.request kind payload).waiting channel =
      store.waiting channel + if channel.carries kind = true then 1 else 0 := by
  rw [waiting_eq, waiting_eq, requests_request h, epochs_request, Outstanding.waiting_append,
    Outstanding.waiting_singleton]
  simp [Outstanding.waits]

theorem indicator_request (kind : Kind) (payload : Payload) :
    (store.request kind payload).indicator channel = store.indicator channel := by
  cases channel <;> simp only [indicator, view_request, lists_request, charts_request]

/-- The request that a reply answers is no longer on its way. -/
def answered (store : Store) (index : Nat) : Store :=
  { store with requests := store.requests.eraseIdx index }

theorem waiting_answered {index : Nat} {issued : Issued}
    (h : store.requests[index]? = some issued) :
    store.waiting channel = (store.answered index).waiting channel +
      if store.waits channel issued = true then 1 else 0 := by
  rw [waiting_eq, waiting_eq, Outstanding.waiting_eraseIdx h, waits_eq]
  rfl

end Store

section Frames

variable {store after : Store} {channel : Channel}

theorem Extends.past {kinds : Kind → Prop} (h : Extends kinds store after)
    (hpast : store.Past) : after.Past := by
  obtain ⟨made, hmade, hkinds⟩ := h.requests
  intro issued hmem
  rw [hmade] at hmem
  obtain hmem | hmem := List.mem_append.mp hmem
  · exact (hpast issued hmem).trans h.epochs
  · exact (hkinds issued hmem).2

/-- Requests of other kinds change nothing on a channel whose epochs stay. -/
theorem Extends.waiting_eq {kinds : Kind → Prop} (h : Extends kinds store after)
    (hkinds : ∀ kind, kinds kind → channel.carries kind = false)
    (hpart : channel.part after.epochs = channel.part store.epochs) :
    after.waiting channel = store.waiting channel := by
  obtain ⟨made, hmade, hmem⟩ := h.requests
  rw [Store.waiting_eq, Store.waiting_eq, hmade, hpart]
  exact Outstanding.waiting_append_other fun issued hissued => hkinds _ (hmem issued hissued).1

theorem KeepsReader.waiting_eq (h : KeepsReader store after) (hchannel : channel.ofReader = true) :
    after.waiting channel = store.waiting channel := by
  have hside := h.side
  simp only [Store.readerSide, ReaderSide.mk.injEq] at hside
  obtain ⟨-, -, hreader, hfind, hpage⟩ := hside
  apply h.step.waiting_eq
  · intro kind hkind
    by_contra hcarries
    rw [Channel.ofReader_eq (Bool.eq_true_of_not_eq_false hcarries), hchannel] at hkind
    cases hkind
  · cases channel <;>
      first
        | exact absurd hchannel Bool.false_ne_true
        | simp only [Channel.part, hreader, hfind, hpage]

theorem KeepsReader.indicator_eq (h : KeepsReader store after)
    (hchannel : channel.ofReader = true) : after.indicator channel = store.indicator channel := by
  have hside := h.side
  simp only [Store.readerSide, ReaderSide.mk.injEq] at hside
  cases channel <;>
    first
      | exact absurd hchannel Bool.false_ne_true
      | simp only [Store.indicator, hside.1]

end Frames

end Memex.Qt
