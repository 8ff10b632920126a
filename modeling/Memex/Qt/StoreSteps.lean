import Mathlib.Order.Basic
import Memex.Lib.Transitions
import Memex.Qt.Replies

/-! # What the operations of the Qt store leave alone

Every operation makes requests under the epochs of its end. Those on the lists and the chart
leave the reader alone; those on the reader leave the lists and the chart alone, apart from the
rows that a details reply writes into the list. -/

namespace Memex.Qt

open Sources

/-- Later epochs. -/
instance : Preorder Epochs :=
  Preorder.lift fun epochs =>
    (epochs.generation, epochs.reader, epochs.find, epochs.activity, epochs.page)

theorem Epochs.le_iff {before after : Epochs} :
    before ≤ after ↔ before.generation ≤ after.generation ∧ before.reader ≤ after.reader ∧
      before.find ≤ after.find ∧ before.activity ≤ after.activity ∧
      before.page ≤ after.page := Iff.rfl

/-- A request of the reader, not of the lists or the chart. -/
def Kind.ofReader : Kind → Bool
  | .metadata | .openingTitle | .page .. | .locate .. | .find _ => true
  | _ => false

/-- An operation makes requests of some kinds under the epochs of its end; none once the store
is shut down. -/
structure Extends (kinds : Kind → Prop) (before after : Store) : Prop where
  epochs : before.epochs ≤ after.epochs
  shut : after.shuttingDown = before.shuttingDown
  requests : ∃ made, after.requests = before.requests ++ made ∧
    ∀ issued ∈ made, kinds issued.request.kind ∧ issued.request.toEpochs ≤ after.epochs
  down : before.shuttingDown = true → after.requests = before.requests

namespace Extends

variable {kinds : Kind → Prop} {first second third : Store}

theorem of_eq (hepochs : first.epochs ≤ second.epochs)
    (hshut : second.shuttingDown = first.shuttingDown)
    (hrequests : second.requests = first.requests) : Extends kinds first second where
  epochs := hepochs
  shut := hshut
  requests := ⟨[], by rw [hrequests, List.append_nil], fun _ h => absurd h List.not_mem_nil⟩
  down _ := hrequests

@[refl] theorem refl (store : Store) : Extends kinds store store := of_eq le_rfl rfl rfl

theorem trans (h : Extends kinds first second) (h' : Extends kinds second third) :
    Extends kinds first third where
  epochs := h.epochs.trans h'.epochs
  shut := h'.shut.trans h.shut
  requests := by
    obtain ⟨made, hmade, hkinds⟩ := h.requests
    obtain ⟨made', hmade', hkinds'⟩ := h'.requests
    refine ⟨made ++ made', by rw [hmade', hmade, List.append_assoc], ?_⟩
    intro issued hmem
    obtain hmem | hmem := List.mem_append.mp hmem
    · exact ⟨(hkinds issued hmem).1, (hkinds issued hmem).2.trans h'.epochs⟩
    · exact hkinds' issued hmem
  down hdown := (h'.down (h.shut.trans hdown)).trans (h.down hdown)

theorem request (store : Store) {kind : Kind} (payload : Payload) (hkind : kinds kind) :
    Extends kinds store (store.request kind payload) := by
  rw [Store.request]
  split
  next => exact refl store
  next hshut =>
    refine ⟨le_rfl, rfl, ⟨_, rfl, ?_⟩, fun h => absurd h hshut⟩
    intro issued hmem
    obtain rfl := List.mem_singleton.mp hmem
    exact ⟨hkind, le_rfl⟩

end Extends

/-- What the operations on the lists and the chart leave alone. -/
structure ReaderSide where
  view : View
  cache : List (String × CachedReader)
  reader : Nat
  find : Nat
  page : Nat

def Store.readerSide (store : Store) : ReaderSide where
  view := store.view
  cache := store.cache
  reader := store.epochs.reader
  find := store.epochs.find
  page := store.epochs.page

/-- What the operations on the reader leave alone: all but rows of the list. -/
structure ListSide where
  lists : Lists
  charts : Charts
  generation : Nat
  activity : Nat

def Store.listSide (store : Store) : ListSide where
  lists := { store.lists with catalog := fun _ => none, batches := fun _ => none, sessions := [] }
  charts := store.charts
  generation := store.epochs.generation
  activity := store.epochs.activity

/-- An operation on the lists and the chart. -/
structure KeepsReader (before after : Store) : Prop where
  side : after.readerSide = before.readerSide
  step : Extends (fun kind => kind.ofReader = false) before after

/-- An operation on the reader. -/
structure KeepsLists (before after : Store) : Prop where
  side : after.listSide = before.listSide
  step : Extends (fun kind => kind.ofReader = true) before after

namespace KeepsReader

variable {first second third : Store}

@[refl] theorem refl (store : Store) : KeepsReader store store := ⟨rfl, Extends.refl store⟩

theorem trans (h : KeepsReader first second) (h' : KeepsReader second third) :
    KeepsReader first third :=
  ⟨h'.side.trans h.side, h.step.trans h'.step⟩

theorem of_eq (hside : second.readerSide = first.readerSide)
    (hepochs : first.epochs ≤ second.epochs)
    (hshut : second.shuttingDown = first.shuttingDown)
    (hrequests : second.requests = first.requests) : KeepsReader first second :=
  ⟨hside, Extends.of_eq hepochs hshut hrequests⟩

theorem request (store : Store) {kind : Kind} (payload : Payload)
    (hkind : kind.ofReader = false) : KeepsReader store (store.request kind payload) := by
  refine ⟨?_, Extends.request store payload hkind⟩
  rw [Store.request]
  split <;> rfl

theorem foldl {α : Type*} {body : Store → α → Store}
    (h : ∀ store item, KeepsReader store (body store item)) (items : List α) (store : Store) :
    KeepsReader store (items.foldl body store) := by
  induction items generalizing store with
  | nil => exact refl store
  | cons item rest ih => exact (h store item).trans (ih (body store item))

end KeepsReader

namespace KeepsLists

variable {first second third : Store}

@[refl] theorem refl (store : Store) : KeepsLists store store := ⟨rfl, Extends.refl store⟩

theorem trans (h : KeepsLists first second) (h' : KeepsLists second third) :
    KeepsLists first third :=
  ⟨h'.side.trans h.side, h.step.trans h'.step⟩

theorem of_eq (hside : second.listSide = first.listSide)
    (hepochs : first.epochs ≤ second.epochs)
    (hshut : second.shuttingDown = first.shuttingDown)
    (hrequests : second.requests = first.requests) : KeepsLists first second :=
  ⟨hside, Extends.of_eq hepochs hshut hrequests⟩

theorem request (store : Store) {kind : Kind} (payload : Payload)
    (hkind : kind.ofReader = true) : KeepsLists store (store.request kind payload) := by
  refine ⟨?_, Extends.request store payload hkind⟩
  rw [Store.request]
  split <;> rfl

end KeepsLists

namespace Store

variable (store : Store) (now : Int)

section KeepsReader

theorem keepsReader_loadMachine (id : String) : KeepsReader store (store.loadMachine now id) := by
  have hpending : KeepsReader store (store.pending 1) := .of_eq rfl le_rfl rfl rfl
  exact (hpending.trans (.request _ _ rfl)).trans (.request _ _ rfl)

theorem keepsReader_refreshMachine (id : String) :
    KeepsReader store (store.refreshMachine now id) := by
  have hpending : KeepsReader (store.loadMachine now id) ((store.loadMachine now id).pending 1) :=
    .of_eq rfl le_rfl rfl rfl
  exact ((keepsReader_loadMachine store now id).trans hpending).trans (.request _ _ rfl)

theorem keepsReader_askActivity : KeepsReader store (store.askActivity now) := by
  have hstart : KeepsReader store
      { store with charts := { store.charts with
          activityPending := store.lists.ids } }.activityStatus.mergeActivity :=
    .of_eq rfl le_rfl rfl rfl
  exact hstart.trans (KeepsReader.foldl (fun _ _ => .request _ _ rfl) _ _)

theorem keepsReader_refreshActivity : KeepsReader store (store.refreshActivity now) := by
  have hle : store.epochs ≤ { store.epochs with activity := store.epochs.activity + 1 } :=
    Epochs.le_iff.mpr ⟨le_rfl, le_rfl, le_rfl, Nat.le_succ _, le_rfl⟩
  rw [refreshActivity]
  dsimp only
  split
  · refine KeepsReader.trans ?_ (keepsReader_askActivity _ now)
    exact .of_eq rfl hle rfl rfl
  · split
    · exact .of_eq rfl hle rfl rfl
    · refine KeepsReader.trans ?_ (keepsReader_askActivity _ now)
      exact .of_eq rfl hle rfl rfl

theorem keepsReader_mergeProjects : KeepsReader store store.mergeProjects :=
  .of_eq rfl le_rfl rfl rfl

theorem keepsReader_error (key : ErrorKey) (text : String) :
    KeepsReader store (store.error key text) := .of_eq rfl le_rfl rfl rfl

theorem keepsReader_refresh : KeepsReader store (store.refresh now) := by
  have hle : store.epochs ≤ { store.epochs with generation := store.epochs.generation + 1 } :=
    Epochs.le_iff.mpr ⟨Nat.le_succ _, le_rfl, le_rfl, le_rfl, le_rfl⟩
  rw [refresh]
  dsimp only
  refine KeepsReader.trans ?_ (keepsReader_refreshActivity _ now)
  refine KeepsReader.trans ?_ (keepsReader_mergeProjects _)
  refine KeepsReader.trans ?_ (KeepsReader.foldl (keepsReader_refreshMachine · now) _ _)
  exact .of_eq rfl hle rfl rfl

theorem keepsReader_acceptRestore (result : Reply) :
    KeepsReader store (store.acceptRestore now result) := by
  cases result with
  | error error => exact .refl store
  | ok value =>
      have htake : KeepsReader store (store.takeSaved (members value)) :=
        .of_eq rfl le_rfl rfl rfl
      rw [acceptRestore]
      split
      · exact htake.trans (keepsReader_refresh _ now)
      · exact htake

theorem keepsReader_setMachines (value : Json) : KeepsReader store (store.setMachines value) := by
  rw [setMachines]
  dsimp only
  split <;> exact .of_eq rfl le_rfl rfl rfl

theorem keepsReader_acceptMachines (result : Reply) :
    KeepsReader store (store.acceptMachines now result) := by
  cases result with
  | ok value => exact (keepsReader_setMachines store _).trans (keepsReader_refresh _ now)
  | error error =>
      refine KeepsReader.trans ?_ (keepsReader_error _ .machines error)
      exact (keepsReader_error store .machines error).trans (keepsReader_refresh _ now)

theorem keepsReader_acceptSessions (id : String) (result : Reply) :
    KeepsReader store (store.acceptSessions id result) := by
  cases result <;> exact .of_eq rfl le_rfl rfl rfl

theorem keepsReader_acceptProjects (id : String) (result : Reply) :
    KeepsReader store (store.acceptProjects id result) := by
  cases result <;> exact .of_eq rfl le_rfl rfl rfl

theorem keepsReader_acceptActivity (id : String) (result : Reply) :
    KeepsReader store (store.acceptActivity now id result) := by
  cases result <;> exact .of_eq rfl le_rfl rfl rfl

/-- A reply to the lists or the chart leaves the reader alone. -/
theorem keepsReader_apply (texts : Texts) {kind : Kind} (hkind : kind.ofReader = false)
    (result : Reply) : KeepsReader store (store.apply texts now kind result) := by
  cases kind with
  | restore => exact keepsReader_acceptRestore store now result
  | machines => exact keepsReader_acceptMachines store now result
  | sessions id => exact keepsReader_acceptSessions store id result
  | count id => exact .of_eq rfl le_rfl rfl rfl
  | projects id => exact keepsReader_acceptProjects store id result
  | activity id => exact keepsReader_acceptActivity store now id result
  | _ => cases hkind

theorem keepsReader_configure (changes : Row) :
    KeepsReader store (store.configure now changes) := by
  rw [configure]
  dsimp only
  split
  · refine KeepsReader.trans ?_ (keepsReader_refresh _ now)
    exact .of_eq rfl le_rfl rfl rfl
  · split
    · refine KeepsReader.trans ?_ (keepsReader_refreshActivity _ now)
      exact .of_eq rfl le_rfl rfl rfl
    · exact .of_eq rfl le_rfl rfl rfl

theorem keepsReader_resetFilters : KeepsReader store (store.resetFilters now) := by
  refine KeepsReader.trans ?_ (keepsReader_refresh _ now)
  exact .of_eq rfl le_rfl rfl rfl

theorem keepsReader_moreSessions : KeepsReader store (store.moreSessions now) := by
  rw [moreSessions]
  split
  · refine KeepsReader.trans ?_ (KeepsReader.foldl (keepsReader_loadMachine · now) _ _)
    exact .of_eq rfl le_rfl rfl rfl
  · rfl

end KeepsReader

section KeepsLists

theorem keepsLists_nextPage : KeepsLists store store.nextPage :=
  .of_eq rfl (Epochs.le_iff.mpr ⟨le_rfl, le_rfl, le_rfl, le_rfl, Nat.le_succ _⟩) rfl rfl

theorem keepsLists_loadPage (start : Nat) (mode : PageMode) (target : String)
    (occurrence : Nat) : KeepsLists store (store.loadPage start mode target occurrence) := by
  rw [loadPage]
  split
  · rfl
  · refine KeepsLists.trans ?_ (.request _ _ rfl)
    refine (keepsLists_nextPage store).trans ?_
    exact .of_eq rfl le_rfl rfl rfl

theorem keepsLists_locatePage (start : Nat) (target : String) :
    KeepsLists store (store.locatePage start target) := by
  refine KeepsLists.trans ?_ (.request _ _ rfl)
  exact .of_eq rfl le_rfl rfl rfl

theorem keepsLists_findPage (start : Nat) : KeepsLists store (store.findPage start) :=
  .request _ _ rfl

theorem keepsLists_saveReader : KeepsLists store store.saveReader := .of_eq rfl le_rfl rfl rfl

theorem keepsLists_navigateFind (direction : Int) :
    KeepsLists store (store.navigateFind direction) := by
  rw [navigateFind]
  dsimp only
  split
  · rfl
  · split
    · rfl
    · split
      · exact .of_eq rfl (keepsLists_nextPage store).step.epochs rfl rfl
      · refine KeepsLists.trans ?_ (keepsLists_loadPage _ _ _ _ _)
        exact .of_eq rfl le_rfl rfl rfl

theorem keepsLists_nextFind : KeepsLists store store.nextFind := by
  rw [nextFind]
  dsimp only
  split
  · exact .of_eq rfl (Epochs.le_iff.mpr
      ⟨le_rfl, le_rfl, Nat.le_succ _, le_rfl, Nat.le_succ _⟩) rfl rfl
  · exact .of_eq rfl (Epochs.le_iff.mpr ⟨le_rfl, le_rfl, Nat.le_succ _, le_rfl, le_rfl⟩) rfl rfl

theorem keepsLists_startFind (text : String) : KeepsLists store (store.startFind text) := by
  rw [startFind]
  dsimp only
  refine (keepsLists_nextFind store).trans ?_
  split
  · refine KeepsLists.trans ?_ (keepsLists_findPage _ _)
    exact .of_eq rfl le_rfl rfl rfl
  · exact .of_eq rfl le_rfl rfl rfl

theorem keepsLists_loadMetadata : KeepsLists store store.loadMetadata := by
  rw [loadMetadata]
  dsimp only
  split
  · rfl
  · refine KeepsLists.trans ?_ (.request _ _ rfl)
    exact .of_eq rfl le_rfl rfl rfl

theorem keepsLists_nextReader : KeepsLists store store.nextReader :=
  .of_eq rfl (Epochs.le_iff.mpr
    ⟨le_rfl, Nat.le_succ _, Nat.le_succ _, le_rfl, Nat.le_succ _⟩) rfl rfl

theorem keepsLists_openSession (session : Row) :
    KeepsLists store (store.openSession session) := by
  rw [openSession]
  dsimp only
  refine (keepsLists_saveReader store).trans ?_
  refine (keepsLists_nextReader _).trans ?_
  split
  · split
    · refine KeepsLists.trans ?_ (keepsLists_loadMetadata _)
      exact .of_eq rfl le_rfl rfl rfl
    · refine KeepsLists.trans ?_ (keepsLists_loadMetadata _)
      refine KeepsLists.trans ?_ (keepsLists_loadPage _ _ _ _ _)
      exact .of_eq rfl le_rfl rfl rfl
  · refine KeepsLists.trans ?_ (keepsLists_loadMetadata _)
    refine KeepsLists.trans ?_ (keepsLists_locatePage _ _ _)
    exact .of_eq rfl le_rfl rfl rfl

theorem keepsLists_acceptMetadata (result : Reply) :
    KeepsLists store (store.acceptMetadata result) := by
  cases result with
  | error error => exact .of_eq rfl le_rfl rfl rfl
  | ok rows =>
      rw [acceptMetadata]
      dsimp only
      split
      · exact .of_eq rfl le_rfl rfl rfl
      · split
        · refine KeepsLists.trans ?_ (.request _ _ rfl)
          exact .of_eq rfl le_rfl rfl rfl
        · exact .of_eq rfl le_rfl rfl rfl

theorem keepsLists_acceptOpeningTitle (texts : Texts) (result : Reply) :
    KeepsLists store (store.acceptOpeningTitle texts result) := by
  cases result with
  | error error => exact .of_eq rfl le_rfl rfl rfl
  | ok page =>
      rw [acceptOpeningTitle]
      dsimp only
      split
      · split <;> exact .of_eq rfl le_rfl rfl rfl
      · exact .of_eq rfl le_rfl rfl rfl

theorem keepsLists_navigatePage (mode : PageMode) (target : String) (occurrence : Nat)
    (rows : List Row) : KeepsLists store (store.navigatePage mode target occurrence rows) := by
  by_cases htarget : target = ""
  · subst htarget
    cases mode with
    | replace => exact .refl store
    | _ =>
        rw [navigatePage.eq_def, if_neg (not_not.mpr rfl)]
        dsimp only
        split <;> exact .of_eq rfl le_rfl rfl rfl
  · rw [navigatePage.eq_def, if_pos htarget]
    exact .of_eq rfl le_rfl rfl rfl

theorem keepsLists_acceptPage (start : Nat) (mode : PageMode) (target : String)
    (occurrence : Nat) (result : Reply) :
    KeepsLists store (store.acceptPage start mode target occurrence result) := by
  cases result with
  | error error => exact .of_eq rfl le_rfl rfl rfl
  | ok value =>
      rw [acceptPage]
      dsimp only
      split
      · refine KeepsLists.trans ?_ (keepsLists_loadPage _ _ _ _ _)
        exact .of_eq rfl le_rfl rfl rfl
      · refine KeepsLists.trans ?_ (keepsLists_saveReader _)
        refine KeepsLists.trans ?_ (keepsLists_navigatePage _ _ _ _ _)
        exact .of_eq rfl le_rfl rfl rfl

theorem keepsLists_acceptLocate (start : Nat) (target : String) (result : Reply) :
    KeepsLists store (store.acceptLocate start target result) := by
  cases result with
  | error error => exact .of_eq rfl le_rfl rfl rfl
  | ok value =>
      rw [acceptLocate]
      split
      · exact keepsLists_loadPage _ _ _ _ _
      · split
        · exact keepsLists_locatePage _ _ _
        · exact keepsLists_loadPage _ _ _ _ _

theorem keepsLists_takeMatches (texts : Texts) (start : Nat) (rows : List Row) :
    KeepsLists store (store.takeMatches texts start rows) := by
  rw [takeMatches]
  dsimp only
  split
  · refine KeepsLists.trans ?_ (keepsLists_navigateFind _ _)
    exact .of_eq rfl le_rfl rfl rfl
  · exact .of_eq rfl le_rfl rfl rfl

theorem keepsLists_acceptFind (texts : Texts) (start : Nat) (result : Reply) :
    KeepsLists store (store.acceptFind texts start result) := by
  cases result with
  | error error => exact .of_eq rfl le_rfl rfl rfl
  | ok value =>
      rw [acceptFind]
      dsimp only
      refine (keepsLists_takeMatches store texts start (decodePage value).1).trans ?_
      split
      · exact keepsLists_findPage _ _
      · exact .of_eq rfl le_rfl rfl rfl

/-- A reply to the reader leaves the lists and the chart alone. -/
theorem keepsLists_apply (texts : Texts) {kind : Kind} (hkind : kind.ofReader = true)
    (result : Reply) : KeepsLists store (store.apply texts now kind result) := by
  cases kind with
  | metadata => exact keepsLists_acceptMetadata store result
  | openingTitle => exact keepsLists_acceptOpeningTitle store texts result
  | page start mode target occurrence => exact keepsLists_acceptPage store _ _ _ _ result
  | locate start target => exact keepsLists_acceptLocate store start target result
  | find start => exact keepsLists_acceptFind store texts start result
  | _ => cases hkind

theorem keepsLists_earlier : KeepsLists store store.earlier := by
  rw [earlier]
  split
  · exact keepsLists_loadPage _ _ _ _ _
  · rfl

theorem keepsLists_later : KeepsLists store store.later := by
  rw [later]
  split
  · exact keepsLists_loadPage _ _ _ _ _
  · rfl

theorem keepsLists_saveAnchor (id offset expansion : Json) :
    KeepsLists store (store.saveAnchor id offset expansion) := .of_eq rfl le_rfl rfl rfl

end KeepsLists

/-- An action other than `shutdown` is one on the lists or one on the reader. -/
theorem action_cases (action : Action) (haction : action ≠ .shutdown) :
    KeepsReader store (store.action now action) ∨ KeepsLists store (store.action now action) := by
  rw [Store.action.eq_def]
  split
  · exact Or.inl (.refl store)
  · cases action with
    | initialise => exact Or.inl (.request _ _ rfl)
    | shutdown => exact absurd rfl haction
    | refresh =>
        refine Or.inl (KeepsReader.trans ?_ (keepsReader_refresh _ now))
        exact .of_eq rfl le_rfl rfl rfl
    | configure changes => exact Or.inl (keepsReader_configure store now changes)
    | resetFilters => exact Or.inl (keepsReader_resetFilters store now)
    | moreSessions => exact Or.inl (keepsReader_moreSessions store now)
    | refreshActivity =>
        refine Or.inl (KeepsReader.trans ?_ (keepsReader_refreshActivity _ now))
        exact .of_eq rfl le_rfl rfl rfl
    | openSession session => exact Or.inr (keepsLists_openSession store session)
    | earlier => exact Or.inr (keepsLists_earlier store)
    | later => exact Or.inr (keepsLists_later store)
    | find text => exact Or.inr (keepsLists_startFind store text)
    | navigateFind direction => exact Or.inr (keepsLists_navigateFind store direction)
    | saveAnchor id offset expansion => exact Or.inr (keepsLists_saveAnchor store _ _ _)

theorem shuttingDown_shutdown : (store.action now .shutdown).shuttingDown = true := by
  rw [action]
  cases hshut : store.shuttingDown with
  | true => exact hshut
  | false => rfl

/-- A reply does not shut the store down or open it again. -/
theorem shut_accept (texts : Texts) (request : Request) (result : Reply) :
    (store.accept texts now request result).shuttingDown = store.shuttingDown := by
  rw [accept]
  split
  · rfl
  · cases hkind : request.kind.ofReader with
    | true => exact (keepsLists_apply (store.retire request) now texts hkind result).step.shut
    | false => exact (keepsReader_apply (store.retire request) now texts hkind result).step.shut

end Store

end Memex.Qt
