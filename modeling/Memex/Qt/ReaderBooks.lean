import Memex.Qt.Bookkeeping

/-! # The busy flags of the reader

At most one page, one find and one details request is waited for at a time, and the flag of
each says whether there is one. -/

namespace Memex.Qt

open Sources

namespace Store

variable {store : Store} {channel : Channel}

/-- The flags of the reader are right. -/
def ReaderBalanced (store : Store) : Prop :=
  ∀ channel : Channel, channel.ofReader = true → store.Balanced channel

theorem readerBalanced_iff :
    store.ReaderBalanced ↔
      store.Balanced .reader ∧ store.Balanced .find ∧ store.Balanced .details := by
  constructor
  · exact fun h => ⟨h _ rfl, h _ rfl, h _ rfl⟩
  · rintro ⟨hreader, hfind, hdetails⟩ channel hchannel
    cases channel with
    | reader => exact hreader
    | find => exact hfind
    | details => exact hdetails
    | lists => exact absurd hchannel Bool.false_ne_true
    | chart machine => exact absurd hchannel Bool.false_ne_true

section Epochs

theorem waiting_nextPage_reader (hpast : store.Past) : store.nextPage.waiting .reader = 0 := by
  apply waiting_eq_zero hpast (keepsLists_nextPage store).step.epochs _ rfl
  intro h
  exact Nat.succ_ne_self _ (congrArg Prod.snd h)

theorem waiting_nextPage (h : channel ≠ .reader) :
    store.nextPage.waiting channel = store.waiting channel := by
  refine waiting_congr ?_ rfl
  cases channel <;> first | rfl | exact absurd rfl h

theorem waiting_nextReader (hpast : store.Past) (hchannel : channel.ofReader = true) :
    store.nextReader.waiting channel = 0 := by
  apply waiting_eq_zero hpast (keepsLists_nextReader store).step.epochs _ rfl
  intro h
  cases channel <;>
    first
      | exact absurd hchannel Bool.false_ne_true
      | exact Nat.succ_ne_self _ (congrArg Prod.fst h)

/-- The next find overtakes the older one. -/
theorem waiting_nextFind_find (hpast : store.Past) : store.nextFind.waiting .find = 0 := by
  apply waiting_eq_zero hpast (keepsLists_nextFind store).step.epochs
  · intro h
    rw [nextFind] at h
    dsimp only at h
    split at h <;> exact Nat.succ_ne_self _ (congrArg Prod.snd h)
  · rw [nextFind]
    dsimp only
    split <;> rfl

theorem nextFind_cases (store : Store) :
    ((store.nextFind.epochs = { store.epochs with
        find := store.epochs.find + 1, page := store.epochs.page + 1 } ∧
      store.nextFind.view = { store.view with readerBusy := false }) ∨
     (store.nextFind.epochs = { store.epochs with find := store.epochs.find + 1 } ∧
      store.nextFind.view = store.view)) ∧
    store.nextFind.requests = store.requests ∧ store.nextFind.cache = store.cache ∧
      store.nextFind.shuttingDown = store.shuttingDown := by
  rw [nextFind]
  dsimp only
  split
  · exact ⟨Or.inl ⟨rfl, rfl⟩, rfl, rfl, rfl⟩
  · exact ⟨Or.inr ⟨rfl, rfl⟩, rfl, rfl, rfl⟩

end Epochs

section Pages

/-- A request of another kind changes nothing on a channel. -/
theorem waiting_request_other {kind : Kind} (hcarries : channel.carries kind = false)
    (payload : Payload) :
    (store.request kind payload).waiting channel = store.waiting channel := by
  apply (@Extends.request (· = kind) store kind payload rfl).waiting_eq
  · rintro _ rfl
    exact hcarries
  · rw [epochs_request]

theorem loadPage_eq (hselected : store.view.selected.isSome = true) (start : Nat)
    (mode : PageMode) (target : String) (occurrence : Nat) :
    store.loadPage start mode target occurrence =
      { store.nextPage with
        view := { store.view with readerBusy := true, readerError := "" } }.request
        (.page start mode target occurrence)
        (store.pagePayload start (pageLimit store.view start mode)) := by
  have hnone : store.view.selected.isNone = false := by
    rw [← Option.not_isSome, hselected]
    rfl
  rw [loadPage, hnone]
  rfl

/-- After a page was asked for, the reader is busy with it alone. -/
theorem balanced_loadPage (hopen : store.shuttingDown = false) (hpast : store.Past)
    (hselected : store.view.selected.isSome = true) (start : Nat) (mode : PageMode)
    (target : String) (occurrence : Nat) (hchannel : channel.ofReader = true)
    (h : channel ≠ .reader → store.Balanced channel) :
    (store.loadPage start mode target occurrence).Balanced channel := by
  rw [loadPage_eq hselected, Balanced, indicator_request]
  refine (waiting_request (by exact hopen) _ _).trans ?_
  cases channel with
  | reader =>
      have hzero := waiting_nextPage_reader hpast
      simp only [Channel.carries, indicator, Bool.toNat_true, if_true]
      exact congrArg (· + 1) hzero
  | find =>
      rw [if_neg (by simp [Channel.carries]), Nat.add_zero]
      refine Eq.trans ?_ (h (by simp))
      exact waiting_nextPage (by simp)
  | details =>
      rw [if_neg (by simp [Channel.carries]), Nat.add_zero]
      refine Eq.trans ?_ (h (by simp))
      exact waiting_nextPage (by simp)
  | lists => exact absurd hchannel Bool.false_ne_true
  | chart machine => exact absurd hchannel Bool.false_ne_true

theorem balanced_locatePage (hopen : store.shuttingDown = false)
    (hreader : store.waiting .reader = 0) (start : Nat) (target : String)
    (hchannel : channel.ofReader = true) (h : channel ≠ .reader → store.Balanced channel) :
    (store.locatePage start target).Balanced channel := by
  rw [locatePage, Balanced, indicator_request]
  refine (waiting_request (by exact hopen) _ _).trans ?_
  cases channel with
  | reader =>
      simp only [Channel.carries, indicator, Bool.toNat_true, if_true]
      exact congrArg (· + 1) hreader
  | find =>
      rw [if_neg (by simp [Channel.carries]), Nat.add_zero]
      exact h (by simp)
  | details =>
      rw [if_neg (by simp [Channel.carries]), Nat.add_zero]
      exact h (by simp)
  | lists => exact absurd hchannel Bool.false_ne_true
  | chart machine => exact absurd hchannel Bool.false_ne_true

theorem waiting_findPage (hopen : store.shuttingDown = false) (start : Nat) :
    (store.findPage start).waiting channel =
      store.waiting channel + if channel.carries (.find start) = true then 1 else 0 :=
  waiting_request hopen _ _

@[simp] theorem view_findPage (start : Nat) : (store.findPage start).view = store.view :=
  view_request _ _

end Pages

section Find

/-- A match is gone to. -/
def atMatch (store : Store) (index : Nat) : Store :=
  { store with view := { store.view with matchIndex := index } }

/-- A match in the window is gone to at once. -/
def showMatch (store : Store) (target : Match) : Store :=
  { store.nextPage with view := { store.view with readerBusy := false } }.navigate target.id
    target.occurrence

/-- Some record of the window has an id. -/
def shows (view : View) (id : String) : Bool :=
  view.records.any fun row => string row "record_id" == id

/-- What `navigateFind` does: nothing, or it goes to a match within the window, or it asks for
the page around a match. -/
theorem navigateFind_cases (store : Store) (direction : Int) :
    (store.navigateFind direction = store ∧ store.view.foundMatches = []) ∨
    ∃ index target, store.view.foundMatches[index]? = some target ∧
      ((shows store.view target.id = true ∧
          store.navigateFind direction = (store.atMatch index).showMatch target) ∨
        (shows store.view target.id = false ∧
          store.navigateFind direction =
            (store.atMatch index).loadPage (target.offset - 30) .replace target.id
              target.occurrence)) := by
  rw [navigateFind]
  dsimp only
  by_cases hnil : store.view.foundMatches = []
  · exact Or.inl ⟨if_pos hnil, hnil⟩
  · rw [if_neg hnil]
    refine Or.inr ?_
    have hpositive : (0 : Int) < store.view.foundMatches.length :=
      Int.natCast_pos.mpr (List.length_pos_iff.mpr hnil)
    generalize (if store.view.matchIndex < 0 ∧ direction < 0 then 0
      else store.view.matchIndex) + direction = position
    have hlt : (position % store.view.foundMatches.length).toNat <
        store.view.foundMatches.length := by
      have hbelow := Int.emod_lt_of_pos position hpositive
      have hnonneg := Int.emod_nonneg position (ne_of_gt hpositive)
      omega
    have htarget := List.getElem?_eq_getElem hlt
    refine ⟨_, _, htarget, ?_⟩
    rw [htarget]
    dsimp only
    split
    next hshown => exact Or.inl ⟨hshown, rfl⟩
    next hshown => exact Or.inr ⟨Bool.eq_false_iff.mpr hshown, rfl⟩

theorem balanced_navigateFind (hopen : store.shuttingDown = false) (hpast : store.Past)
    (direction : Int) (hchannel : channel.ofReader = true) (h : store.Balanced channel) :
    (store.navigateFind direction).Balanced channel := by
  obtain ⟨heq, -⟩ | ⟨index, target, -, ⟨-, heq⟩ | ⟨-, heq⟩⟩ := navigateFind_cases store direction
  · rw [heq]
    exact h
  · rw [heq]
    by_cases hreader : channel = .reader
    · subst hreader
      exact @waiting_nextPage_reader (store.atMatch index) hpast
    · refine (@waiting_nextPage (store.atMatch index) _ hreader).trans (h.trans ?_)
      cases channel <;> first | rfl | exact absurd rfl hreader
  · rw [heq]
    have hmatch : (store.atMatch index).Balanced channel := h.trans (by cases channel <;> rfl)
    by_cases hselected : store.view.selected.isSome = true
    · exact @balanced_loadPage (store.atMatch index) _ hopen hpast hselected _ _ _ _ hchannel
        fun _ => hmatch
    · rw [loadPage, if_pos (by
        rwa [Bool.not_eq_true, ← Bool.not_eq_true', Option.not_isSome] at hselected)]
      exact hmatch

end Find

section Selected

/-- What tells the selected conversation from others, and what its pages are asked for by. -/
def key (store : Store) : Option (String × PageKey) :=
  store.view.selected.map fun row => (identity row, pageKey row)

theorem isSome_key : store.key.isSome = store.view.selected.isSome := Option.isSome_map

theorem key_eq_of_selected {before after : Store}
    (h : after.view.selected = before.view.selected) : after.key = before.key := by
  rw [key, key, h]

@[simp] theorem selected_loadPage (start : Nat) (mode : PageMode) (target : String)
    (occurrence : Nat) :
    (store.loadPage start mode target occurrence).view.selected = store.view.selected := by
  rw [loadPage]
  split
  · rfl
  · rw [view_request]
    rfl

@[simp] theorem selected_locatePage (start : Nat) (target : String) :
    (store.locatePage start target).view.selected = store.view.selected := by
  rw [locatePage, view_request]

@[simp] theorem view_saveReader : store.saveReader.view = store.view := rfl

@[simp] theorem selected_navigateFind (direction : Int) :
    (store.navigateFind direction).view.selected = store.view.selected := by
  obtain ⟨heq, -⟩ | ⟨index, target, -, ⟨-, heq⟩ | ⟨-, heq⟩⟩ := navigateFind_cases store direction
  · rw [heq]
  · rw [heq]
    rfl
  · rw [heq, selected_loadPage]
    rfl

@[simp] theorem selected_startFind (text : String) :
    (store.startFind text).view.selected = store.view.selected := by
  have hview : store.nextFind.view.selected = store.view.selected := by
    obtain ⟨⟨-, hview⟩ | ⟨-, hview⟩, -⟩ := nextFind_cases store <;> rw [hview]
  rw [startFind]
  dsimp only
  split
  · rw [view_findPage]
    exact hview
  · exact hview

@[simp] theorem selected_loadMetadata :
    store.loadMetadata.view.selected = store.view.selected := by
  rw [loadMetadata]
  dsimp only
  split
  · rfl
  · rw [view_request]

/-- The conversation that was opened is selected. -/
theorem selected_openSession (session : Row) :
    (store.openSession session).view.selected = some session := by
  rw [openSession]
  dsimp only
  split
  · split
    · rw [selected_loadMetadata]
      rfl
    · rw [selected_loadMetadata, selected_loadPage]
      rfl
  · rw [selected_loadMetadata, selected_locatePage]
    rfl

@[simp] theorem selected_navigatePage (mode : PageMode) (target : String) (occurrence : Nat)
    (rows : List Row) :
    (store.navigatePage mode target occurrence rows).view.selected = store.view.selected := by
  rw [navigatePage.eq_def]
  split
  · rfl
  · split
    · dsimp only
      split <;> rfl
    · dsimp only
      split <;> rfl
    · split <;> rfl
    · rfl

@[simp] theorem selected_takeMatches (texts : Texts) (start : Nat) (rows : List Row) :
    (store.takeMatches texts start rows).view.selected = store.view.selected := by
  rw [takeMatches]
  dsimp only
  split
  · rw [selected_navigateFind]
    rfl
  · rfl

theorem selected_combineRows (view : View) (start : Nat) (mode : PageMode) (rows : List Row) :
    (combineRows view start mode rows).selected = view.selected := by
  cases mode <;> rfl

theorem flags_combineRows (view : View) (start : Nat) (mode : PageMode) (rows : List Row) :
    (combineRows view start mode rows).readerBusy = view.readerBusy ∧
      (combineRows view start mode rows).finding = view.finding ∧
      (combineRows view start mode rows).metadataBusy = view.metadataBusy := by
  cases mode <;> exact ⟨rfl, rfl, rfl⟩

theorem selected_acceptPage (start : Nat) (mode : PageMode) (target : String)
    (occurrence : Nat) (result : Reply) :
    (store.acceptPage start mode target occurrence result).view.selected =
      store.view.selected := by
  cases result with
  | error error => rfl
  | ok value =>
      rw [acceptPage]
      dsimp only
      split
      · rw [selected_loadPage]
      · rw [view_saveReader, selected_navigatePage]
        exact selected_combineRows _ _ _ _

theorem selected_acceptLocate (start : Nat) (target : String) (result : Reply) :
    (store.acceptLocate start target result).view.selected = store.view.selected := by
  cases result with
  | error error => rfl
  | ok value =>
      rw [acceptLocate]
      split
      · rw [selected_loadPage]
      · split
        · rw [selected_locatePage]
        · rw [selected_loadPage]

theorem selected_acceptFind (texts : Texts) (start : Nat) (result : Reply) :
    (store.acceptFind texts start result).view.selected = store.view.selected := by
  cases result with
  | error error => rfl
  | ok value =>
      rw [acceptFind]
      dsimp only
      split
      · rw [view_findPage, selected_takeMatches]
      · rw [selected_takeMatches]

/-- Details that agree on what tells conversations apart leave the selected one what it is. -/
theorem key_applyMetadata {metadata : Row} (hselected : store.view.selected.isSome = true)
    (h : ∀ field ∈ ["source", "session_id", "source_path"], applies metadata field = true →
      (metadata field).asStr = (store.selection field).asStr) :
    (store.applyMetadata metadata).key = store.key := by
  obtain ⟨selected, hsome⟩ := Option.isSome_iff_exists.mp hselected
  have hselection : store.selection = selected := by
    rw [selection, hsome]
    rfl
  rw [hselection] at h
  have hcongr : identity (fun field => if applies metadata field then metadata field
        else selected field) = identity selected ∧
      pageKey (fun field => if applies metadata field then metadata field
        else selected field) = pageKey selected := by
    apply identity_congr
    intro field hfield
    by_cases happlies : applies metadata field = true
    · rw [if_pos happlies]
      apply h field _ happlies
      rcases List.mem_cons.mp hfield with rfl | hfield
      · exact absurd happlies (by simp [applies])
      · exact hfield
    · rw [if_neg happlies]
  rw [key, key, hsome, applyMetadata, hselection]
  simp only [Option.map_some, hcongr.1, hcongr.2]

theorem asStr_eq_of_sameText {reply selected : Row} {field : String}
    (h : sameText reply selected field = true) :
    (reply field).asStr = (selected field).asStr := by
  rw [sameText] at h
  split at h
  next hleft hright => rw [hleft, hright, beq_iff_eq.mp h]
  next => exact absurd h Bool.false_ne_true

theorem key_applyMetadata_detail {detail : Row}
    (hselected : store.view.selected.isSome = true)
    (hdetail : isDetail store.selection detail = true) :
    (store.applyMetadata detail).key = store.key := by
  apply key_applyMetadata hselected
  intro field hfield _
  rw [isDetail, Bool.and_eq_true, List.all_eq_true] at hdetail
  exact asStr_eq_of_sameText (hdetail.1 field hfield)

theorem key_applyMetadata_label (hselected : store.view.selected.isSome = true)
    (title : String) : (store.applyMetadata (labelRow title)).key = store.key := by
  apply key_applyMetadata hselected
  intro field hfield happlies
  have hne : field ≠ "label" := by
    rintro rfl
    exact absurd hfield (by decide)
  rw [applies, labelRow, if_neg hne] at happlies
  exact absurd happlies (by simp [isNull])

/-- A reply to the reader leaves the selected conversation what it is. -/
theorem key_apply (texts : Texts) (now : Int) {kind : Kind} (hkind : kind.ofReader = true)
    (hselected : store.view.selected.isSome = true) (result : Reply) :
    (store.apply texts now kind result).key = store.key := by
  cases kind with
  | page start mode target occurrence =>
      exact key_eq_of_selected (selected_acceptPage _ _ _ _ _)
  | locate start target => exact key_eq_of_selected (selected_acceptLocate _ _ _)
  | find start => exact key_eq_of_selected (selected_acceptFind _ _ _)
  | metadata =>
      cases result with
      | error error => rfl
      | ok rows =>
          rw [apply, acceptMetadata]
          dsimp only
          split
          · rfl
          next detail hdetail =>
            have hkey := @key_applyMetadata_detail
              { store with view := { store.view with metadataBusy := false } } _
              hselected (List.find?_some hdetail)
            split
            · refine Eq.trans ?_ hkey
              exact key_eq_of_selected (by rw [view_request])
            · exact hkey
  | openingTitle =>
      cases result with
      | error error => rfl
      | ok page =>
          rw [apply, acceptOpeningTitle]
          dsimp only
          split
          · split
            · exact @key_applyMetadata_label
                { store with view := { store.view with metadataBusy := false } } hselected _
            · rfl
          · rfl
  | _ => cases hkind

end Selected

section Balance

theorem balanced_loadMetadata (hopen : store.shuttingDown = false)
    (hdetails : store.Balanced .details) (hidle : store.view.metadataBusy = false)
    (h : store.Balanced channel) : store.loadMetadata.Balanced channel := by
  rw [loadMetadata]
  dsimp only
  split
  · exact h
  · rw [Balanced, indicator_request]
    refine (waiting_request (by exact hopen) _ _).trans ?_
    cases channel with
    | details =>
        have hzero : store.waiting .details = 0 := by
          rw [hdetails, indicator, hidle]
          rfl
        exact congrArg (· + 1) hzero
    | _ => exact h

@[simp] theorem metadataBusy_loadPage (start : Nat) (mode : PageMode) (target : String)
    (occurrence : Nat) :
    (store.loadPage start mode target occurrence).view.metadataBusy = store.view.metadataBusy := by
  rw [loadPage]
  split
  · rfl
  · rw [view_request]
    rfl

/-- The flags are right after a conversation was opened. -/
theorem balanced_openSession (hopen : store.shuttingDown = false) (hpast : store.Past)
    (session : Row) : (store.openSession session).ReaderBalanced := by
  intro channel hchannel
  have hsave := keepsLists_saveReader store
  have hnext := keepsLists_nextReader store.saveReader
  have hopen' : store.saveReader.nextReader.shuttingDown = false :=
    hnext.step.shut.trans (hsave.step.shut.trans hopen)
  have hpast' : store.saveReader.nextReader.Past := hnext.step.past (hsave.step.past hpast)
  have hzero : ∀ channel : Channel, channel.ofReader = true →
      store.saveReader.nextReader.waiting channel = 0 :=
    fun channel hchannel => waiting_nextReader (hsave.step.past hpast) hchannel
  have hempty : ∀ channel : Channel, channel.ofReader = true →
      { store.saveReader.nextReader with
        view := emptyView store.saveReader.nextReader.view session }.Balanced channel := by
    intro channel hchannel
    refine (hzero channel hchannel).trans ?_
    cases channel <;> first | rfl | exact absurd hchannel Bool.false_ne_true
  rw [openSession]
  dsimp only
  split
  · split
    · apply balanced_loadMetadata (by exact hopen')
      · exact hempty .details rfl
      · rfl
      · refine (hempty channel hchannel).trans ?_
        cases channel <;> rfl
    · apply balanced_loadMetadata
      · exact (keepsLists_loadPage _ _ _ _ _).step.shut.trans hopen'
      · exact balanced_loadPage (by exact hopen') (by exact hpast') rfl _ _ _ _ rfl
          fun _ => hempty .details rfl
      · rw [metadataBusy_loadPage]
        rfl
      · exact balanced_loadPage (by exact hopen') (by exact hpast') rfl _ _ _ _ hchannel
          fun _ => hempty channel hchannel
  · apply balanced_loadMetadata
    · exact (keepsLists_locatePage _ _ _).step.shut.trans hopen'
    · exact balanced_locatePage (by exact hopen') (hempty .reader rfl) _ _ rfl
        fun _ => hempty .details rfl
    · rw [locatePage, view_request]
      rfl
    · exact balanced_locatePage (by exact hopen') (hempty .reader rfl) _ _ hchannel
        fun _ => hempty channel hchannel

theorem waiting_nextFind (hpast : store.Past) (hchannel : channel.ofReader = true)
    (hne : channel ≠ .find) (h : store.Balanced channel) : store.nextFind.Balanced channel := by
  obtain ⟨hcases, hrequests, -, -⟩ := nextFind_cases store
  have hle := (keepsLists_nextFind store).step.epochs
  cases channel with
  | find => exact absurd rfl hne
  | details =>
      obtain ⟨hepochs, hview⟩ | ⟨hepochs, hview⟩ := hcases
      · rw [Balanced, waiting_congr (by rw [hepochs]; rfl) hrequests, indicator, hview]
        exact h
      · rw [Balanced, waiting_congr (by rw [hepochs]; rfl) hrequests, indicator, hview]
        exact h
  | reader =>
      obtain ⟨hepochs, hview⟩ | ⟨hepochs, hview⟩ := hcases
      · rw [Balanced, waiting_eq_zero hpast hle _ hrequests, indicator, hview]
        · rfl
        · intro heq
          rw [hepochs] at heq
          exact Nat.succ_ne_self _ (congrArg Prod.snd heq)
      · rw [Balanced, waiting_congr (by rw [hepochs]; rfl) hrequests, indicator, hview]
        exact h
  | lists => exact absurd hchannel Bool.false_ne_true
  | chart machine => exact absurd hchannel Bool.false_ne_true

theorem balanced_startFind (hopen : store.shuttingDown = false) (hpast : store.Past)
    (h : store.ReaderBalanced) (text : String) : (store.startFind text).ReaderBalanced := by
  intro channel hchannel
  have hopen' : store.nextFind.shuttingDown = false :=
    (keepsLists_nextFind store).step.shut.trans hopen
  have hzero := waiting_nextFind_find hpast
  have hother : channel ≠ .find → store.nextFind.Balanced channel :=
    fun hne => waiting_nextFind hpast hchannel hne (h channel hchannel)
  rw [startFind]
  dsimp only
  split
  next hactive =>
    rw [Balanced, findPage, indicator_request]
    refine (waiting_request (by exact hopen') _ _).trans ?_
    cases channel with
    | find =>
        rw [indicator, hactive]
        exact congrArg (· + 1) hzero
    | reader => exact hother (by simp)
    | details => exact hother (by simp)
    | lists => exact absurd hchannel Bool.false_ne_true
    | chart machine => exact absurd hchannel Bool.false_ne_true
  next hactive =>
    cases channel with
    | find =>
        rw [Balanced, indicator, Bool.eq_false_iff.mpr hactive]
        exact hzero
    | reader => exact hother (by simp)
    | details => exact hother (by simp)
    | lists => exact absurd hchannel Bool.false_ne_true
    | chart machine => exact absurd hchannel Bool.false_ne_true

end Balance

section Replies

/-- The one request of a channel was answered; its flag is still up. -/
structure AnsweredOn (store : Store) (channel : Channel) : Prop where
  waiting : store.waiting channel = 0
  flag : store.indicator channel = 1
  others : ∀ other : Channel, other.ofReader = true → other ≠ channel → store.Balanced other

theorem AnsweredOn.of_waits {before : Store} {index : Nat} {issued : Issued}
    (h : before.ReaderBalanced) (hindex : before.requests[index]? = some issued)
    (hchannel : channel.ofReader = true) (hcarries : channel.carries issued.request.kind = true)
    (hcurrent : before.epochs.stale issued.request = false) :
    (before.answered index).AnsweredOn channel := by
  have hwaits : before.waits channel issued = true := by
    rw [waits, hcarries, hcurrent]
    rfl
  have hcount := @waiting_answered before channel index issued hindex
  rw [if_pos hwaits, h channel hchannel] at hcount
  have hflag : before.indicator channel ≤ 1 := by
    cases channel <;>
      first
        | exact absurd hchannel Bool.false_ne_true
        | exact Bool.toNat_le _
  have hindicator : (before.answered index).indicator channel = before.indicator channel := by
    cases channel <;> rfl
  refine ⟨by omega, by omega, ?_⟩
  intro other hother hne
  have hsilent : before.waits other issued = false := by
    rw [waits, Bool.and_eq_false_iff]
    left
    by_contra hboth
    have hboth := Bool.eq_true_of_not_eq_false hboth
    generalize issued.request.kind = kind at hcarries hboth
    cases channel <;> cases other <;> cases kind <;>
      first
        | exact absurd rfl hne
        | exact absurd hchannel Bool.false_ne_true
        | exact absurd hother Bool.false_ne_true
        | exact absurd hcarries Bool.false_ne_true
        | exact absurd hboth Bool.false_ne_true
  have hcount' := @waiting_answered before other index issued hindex
  rw [hsilent, if_neg Bool.false_ne_true, Nat.add_zero, h other hother] at hcount'
  refine hcount'.symm.trans ?_
  cases other <;> rfl

/-- The flags and the requests of the reader decide whether the flags are right. -/
theorem balanced_congr {after : Store} (hepochs : after.epochs = store.epochs)
    (hrequests : after.requests = store.requests)
    (hbusy : after.view.readerBusy = store.view.readerBusy)
    (hfinding : after.view.finding = store.view.finding)
    (hmetadata : after.view.metadataBusy = store.view.metadataBusy)
    (hchannel : channel.ofReader = true) (h : store.Balanced channel) :
    after.Balanced channel := by
  have hwaiting : after.waiting channel = store.waiting channel :=
    waiting_congr (by rw [hepochs]) hrequests
  refine hwaiting.trans (h.trans ?_)
  cases channel with
  | reader => rw [indicator, indicator, hbusy]
  | find => rw [indicator, indicator, hfinding]
  | details => rw [indicator, indicator, hmetadata]
  | lists => exact absurd hchannel Bool.false_ne_true
  | chart machine => exact absurd hchannel Bool.false_ne_true

/-- A view that differs in where the reader is and nothing else. -/
structure SameWindow (before after : View) : Prop where
  selected : after.selected = before.selected
  records : after.records = before.records
  offset : after.offset = before.offset
  recordTotal : after.recordTotal = before.recordTotal
  readerBusy : after.readerBusy = before.readerBusy
  readerError : after.readerError = before.readerError
  metadataBusy : after.metadataBusy = before.metadataBusy
  findText : after.findText = before.findText
  foundMatches : after.foundMatches = before.foundMatches
  finding : after.finding = before.finding
  findError : after.findError = before.findError
  scannedRecords : after.scannedRecords = before.scannedRecords

theorem SameWindow.refl (view : View) : SameWindow view view :=
  ⟨rfl, rfl, rfl, rfl, rfl, rfl, rfl, rfl, rfl, rfl, rfl, rfl⟩

/-- A navigation within the window changes where the reader is and nothing else. -/
theorem navigatePage_eq (store : Store) (mode : PageMode) (target : String) (occurrence : Nat)
    (rows : List Row) :
    ∃ view, store.navigatePage mode target occurrence rows = { store with view } ∧
      SameWindow store.view view := by
  rw [navigatePage.eq_def]
  split
  · exact ⟨_, rfl, ⟨rfl, rfl, rfl, rfl, rfl, rfl, rfl, rfl, rfl, rfl, rfl, rfl⟩⟩
  · split
    · dsimp only
      split <;> exact ⟨_, rfl, ⟨rfl, rfl, rfl, rfl, rfl, rfl, rfl, rfl, rfl, rfl, rfl, rfl⟩⟩
    · dsimp only
      split <;> exact ⟨_, rfl, ⟨rfl, rfl, rfl, rfl, rfl, rfl, rfl, rfl, rfl, rfl, rfl, rfl⟩⟩
    · split <;> exact ⟨_, rfl, ⟨rfl, rfl, rfl, rfl, rfl, rfl, rfl, rfl, rfl, rfl, rfl, rfl⟩⟩
    · exact ⟨_, rfl, SameWindow.refl _⟩

/-- The view while a page is taken in. -/
def pageView (view : View) (total : Nat) : View :=
  { view with readerBusy := false, recordTotal := total }

/-- What a page does: the last page is asked for instead, or its records go into the window. -/
theorem acceptPage_ok (store : Store) (start : Nat) (mode : PageMode) (target : String)
    (occurrence : Nat) (value : Json) :
    (mode = .initial ∧ start ≠ (decodePage value).2 - 60 ∧
      store.acceptPage start mode target occurrence (.ok value) =
        { store with view := pageView store.view (decodePage value).2 }.loadPage
          ((decodePage value).2 - 60) .initial "" 0) ∨
    ((mode = .initial → start = (decodePage value).2 - 60) ∧
      ∃ view, store.acceptPage start mode target occurrence (.ok value) =
          { store with view, cache := keepReader view store.cache } ∧
        SameWindow (combineRows (pageView store.view (decodePage value).2) start mode
          (decodePage value).1) view) := by
  rw [acceptPage]
  dsimp only
  split
  next hreload => exact Or.inl ⟨hreload.1, hreload.2, rfl⟩
  next hreload =>
    right
    constructor
    · intro hmode
      by_contra hne
      exact hreload ⟨hmode, hne⟩
    · obtain ⟨view, heq, hsame⟩ := navigatePage_eq
        { store with
          view := combineRows (pageView store.view (decodePage value).2) start mode
            (decodePage value).1 } mode target occurrence (decodePage value).1
      refine ⟨view, ?_, hsame⟩
      rw [pageView] at heq
      rw [heq]
      rfl

/-- The flags of a view in the middle of a reply to the reader. -/
theorem AnsweredOn.idle (h : store.AnsweredOn .reader) {view : View}
    (hbusy : view.readerBusy = false) (hfinding : view.finding = store.view.finding)
    (hmetadata : view.metadataBusy = store.view.metadataBusy) :
    { store with view }.ReaderBalanced := by
  rw [readerBalanced_iff]
  refine ⟨?_, ?_, ?_⟩
  · rw [Balanced, indicator, hbusy]
    exact h.waiting
  · rw [Balanced, indicator, hfinding]
    exact h.others .find rfl (by simp)
  · rw [Balanced, indicator, hmetadata]
    exact h.others .details rfl (by simp)

variable (hopen : store.shuttingDown = false) (hpast : store.Past)
  (hselected : store.view.selected.isSome = true)

include hopen hpast hselected

theorem balanced_acceptPage (h : store.AnsweredOn .reader) (start : Nat) (mode : PageMode)
    (target : String) (occurrence : Nat) (result : Reply) :
    (store.acceptPage start mode target occurrence result).ReaderBalanced := by
  intro channel hchannel
  cases result with
  | error error => exact h.idle (by rfl) (by rfl) (by rfl) channel hchannel
  | ok value =>
      obtain ⟨-, -, heq⟩ | ⟨-, view, heq, hsame⟩ :=
        acceptPage_ok store start mode target occurrence value
      · rw [heq]
        apply balanced_loadPage (by exact hopen) (by exact hpast) (by exact hselected) _ _ _ _
          hchannel
        exact fun _ => h.idle (by rfl) (by rfl) (by rfl) channel hchannel
      · rw [heq]
        have hflags := flags_combineRows (pageView store.view (decodePage value).2) start mode
          (decodePage value).1
        have hview : { store with view }.Balanced channel :=
          h.idle (hsame.readerBusy.trans hflags.1) (hsame.finding.trans hflags.2.1)
            (hsame.metadataBusy.trans hflags.2.2) channel hchannel
        exact balanced_congr (by rfl) (by rfl) (by rfl) (by rfl) (by rfl) hchannel hview

theorem balanced_acceptLocate (h : store.AnsweredOn .reader) (start : Nat) (target : String)
    (result : Reply) : (store.acceptLocate start target result).ReaderBalanced := by
  intro channel hchannel
  have hothers : channel ≠ .reader → store.Balanced channel := h.others channel hchannel
  cases result with
  | error error => exact h.idle (by rfl) (by rfl) (by rfl) channel hchannel
  | ok value =>
      rw [acceptLocate]
      split
      · exact balanced_loadPage hopen hpast hselected _ _ _ _ hchannel hothers
      · split
        · exact balanced_locatePage hopen h.waiting _ _ hchannel hothers
        · exact balanced_loadPage hopen hpast hselected _ _ _ _ hchannel hothers

omit hpast hselected in
theorem balanced_acceptMetadata (h : store.AnsweredOn .details) (result : Reply) :
    (store.acceptMetadata result).ReaderBalanced := by
  intro channel hchannel
  have hidle : { store with view := { store.view with metadataBusy := false } }.Balanced
      channel := by
    cases channel with
    | details => exact h.waiting
    | reader => exact h.others .reader rfl (by simp)
    | find => exact h.others .find rfl (by simp)
    | lists => exact absurd hchannel Bool.false_ne_true
    | chart machine => exact absurd hchannel Bool.false_ne_true
  cases result with
  | error error =>
      exact balanced_congr (by rfl) (by rfl) (by rfl) (by rfl) (by rfl) hchannel hidle
  | ok rows =>
      rw [acceptMetadata]
      dsimp only
      split
      · exact balanced_congr (by rfl) (by rfl) (by rfl) (by rfl) (by rfl) hchannel hidle
      · split
        · rw [Balanced, indicator_request]
          refine (waiting_request (by exact hopen) _ _).trans ?_
          cases channel with
          | details => exact congrArg (· + 1) h.waiting
          | reader => exact hidle
          | find => exact hidle
          | lists => exact absurd hchannel Bool.false_ne_true
          | chart machine => exact absurd hchannel Bool.false_ne_true
        · exact balanced_congr (by rfl) (by rfl) (by rfl) (by rfl) (by rfl) hchannel hidle

omit hopen hpast hselected in
theorem balanced_acceptOpeningTitle (texts : Texts) (h : store.AnsweredOn .details)
    (result : Reply) : (store.acceptOpeningTitle texts result).ReaderBalanced := by
  intro channel hchannel
  have hidle : { store with view := { store.view with metadataBusy := false } }.Balanced
      channel := by
    cases channel with
    | details => exact h.waiting
    | reader => exact h.others .reader rfl (by simp)
    | find => exact h.others .find rfl (by simp)
    | lists => exact absurd hchannel Bool.false_ne_true
    | chart machine => exact absurd hchannel Bool.false_ne_true
  cases result with
  | error error =>
      exact balanced_congr (by rfl) (by rfl) (by rfl) (by rfl) (by rfl) hchannel hidle
  | ok page =>
      rw [acceptOpeningTitle]
      dsimp only
      split
      · split
        · exact balanced_congr (by rfl) (by rfl) (by rfl) (by rfl) (by rfl) hchannel hidle
        · exact hidle
      · exact hidle

omit hopen hpast hselected in
/-- Going to a match asks for no page of the find. -/
theorem waiting_navigateFind_find (direction : Int) :
    (store.navigateFind direction).waiting .find = store.waiting .find ∧
      (store.navigateFind direction).view.finding = store.view.finding := by
  obtain ⟨heq, -⟩ | ⟨index, target, -, ⟨-, heq⟩ | ⟨-, heq⟩⟩ := navigateFind_cases store direction
  · rw [heq]
    exact ⟨rfl, rfl⟩
  · rw [heq]
    exact ⟨@waiting_nextPage (store.atMatch index) .find (by simp), rfl⟩
  · rw [heq]
    by_cases hselected : (store.atMatch index).view.selected.isSome = true
    · rw [loadPage_eq hselected]
      constructor
      · refine (waiting_request_other (by rfl) _).trans ?_
        exact @waiting_nextPage (store.atMatch index) .find (by simp)
      · rw [view_request]
        rfl
    · rw [loadPage, if_pos (by rwa [Bool.not_eq_true, Option.isSome_eq_false_iff] at hselected)]
      exact ⟨rfl, rfl⟩

omit hselected in
theorem balanced_acceptFind (texts : Texts) (h : store.AnsweredOn .find) (start : Nat)
    (result : Reply) : (store.acceptFind texts start result).ReaderBalanced := by
  intro channel hchannel
  have hother : ∀ view : View, channel ≠ .find → view.readerBusy = store.view.readerBusy →
      view.metadataBusy = store.view.metadataBusy → { store with view }.Balanced channel := by
    intro view hne hbusy hmetadata
    cases channel with
    | find => exact absurd rfl hne
    | reader =>
        rw [Balanced, indicator, hbusy]
        exact h.others .reader rfl (by simp)
    | details =>
        rw [Balanced, indicator, hmetadata]
        exact h.others .details rfl (by simp)
    | lists => exact absurd hchannel Bool.false_ne_true
    | chart machine => exact absurd hchannel Bool.false_ne_true
  cases result with
  | error error =>
      by_cases hfind : channel = .find
      · subst hfind
        exact h.waiting
      · exact hother _ hfind (by rfl) (by rfl)
  | ok value =>
      have htaken : (store.takeMatches texts start (decodePage value).1).waiting .find = 0 ∧
          (store.takeMatches texts start (decodePage value).1).view.finding = store.view.finding ∧
          (channel ≠ .find →
            (store.takeMatches texts start (decodePage value).1).Balanced channel) := by
        rw [takeMatches]
        dsimp only
        split
        · obtain ⟨hwaiting, hfinding⟩ := @waiting_navigateFind_find
            { store with view := collectMatches texts store.view start (decodePage value).1 } 1
          refine ⟨hwaiting.trans h.waiting, hfinding, fun hne => ?_⟩
          exact balanced_navigateFind (by exact hopen) (by exact hpast) _ hchannel
            (hother _ hne (by rfl) (by rfl))
        · exact ⟨h.waiting, rfl, fun hne => hother _ hne (by rfl) (by rfl)⟩
      have hopen' : (store.takeMatches texts start (decodePage value).1).shuttingDown = false :=
        (keepsLists_takeMatches store texts _ _).step.shut.trans hopen
      obtain ⟨hwaiting, hfinding, hrest⟩ := htaken
      rw [acceptFind]
      dsimp only
      by_cases hfind : channel = .find
      · subst hfind
        split
        · rw [Balanced, waiting_findPage hopen', hwaiting, indicator, view_findPage, hfinding]
          exact h.flag.symm
        · exact hwaiting
      · split
        · have hcarries : channel.carries (.find (start + (decodePage value).1.length)) =
            false := by
            cases channel <;> first | rfl | exact absurd rfl hfind
          rw [Balanced, waiting_findPage hopen', hcarries, findPage, indicator_request]
          exact hrest hfind
        · refine (hrest hfind).trans ?_
          cases channel <;> first | rfl | exact absurd rfl hfind

/-- A reply to the one request of a channel leaves the flags right. -/
theorem balanced_apply (texts : Texts) (now : Int) {kind : Kind}
    (hchannel : channel.ofReader = true) (hcarries : channel.carries kind = true)
    (h : store.AnsweredOn channel) (result : Reply) :
    (store.apply texts now kind result).ReaderBalanced := by
  cases channel with
  | reader =>
      cases kind with
      | page start mode target occurrence =>
          exact balanced_acceptPage hopen hpast hselected h _ _ _ _ result
      | locate start target => exact balanced_acceptLocate hopen hpast hselected h _ _ result
      | _ => exact absurd hcarries Bool.false_ne_true
  | find =>
      cases kind with
      | find start => exact balanced_acceptFind hopen hpast texts h start result
      | _ => exact absurd hcarries Bool.false_ne_true
  | details =>
      cases kind with
      | metadata => exact balanced_acceptMetadata hopen h result
      | openingTitle => exact balanced_acceptOpeningTitle texts h result
      | _ => exact absurd hcarries Bool.false_ne_true
  | lists => exact absurd hchannel Bool.false_ne_true
  | chart machine => exact absurd hchannel Bool.false_ne_true

end Replies

end Store

end Memex.Qt
