import Memex.Qt.ReaderBooks

/-! # Runs of the Qt store

The user acts and replies come back, in any order: a reply answers any request that is on its
way, with any result. What holds of the reader's requests in every run. -/

namespace Memex.Qt

open Sources

/-- An action, or a reply to one of the requests on their way, at some time. -/
inductive Event where
  | action (action : Action) (now : Int)
  | reply (index : Nat) (result : Reply) (now : Int)

/-- A store and the replies that it was given. -/
structure Session where
  store : Store
  answered : List (Issued × Reply) := []

namespace Session

/-- One event: every request is answered once. -/
def step (texts : Texts) (session : Session) : Event → Option Session
  | .action action now => some { session with store := session.store.action now action }
  | .reply index result now =>
    (session.store.requests[index]?).map fun issued =>
      { store := (session.store.answered index).accept texts now issued.request result
        answered := session.answered ++ [(issued, result)] }

/-- A store that was just made. -/
def start (persistence : Bool) : Session := { store := Store.new persistence }

end Session

/-- What is known of the requests of the reader. -/
structure ReaderBooks (store : Store) : Prop where
  past : store.Past
  chosen : store.view.selected = none →
    ∀ issued ∈ store.requests, issued.request.kind.ofReader = false
  balanced : store.shuttingDown = false → store.ReaderBalanced
  once : ∀ channel : Channel, channel.ofReader = true → store.waiting channel ≤ 1

namespace ReaderBooks

variable {store after : Store}

theorem waiting_le_one {channel : Channel} (hchannel : channel.ofReader = true)
    (h : store.Balanced channel) : store.waiting channel ≤ 1 := by
  rw [h]
  cases channel <;>
    first
      | exact absurd hchannel Bool.false_ne_true
      | exact Bool.toNat_le _

theorem keepsReader (h : ReaderBooks store) (hstep : KeepsReader store after) :
    ReaderBooks after where
  past := hstep.step.past h.past
  chosen hnone issued hmem := by
    have hview : after.view = store.view := congrArg ReaderSide.view hstep.side
    obtain ⟨made, hmade, hkinds⟩ := hstep.step.requests
    rw [hmade] at hmem
    obtain hmem | hmem := List.mem_append.mp hmem
    · exact h.chosen (by rw [← hview, hnone]) issued hmem
    · exact (hkinds issued hmem).1
  balanced hopen channel hchannel := by
    rw [Store.Balanced, hstep.waiting_eq hchannel, hstep.indicator_eq hchannel]
    exact h.balanced (hstep.step.shut.symm.trans hopen) channel hchannel
  once channel hchannel := by
    rw [hstep.waiting_eq hchannel]
    exact h.once channel hchannel

theorem keepsLists (h : ReaderBooks store) (hstep : KeepsLists store after)
    (hchosen : after.view.selected = none →
      store.view.selected = none ∧ after.requests = store.requests)
    (hbalanced : store.shuttingDown = false → after.ReaderBalanced) : ReaderBooks after where
  past := hstep.step.past h.past
  chosen hnone := by
    obtain ⟨hbefore, hrequests⟩ := hchosen hnone
    rw [hrequests]
    exact h.chosen hbefore
  balanced hopen := hbalanced (hstep.step.shut.symm.trans hopen)
  once channel hchannel := by
    cases hshut : store.shuttingDown with
    | false => exact waiting_le_one hchannel (hbalanced hshut channel hchannel)
    | true =>
        refine (Store.waiting_le h.past hstep.step.epochs (hstep.step.down hshut)).trans ?_
        exact h.once channel hchannel

/-- Without a conversation the reader asks for nothing. -/
theorem requests_of_unselected (hnone : store.view.selected = none) :
    (∀ start mode target occurrence, store.loadPage start mode target occurrence = store) ∧
    (∀ text, (store.startFind text).requests = store.requests) := by
  constructor
  · intro start mode target occurrence
    rw [Store.loadPage, hnone]
    rfl
  · intro text
    have hview : store.nextFind.view.selected = none := by
      obtain ⟨⟨-, hview⟩ | ⟨-, hview⟩, -⟩ := Store.nextFind_cases store <;> rw [hview, hnone]
    rw [Store.startFind, hview]
    simp only [Option.isSome_none, Bool.and_false, Bool.false_eq_true, if_false]
    exact (Store.nextFind_cases store).2.1

theorem loadPage (h : ReaderBooks store) (start : Nat) (mode : PageMode) (target : String)
    (occurrence : Nat) : ReaderBooks (store.loadPage start mode target occurrence) := by
  cases hselected : store.view.selected with
  | none =>
      rw [(requests_of_unselected hselected).1]
      exact h
  | some selected =>
      have hsome : store.view.selected.isSome = true := by
        rw [hselected]
        rfl
      apply h.keepsLists (Store.keepsLists_loadPage store _ _ _ _)
      · intro hnone
        rw [Store.selected_loadPage, hselected] at hnone
        cases hnone
      · intro hopen channel hchannel
        exact Store.balanced_loadPage hopen h.past hsome _ _ _ _ hchannel
          fun _ => h.balanced hopen channel hchannel

theorem earlier (h : ReaderBooks store) : ReaderBooks store.earlier := by
  rw [Store.earlier]
  split
  · exact h.loadPage _ _ _ _
  · exact h

theorem later (h : ReaderBooks store) : ReaderBooks store.later := by
  rw [Store.later]
  split
  · exact h.loadPage _ _ _ _
  · exact h

theorem action (h : ReaderBooks store) (now : Int) (action : Action) :
    ReaderBooks (store.action now action) := by
  rw [Store.action.eq_def]
  cases hshut : store.shuttingDown with
  | true => exact h
  | false =>
      simp only [Bool.false_eq_true, if_false]
      have hbalanced := h.balanced hshut
      cases action with
      | initialise => exact h.keepsReader (.request _ _ rfl)
      | shutdown =>
          refine ⟨h.past, h.chosen, ?_, h.once⟩
          intro hopen
          cases hopen
      | refresh =>
          refine h.keepsReader (KeepsReader.trans ?_ (Store.keepsReader_refresh _ now))
          exact .of_eq rfl le_rfl rfl rfl
      | configure changes => exact h.keepsReader (Store.keepsReader_configure store now changes)
      | resetFilters => exact h.keepsReader (Store.keepsReader_resetFilters store now)
      | moreSessions => exact h.keepsReader (Store.keepsReader_moreSessions store now)
      | refreshActivity =>
          refine h.keepsReader (KeepsReader.trans ?_ (Store.keepsReader_refreshActivity _ now))
          exact .of_eq rfl le_rfl rfl rfl
      | openSession session =>
          apply h.keepsLists (Store.keepsLists_openSession store session)
          · intro hnone
            rw [Store.selected_openSession] at hnone
            cases hnone
          · exact fun hopen => Store.balanced_openSession hopen h.past session
      | earlier => exact h.earlier
      | later => exact h.later
      | find text =>
          apply h.keepsLists (Store.keepsLists_startFind store text)
          · intro hnone
            rw [Store.selected_startFind] at hnone
            exact ⟨hnone, (requests_of_unselected hnone).2 text⟩
          · exact fun hopen => Store.balanced_startFind hopen h.past hbalanced text
      | navigateFind direction =>
          apply h.keepsLists (Store.keepsLists_navigateFind store direction)
          · intro hnone
            rw [Store.selected_navigateFind] at hnone
            refine ⟨hnone, ?_⟩
            obtain ⟨heq, -⟩ | ⟨index, target, -, ⟨-, heq⟩ | ⟨-, heq⟩⟩ :=
              Store.navigateFind_cases store direction
            · rw [heq]
            · rw [heq]
              rfl
            · rw [heq, (@requests_of_unselected (store.atMatch index) hnone).1]
              rfl
          · intro hopen channel hchannel
            exact Store.balanced_navigateFind hopen h.past _ hchannel (hbalanced channel hchannel)
      | saveAnchor id offset expansion =>
          apply h.keepsLists (Store.keepsLists_saveAnchor store _ _ _)
          · exact fun hnone => ⟨hnone, rfl⟩
          · intro _ channel hchannel
            exact Store.balanced_congr rfl rfl rfl rfl rfl hchannel (hbalanced channel hchannel)

/-- A kind of the reader belongs to one of its channels. -/
theorem exists_carries {kind : Kind} (hkind : kind.ofReader = true) :
    ∃ channel : Channel, channel.ofReader = true ∧ channel.carries kind = true := by
  cases kind with
  | metadata => exact ⟨.details, rfl, rfl⟩
  | openingTitle => exact ⟨.details, rfl, rfl⟩
  | page start mode target occurrence => exact ⟨.reader, rfl, rfl⟩
  | locate start target => exact ⟨.reader, rfl, rfl⟩
  | find start => exact ⟨.find, rfl, rfl⟩
  | _ => exact absurd hkind Bool.false_ne_true

/-- A request that no indicator of the reader stands for is answered without changing them. -/
theorem answered_silent {index : Nat} {issued : Issued} (h : ReaderBooks store)
    (hindex : store.requests[index]? = some issued)
    (hsilent : ∀ channel : Channel, channel.ofReader = true →
      store.waits channel issued = false) : ReaderBooks (store.answered index) where
  past other hmem := h.past other (List.mem_of_mem_eraseIdx hmem)
  chosen hnone other hmem := h.chosen hnone other (List.mem_of_mem_eraseIdx hmem)
  balanced hopen channel hchannel := by
    have hcount := @Store.waiting_answered store channel index issued hindex
    rw [hsilent channel hchannel, if_neg Bool.false_ne_true, Nat.add_zero] at hcount
    refine hcount.symm.trans ((h.balanced hopen channel hchannel).trans ?_)
    cases channel <;> rfl
  once channel hchannel := by
    have hcount := @Store.waiting_answered store channel index issued hindex
    have honce := h.once channel hchannel
    omega

/-- The active requests have no part in the books. -/
theorem retire (h : ReaderBooks store) (request : Request) :
    ReaderBooks (store.retire request) := ⟨h.past, h.chosen, h.balanced, h.once⟩

/-- A reply to the one request of a channel of the reader. -/
theorem accept_reader {index : Nat} {issued : Issued} (texts : Texts) (now : Int)
    (h : ReaderBooks store) (hindex : store.requests[index]? = some issued)
    (hkind : issued.request.kind.ofReader = true)
    (hcurrent : store.epochs.stale issued.request = false) (result : Reply) :
    ReaderBooks (((store.answered index).retire issued.request).apply texts now
      issued.request.kind result) := by
  obtain ⟨channel, hchannel, hcarries⟩ := exists_carries hkind
  have hselected : store.view.selected.isSome = true := by
    by_contra hnone
    have hother := h.chosen (Option.not_isSome_iff_eq_none.mp hnone) issued
      (List.mem_of_getElem? hindex)
    rw [hkind] at hother
    cases hother
  have hpast : (store.answered index).Past :=
    fun other hmem => h.past other (List.mem_of_mem_eraseIdx hmem)
  generalize hbefore : (store.answered index).retire issued.request = before
  have hpast' : before.Past := hbefore ▸ hpast
  have hselected' : before.view.selected.isSome = true := hbefore ▸ hselected
  have hstep := Store.keepsLists_apply before now texts hkind result
  have hkey := Store.key_apply texts now hkind hselected' result
  have hanswered : store.shuttingDown = false → before.AnsweredOn channel := by
    intro hopen
    subst hbefore
    have hwaits := Store.AnsweredOn.of_waits (h.balanced hopen) hindex hchannel hcarries hcurrent
    exact ⟨hwaits.waiting, hwaits.flag, hwaits.others⟩
  have honce : ∀ other : Channel, other.ofReader = true → before.waiting other ≤ 1 := by
    intro other hother
    subst hbefore
    have hcount := @Store.waiting_answered store other index issued hindex
    have hle := h.once other hother
    exact le_trans (le_trans (Nat.le_add_right _ _) hcount.ge) hle
  have hshut : before.shuttingDown = store.shuttingDown := by
    subst hbefore
    rfl
  refine ⟨hstep.step.past hpast', ?_, ?_, ?_⟩
  · intro hnone
    have hsome : (before.apply texts now issued.request.kind result).view.selected.isSome =
        true := by
      rw [← Store.isSome_key, hkey, Store.isSome_key]
      exact hselected'
    rw [hnone] at hsome
    cases hsome
  · intro hopen
    have hopen' : before.shuttingDown = false := hstep.step.shut.symm.trans hopen
    exact Store.balanced_apply hopen' hpast' hselected' texts now hchannel hcarries
      (hanswered (hshut.symm.trans hopen')) result
  · intro other hother
    cases hdown : before.shuttingDown with
    | true =>
        refine (Store.waiting_le hpast' hstep.step.epochs (hstep.step.down hdown)).trans ?_
        exact honce other hother
    | false =>
        apply waiting_le_one hother
        exact Store.balanced_apply hdown hpast' hselected' texts now hchannel hcarries
          (hanswered (hshut.symm.trans hdown)) result other hother

/-- A reply, wanted or overtaken. -/
theorem accept {index : Nat} {issued : Issued} (texts : Texts) (now : Int)
    (h : ReaderBooks store) (hindex : store.requests[index]? = some issued) (result : Reply) :
    ReaderBooks ((store.answered index).accept texts now issued.request result) := by
  rw [Store.accept]
  split
  next hstale =>
    apply ReaderBooks.retire
    apply h.answered_silent hindex
    intro channel _
    have hstale' : store.epochs.stale issued.request = true := hstale
    rw [Store.waits, hstale', Bool.not_true, Bool.and_false]
  next hcurrent =>
    cases hkind : issued.request.kind.ofReader with
    | true =>
        exact h.accept_reader texts now hindex hkind (Bool.eq_false_iff.mpr hcurrent) result
    | false =>
        apply ReaderBooks.keepsReader _ (Store.keepsReader_apply _ now texts hkind result)
        apply ReaderBooks.retire
        apply h.answered_silent hindex
        intro channel hchannel
        rw [Store.waits, Bool.and_eq_false_iff]
        left
        by_contra hcarries
        have heq := Channel.ofReader_eq (Bool.eq_true_of_not_eq_false hcarries)
        rw [hkind, hchannel] at heq
        cases heq

theorem new (persistence : Bool) : ReaderBooks (Store.new persistence) := by
  have hempty : ReaderBooks { lists := { settings := initialSettings } } := by
    refine ⟨?_, ?_, ?_, ?_⟩
    · exact fun _ h => absurd h List.not_mem_nil
    · exact fun _ _ h => absurd h List.not_mem_nil
    · intro _ channel _
      cases channel <;> rfl
    · exact fun _ _ => Nat.zero_le _
  cases persistence with
  | false => exact hempty.keepsReader (Store.keepsReader_mergeProjects _)
  | true =>
      have hrequest := hempty.keepsReader (@KeepsReader.request _ .restore .restore rfl)
      exact hrequest.keepsReader (Store.keepsReader_mergeProjects _)

/-- The books are kept in every run. -/
theorem run {texts : Texts} {persistence : Bool} {events : List Event} {session : Session}
    (hrun : Transitions.run (Session.step texts) (Session.start persistence) events =
      some session) : ReaderBooks session.store := by
  refine @Transitions.run_invariant _ _ _ (fun session : Session => ReaderBooks session.store)
    ?_ _ _ _ (new persistence) hrun
  intro session event next h hstep
  cases event with
  | action action now =>
      obtain rfl := Option.some.inj hstep
      exact h.action now action
  | reply index result now =>
      obtain ⟨issued, hindex, rfl⟩ := Option.map_eq_some_iff.mp hstep
      exact h.accept texts now hindex result

end ReaderBooks

end Memex.Qt
