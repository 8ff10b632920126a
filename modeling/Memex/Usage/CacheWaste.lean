import Memex.Lib.KeyedMachine
import Memex.Lib.Overlay
import Memex.Usage.Events

/-! # Cache waste

`usage/pricing.rs`: the requests of a chain are compared with the request before them, whose prompt
should have been cached. The costs of the misses, which are floating-point numbers, are left
out. -/

namespace Memex.Usage

open Overlay KeyedMachine

/-- The prompt-cache TTL: five minutes. -/
def cacheTtlMs : Nat := 5 * 60 * 1000

/-- Smaller misses are noise. -/
def cacheMissNoiseFloorTokens : Nat := 1024

/-- `saturating_mul` on 64 bits. -/
def saturatingMul (left right : Nat) : Nat :=
  min (left * right) (2 ^ 64 - 1)

/-- The last request seen in a session chain; everything in its prompt should be cached. -/
structure CacheChainState where
  promptTokens : Nat
  model : String × String
  timestampMs : Nat
  reportedCache : Bool
  deriving DecidableEq, Repr

structure CacheWaste where
  missedTokens : Nat := 0
  missCount : Nat := 0
  idleMisses : Nat := 0
  modelSwitchMisses : Nat := 0
  deriving DecidableEq, Repr

/-- Why a request missed its cache. -/
inductive MissReason where
  | modelSwitch
  | idle
  | other
  deriving DecidableEq, Repr

structure CacheMiss where
  missed : Nat
  reason : MissReason
  deriving DecidableEq, Repr

namespace CacheWaste

def absorb (waste other : CacheWaste) : CacheWaste :=
  { missedTokens := saturatingAdd waste.missedTokens other.missedTokens
    missCount := waste.missCount + other.missCount
    idleMisses := waste.idleMisses + other.idleMisses
    modelSwitchMisses := waste.modelSwitchMisses + other.modelSwitchMisses }

def note (waste : CacheWaste) (miss : CacheMiss) : CacheWaste :=
  { missedTokens := saturatingAdd waste.missedTokens miss.missed
    missCount := waste.missCount + 1
    idleMisses := waste.idleMisses + if miss.reason = .idle then 1 else 0
    modelSwitchMisses := waste.modelSwitchMisses + if miss.reason = .modelSwitch then 1 else 0 }

end CacheWaste

/-- A chain: its source, its session and its thread. -/
structure ChainKey where
  source : String
  sessionId : String
  thread : String
  deriving DecidableEq, Repr

namespace UsageEventData

/-- One transcript file is one stream of requests, except for OpenCode, which has a file for each
message. -/
def thread (event : UsageEventView) : String :=
  if event.source = "opencode" then "" else event.sourcePath

def chainKey (event : UsageEventView) : Option ChainKey :=
  event.sessionId.map fun sessionId => ⟨event.source, sessionId, event.thread⟩

def promptTokens (event : UsageEventView) : Nat :=
  saturatingAdd (saturatingAdd event.tokens.uncachedInput event.tokens.cacheRead)
    event.tokens.cacheWrite

/-- The provider and the model. -/
def billedModel (event : UsageEventView) : String × String :=
  (event.provider.getD "", event.model.getD "")

/-- What a request should have read from the cache and did not. -/
def cacheMiss (event : UsageEventView) (previous : CacheChainState) : Option CacheMiss :=
  if (event.tokens.cacheRead > 0 || previous.reportedCache) &&
      decide (saturatingMul event.promptTokens 2 ≥ previous.promptTokens) then
    let missed := min previous.promptTokens event.promptTokens - event.tokens.cacheRead
    if missed > cacheMissNoiseFloorTokens then
      some
        { missed
          reason :=
            if event.billedModel ≠ previous.model then .modelSwitch
            else if event.timestampMs - previous.timestampMs ≥ cacheTtlMs then .idle
            else .other }
    else none
  else none

/-- The chain after a request. -/
def chainState (event : UsageEventView) (previous : Option CacheChainState) : CacheChainState :=
  let cached := saturatingAdd event.tokens.cacheRead event.tokens.cacheWrite
  { promptTokens := event.promptTokens
    model := event.billedModel
    timestampMs := event.timestampMs
    reportedCache := decide (cached > 0) || previous.any (·.reportedCache) }

end UsageEventData

/-- The maps of the one pass over the events. -/
structure WasteScan where
  chains : Table ChainKey CacheChainState := ∅
  bySource : Table String CacheWaste := ∅

/-- The waste of a source, none when it has no entry. -/
def wasteOf (bySource : Table String CacheWaste) (source : String) : CacheWaste :=
  (bySource.lookup source).getD {}

/-- A miss goes to the entry of its source. -/
def addMiss (bySource : Table String CacheWaste) (source : String) (miss : CacheMiss) :
    Table String CacheWaste :=
  bySource.insert source ((wasteOf bySource source).note miss)

/-- One event of the pass. -/
def WasteScan.visit (scan : WasteScan) (event : UsageEventView) : WasteScan :=
  if event.sidechain then scan
  else
    match event.sessionId with
    | none => scan
    | some sessionId =>
        let key : ChainKey := ⟨event.source, sessionId, event.thread⟩
        if event.cacheChainExcluded then { scan with chains := scan.chains.erase key }
        else if event.conservativeUndercount then { scan with chains := scan.chains.erase key }
        else if event.promptTokens = 0 then scan
        else
          let previous := scan.chains.lookup key
          { chains := scan.chains.insert key (event.chainState previous)
            bySource :=
              match previous.bind event.cacheMiss with
              | some miss => addMiss scan.bySource event.source miss
              | none => scan.bySource }

/-- The waste of each source. -/
def computeCacheWaste (events : List UsageEventView) : Table String CacheWaste :=
  (events.foldl WasteScan.visit {}).bySource

/-! ## The chains as a keyed machine -/

/-- What an event does to its chain. -/
def chainStep (state : Option CacheChainState) (event : UsageEventView) :
    Option CacheChainState × Option CacheMiss :=
  if event.sidechain then (state, none)
  else if event.cacheChainExcluded || event.conservativeUndercount then (none, none)
  else if event.promptTokens = 0 then (state, none)
  else (some (event.chainState state), state.bind event.cacheMiss)

/-- The misses of all chains, from given states of them. -/
abbrev missesFrom (states : ChainKey → Option CacheChainState) (events : List UsageEventView) :
    List (ChainKey × CacheMiss) :=
  run UsageEventData.chainKey chainStep states events

/-- The events of a chain. -/
abbrev chainEvents (key : ChainKey) (events : List UsageEventView) : List UsageEventView :=
  entriesOf UsageEventData.chainKey key events

/-- Misses in the order they are found. -/
def addMisses (bySource : Table String CacheWaste) (misses : List (ChainKey × CacheMiss)) :
    Table String CacheWaste :=
  misses.foldl (fun bySource miss => addMiss bySource miss.1.source miss.2) bySource

variable {scan : WasteScan} {event : UsageEventView} {events : List UsageEventView}

/-- An event without a session is skipped. -/
theorem WasteScan.visit_of_none (hkey : event.chainKey = none) : scan.visit event = scan := by
  have hsession : event.sessionId = none := Option.map_eq_none_iff.mp hkey
  unfold WasteScan.visit
  simp only [hsession, ite_self]

private theorem lookup_erase_eq (chains : Table ChainKey CacheChainState) (key : ChainKey) :
    (chains.erase key).lookup = Function.update chains.lookup key none := by
  ext1 other
  rw [lookup_erase_ite, Function.update_apply]

private theorem lookup_insert_eq (chains : Table ChainKey CacheChainState) (key : ChainKey)
    (state : CacheChainState) :
    (chains.insert key state).lookup = Function.update chains.lookup key (some state) := by
  ext1 other
  rw [lookup_insert_ite, Function.update_apply]

/-- An event moves its own chain, and adds what the chain reports. -/
theorem WasteScan.visit_of_some {key : ChainKey} (hkey : event.chainKey = some key) :
    (scan.visit event).chains.lookup =
        Function.update scan.chains.lookup key (chainStep (scan.chains.lookup key) event).1 ∧
      (scan.visit event).bySource = addMisses scan.bySource
        ((chainStep (scan.chains.lookup key) event).2.toList.map (key, ·)) := by
  obtain ⟨sessionId, hsession, rfl⟩ := Option.map_eq_some_iff.mp hkey
  simp only [WasteScan.visit, chainStep, hsession]
  split
  next => exact ⟨(Function.update_eq_self _ _).symm, rfl⟩
  next =>
    cases hexcluded : event.cacheChainExcluded with
    | true => exact ⟨lookup_erase_eq _ _, rfl⟩
    | false =>
        cases hundercount : event.conservativeUndercount with
        | true => exact ⟨lookup_erase_eq _ _, rfl⟩
        | false =>
            simp only [Bool.false_eq_true, Bool.or_false, if_false]
            split
            next => exact ⟨(Function.update_eq_self _ _).symm, rfl⟩
            next =>
              constructor
              · exact lookup_insert_eq _ _ _
              · split
                next miss hmiss => simp only [hmiss]; rfl
                next hmiss => simp only [hmiss]; rfl

/-- The pass adds what the chains report. -/
theorem foldl_visit_bySource :
    (events.foldl WasteScan.visit scan).bySource =
      addMisses scan.bySource (missesFrom scan.chains.lookup events) := by
  induction events generalizing scan with
  | nil => rfl
  | cons event rest ih =>
      rw [List.foldl_cons, ih]
      cases hkey : event.chainKey with
      | none => simp only [WasteScan.visit_of_none hkey, missesFrom, run, hkey]
      | some key =>
          obtain ⟨hchains, hwaste⟩ := @WasteScan.visit_of_some scan event key hkey
          simp only [missesFrom, run, hkey, hchains, hwaste]
          exact (List.foldl_append ..).symm

/-- The misses of all chains. -/
abbrev misses (events : List UsageEventView) : List (ChainKey × CacheMiss) :=
  missesFrom (fun _ => none) events

theorem computeCacheWaste_eq : computeCacheWaste events = addMisses ∅ (misses events) := by
  have hempty : (Finmap.lookup · (∅ : Table ChainKey CacheChainState)) = fun _ => none := by
    ext1 key
    exact Finmap.lookup_empty key
  rw [computeCacheWaste, foldl_visit_bySource, misses, ← hempty]

/-! ## Totals -/

namespace CacheWaste

/-- The waste of misses. -/
def total (misses : List CacheMiss) : CacheWaste :=
  misses.foldl note {}

instance : RightCommutative note where
  right_comm waste left right := by
    have hmissed : saturatingAdd (saturatingAdd waste.missedTokens left.missed) right.missed =
        saturatingAdd (saturatingAdd waste.missedTokens right.missed) left.missed := by
      simp only [saturatingAdd]
      omega
    simp only [note, hmissed, Nat.add_right_comm]

theorem total_eq_of_perm {misses others : List CacheMiss} (h : misses.Perm others) :
    total misses = total others :=
  h.foldl_eq _

/-- What is counted fits in 64 bits. -/
def Saturated (waste : CacheWaste) : Prop :=
  waste.missedTokens ≤ 2 ^ 64 - 1

theorem saturated_foldl_note {waste : CacheWaste} (h : waste.Saturated)
    (misses : List CacheMiss) : (misses.foldl note waste).Saturated := by
  induction misses generalizing waste with
  | nil => exact h
  | cons miss rest ih => exact ih (min_le_right _ _)

theorem saturated_total (misses : List CacheMiss) : (total misses).Saturated :=
  saturated_foldl_note (Nat.zero_le _) misses

theorem absorb_note (waste other : CacheWaste) (miss : CacheMiss) :
    waste.absorb (other.note miss) = (waste.absorb other).note miss := by
  simp only [note, absorb, saturatingAdd, CacheWaste.mk.injEq]
  omega

theorem absorb_zero {waste : CacheWaste} (h : waste.Saturated) : waste.absorb {} = waste := by
  have hmissed : saturatingAdd waste.missedTokens 0 = waste.missedTokens := min_eq_left h
  simp only [absorb, hmissed, Nat.add_zero]

theorem foldl_note {waste : CacheWaste} (h : waste.Saturated) (misses : List CacheMiss) :
    misses.foldl note waste = waste.absorb (total misses) := by
  induction misses using List.reverseRecOn with
  | nil => exact (absorb_zero h).symm
  | append_singleton rest miss ih =>
      simp only [total, List.foldl_append, List.foldl_cons, List.foldl_nil] at ih ⊢
      rw [ih, absorb_note]

/-- The waste of misses in groups is absorbed group by group. -/
theorem total_flatMap {β : Type} (groups : List β) (missesOf : β → List CacheMiss) :
    total (groups.flatMap missesOf) =
      (groups.map fun group => total (missesOf group)).foldl absorb {} := by
  induction groups using List.reverseRecOn with
  | nil => rfl
  | append_singleton rest group ih =>
      rw [List.flatMap_append, List.map_append, List.foldl_append, ← ih, total, List.foldl_append]
      have hgroup : [group].flatMap missesOf = missesOf group := by simp
      rw [hgroup]
      exact foldl_note (saturated_total _) _

end CacheWaste

/-- The misses of a source. -/
def missesOfSource (source : String) (misses : List (ChainKey × CacheMiss)) : List CacheMiss :=
  (misses.filter fun miss => miss.1.source = source).map Prod.snd

private theorem missesOfSource_cons (source : String) (miss : ChainKey × CacheMiss)
    (misses : List (ChainKey × CacheMiss)) :
    missesOfSource source (miss :: misses) =
      if miss.1.source = source then miss.2 :: missesOfSource source misses
      else missesOfSource source misses := by
  by_cases hsame : miss.1.source = source
  · simp [missesOfSource, hsame]
  · simp [missesOfSource, hsame]

private theorem wasteOf_addMiss (bySource : Table String CacheWaste) (source other : String)
    (miss : CacheMiss) :
    wasteOf (addMiss bySource source miss) other =
      if source = other then (wasteOf bySource other).note miss else wasteOf bySource other := by
  rw [wasteOf, addMiss, lookup_insert_ite]
  by_cases hsame : source = other
  · subst hsame
    rw [if_pos rfl, if_pos rfl, Option.getD_some]
  · rw [if_neg (Ne.symm hsame), if_neg hsame, wasteOf]

/-- A source has an entry as soon as it has a miss. -/
theorem lookup_addMisses (misses : List (ChainKey × CacheMiss)) (source : String)
    (bySource : Table String CacheWaste) :
    (addMisses bySource misses).lookup source =
      if missesOfSource source misses = [] then bySource.lookup source
      else some ((missesOfSource source misses).foldl .note (wasteOf bySource source)) := by
  induction misses generalizing bySource with
  | nil => rfl
  | cons miss rest ih =>
      change (addMisses (addMiss bySource miss.1.source miss.2) rest).lookup source = _
      rw [ih, missesOfSource_cons, wasteOf_addMiss]
      by_cases hsame : miss.1.source = source
      · rw [if_pos hsame, if_pos hsame, if_neg (List.cons_ne_nil _ _), List.foldl_cons]
        split
        next hnone =>
          rw [hnone, List.foldl_nil, addMiss, lookup_insert_ite, if_pos hsame.symm, hsame]
        next => rfl
      · rw [if_neg hsame, if_neg hsame, addMiss, lookup_insert_ite, if_neg (Ne.symm hsame)]

/-- The waste of a source is the total of its misses. -/
theorem lookup_computeCacheWaste (source : String) :
    (computeCacheWaste events).lookup source =
      if missesOfSource source (misses events) = [] then none
      else some (CacheWaste.total (missesOfSource source (misses events))) := by
  rw [computeCacheWaste_eq, lookup_addMisses]
  rfl

theorem wasteOf_computeCacheWaste (source : String) :
    wasteOf (computeCacheWaste events) source =
      CacheWaste.total (missesOfSource source (misses events)) := by
  rw [wasteOf, lookup_computeCacheWaste]
  split
  next hnone => rw [hnone]; rfl
  next => rfl

private theorem missesOfSource_perm (source : String) {misses others : List (ChainKey × CacheMiss)}
    (h : misses.Perm others) :
    (missesOfSource source misses).Perm (missesOfSource source others) :=
  (h.filter _).map _

private theorem missesOfSource_flatMap (source : String) (keys : List ChainKey)
    (missesAt : ChainKey → List (ChainKey × CacheMiss)) :
    missesOfSource source (keys.flatMap missesAt) =
      keys.flatMap fun key => missesOfSource source (missesAt key) := by
  rw [missesOfSource, List.filter_flatMap, List.map_flatMap]
  rfl

/-- The waste does not depend on how the chains are interleaved, and is the sum of what each chain
alone wastes. -/
theorem compute_cache_waste_by_chain :
    (∀ left right : List UsageEventView,
      (∀ key, chainEvents key left = chainEvents key right) →
        computeCacheWaste left = computeCacheWaste right) ∧
    ∀ (events : List UsageEventView) (keys : List ChainKey), keys.Nodup →
      (∀ event ∈ events, ∀ key, event.chainKey = some key → key ∈ keys) →
      ∀ source, wasteOf (computeCacheWaste events) source =
        (keys.map fun key => wasteOf (computeCacheWaste (chainEvents key events)) source).foldl
          .absorb {} := by
  constructor
  · intro left right hchains
    apply Finmap.ext_lookup
    intro source
    have hperm : (missesOfSource source (misses left)).Perm
        (missesOfSource source (misses right)) :=
      missesOfSource_perm source (run_perm hchains)
    have hnone : missesOfSource source (misses left) = [] ↔
        missesOfSource source (misses right) = [] := by
      constructor
      · intro hleft
        exact List.nil_perm.mp (hleft ▸ hperm)
      · intro hright
        exact List.perm_nil.mp (hright ▸ hperm)
    rw [lookup_computeCacheWaste, lookup_computeCacheWaste, CacheWaste.total_eq_of_perm hperm]
    exact if_congr hnone rfl rfl
  · intro events keys hkeys hall source
    have hperm : (missesOfSource source (misses events)).Perm _ :=
      missesOfSource_perm source (run_perm_flatMap hkeys hall)
    rw [missesOfSource_flatMap] at hperm
    rw [wasteOf_computeCacheWaste, CacheWaste.total_eq_of_perm hperm, CacheWaste.total_flatMap]
    congr 1
    apply List.map_congr_left
    intro key _
    have halone : (misses (chainEvents key events)).Perm _ := run_entriesOf_perm key
    rw [wasteOf_computeCacheWaste]
    exact (CacheWaste.total_eq_of_perm (missesOfSource_perm source halone)).symm

/-- A request of a session, with a prompt read from the cache or not. -/
def request (sessionId : String) (timestampMs cacheRead uncachedInput : Nat) : UsageEventView where
  source := "claude"
  sourcePath := sessionId
  sourceRecordId := none
  sessionId := some sessionId
  requestId := none
  messageId := none
  timestampMs
  project := none
  provider := none
  model := none
  tokens := { rawInput := uncachedInput, uncachedInput, cacheRead, cacheWrite := 0, output := 0 }
  sourceCostUsd := none
  costAuthoritative := false
  dedupeConfidence := "strong"
  conservativeUndercount := false
  cacheChainExcluded := false
  sidechain := false
  permissionReview := false
  sourceOrder := 0

/-- Two sessions one after the other. -/
def successive : List UsageEventView :=
  [request "a" 1 5000 0, request "a" 400000 0 5000, request "b" 2 6000 0, request "b" 3 0 6000]

/-- The same sessions at the same time. -/
def interleaved : List UsageEventView :=
  [request "b" 2 6000 0, request "a" 1 5000 0, request "b" 3 0 6000, request "a" 400000 0 5000]

theorem compute_cache_waste_interleaved :
    computeCacheWaste successive = computeCacheWaste interleaved ∧
      wasteOf (computeCacheWaste interleaved) "claude" =
        ([⟨"claude", "a", "a"⟩, ⟨"claude", "b", "b"⟩].map fun key =>
          wasteOf (computeCacheWaste (chainEvents key interleaved)) "claude").foldl .absorb {} ∧
      (wasteOf (computeCacheWaste interleaved) "claude").missedTokens = 11000 := by
  have hchains : ∀ key, chainEvents key successive = chainEvents key interleaved := by
    intro key
    by_cases ha : key = ⟨"claude", "a", "a"⟩
    · subst ha
      decide +kernel
    · by_cases hb : key = ⟨"claude", "b", "b"⟩
      · subst hb
        decide +kernel
      · have hother : ∀ event ∈ successive ++ interleaved, event.chainKey ≠ some key := by
          intro event hevent
          have hmem : event.chainKey = some ⟨"claude", "a", "a"⟩ ∨
              event.chainKey = some ⟨"claude", "b", "b"⟩ := by
            revert event
            decide +kernel
          cases hmem with
          | inl h => exact fun hkey => ha (Option.some.inj (hkey.symm.trans h))
          | inr h => exact fun hkey => hb (Option.some.inj (hkey.symm.trans h))
        have hnone : ∀ events : List UsageEventView, (∀ event ∈ events, event.chainKey ≠ some key) →
            chainEvents key events = [] := fun events h =>
          List.filter_eq_nil_iff.mpr fun event hevent hkey =>
            h event hevent (of_decide_eq_true hkey)
        rw [hnone successive fun event h => hother event (List.mem_append_left _ h),
          hnone interleaved fun event h => hother event (List.mem_append_right _ h)]
  refine ⟨compute_cache_waste_by_chain.1 _ _ hchains, ?_, by decide +kernel⟩
  apply compute_cache_waste_by_chain.2 interleaved _ (by decide +kernel)
  decide +kernel

end Memex.Usage
