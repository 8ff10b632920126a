import Mathlib.Tactic.Linarith
import Memex.Sources.Hermes

/-! # Session totals of Hermes databases

The rows of a session are granted their buckets one after the other, each as much as the total
leaves, and the last event takes the rest. -/

namespace Memex

namespace Usage.TokenBuckets

/-! ## Sums of buckets -/

instance : Zero TokenBuckets := ⟨⟨0, 0, 0, 0, 0, 0, 0⟩⟩

instance : Add TokenBuckets :=
  ⟨fun a b =>
    { rawInput := a.rawInput + b.rawInput
      uncachedInput := a.uncachedInput + b.uncachedInput
      cacheRead := a.cacheRead + b.cacheRead
      cacheWrite := a.cacheWrite + b.cacheWrite
      cacheWrite1h := a.cacheWrite1h + b.cacheWrite1h
      output := a.output + b.output
      reasoning := a.reasoning + b.reasoning }⟩

theorem add_def (a b : TokenBuckets) :
    a + b = ⟨a.rawInput + b.rawInput, a.uncachedInput + b.uncachedInput,
      a.cacheRead + b.cacheRead, a.cacheWrite + b.cacheWrite, a.cacheWrite1h + b.cacheWrite1h,
      a.output + b.output, a.reasoning + b.reasoning⟩ := rfl

theorem zero_def : (0 : TokenBuckets) = ⟨0, 0, 0, 0, 0, 0, 0⟩ := rfl

instance : AddMonoid TokenBuckets where
  add_assoc a b c := by simp only [add_def, Nat.add_assoc]
  zero_add a := by simp only [add_def, zero_def, Nat.zero_add]
  add_zero a := by simp only [add_def, zero_def, Nat.add_zero]
  nsmul := nsmulRec

/-- No bucket is larger than the other's. -/
structure Within (used aggregate : TokenBuckets) : Prop where
  rawInput : used.rawInput ≤ aggregate.rawInput
  uncachedInput : used.uncachedInput ≤ aggregate.uncachedInput
  cacheRead : used.cacheRead ≤ aggregate.cacheRead
  cacheWrite : used.cacheWrite ≤ aggregate.cacheWrite
  output : used.output ≤ aggregate.output
  reasoning : used.reasoning ≤ aggregate.reasoning

/-- The input is what was not cached, and no write is a long one. -/
structure Reported (tokens : TokenBuckets) : Prop where
  rawInput : tokens.rawInput = tokens.uncachedInput
  cacheWrite1h : tokens.cacheWrite1h = 0

theorem within_zero (aggregate : TokenBuckets) : Within 0 aggregate := by
  constructor <;> exact Nat.zero_le _

theorem reported_zero : Reported 0 := ⟨rfl, rfl⟩

end Usage.TokenBuckets

namespace Sources.Hermes

open Usage

variable {row session : Row} {value aggregate used : TokenBuckets}

theorem F64.toU64_le (value : F64) : value.toU64 ≤ u64Max := by
  cases value with
  | finite value => exact Nat.min_le_right _ _
  | infinite negative => cases negative <;> decide
  | nan => exact Nat.zero_le _

theorem number_le (row : Row) (key : String) : number row key ≤ u64Max := by
  rw [number]
  split
  next value _ =>
    have hlt := Int64.toInt_lt value
    rw [u64Max]
    omega
  next value _ => exact F64.toU64_le value
  next => exact Nat.zero_le _

theorem reported_buckets (row : Row) : (buckets row).Reported := ⟨rfl, rfl⟩

theorem reported_capToRemaining (hvalue : value.Reported) (haggregate : aggregate.Reported)
    (hused : used.Reported) : (capToRemaining value aggregate used).Reported where
  rawInput := by
    simp only [capToRemaining, hvalue.rawInput, haggregate.rawInput, hused.rawInput]
  cacheWrite1h := rfl

theorem reported_subtract (haggregate : aggregate.Reported) (hused : used.Reported) :
    (subtract aggregate used).Reported where
  rawInput := by simp only [subtract, haggregate.rawInput, hused.rawInput]
  cacheWrite1h := rfl

theorem reported_add (hused : used.Reported) (hvalue : value.Reported) :
    (add used value).Reported where
  rawInput := by simp only [add, hused.rawInput, hvalue.rawInput]
  cacheWrite1h := rfl

/-- What a row is granted is within what is left. -/
theorem within_add_capToRemaining (h : used.Within aggregate) :
    (used + capToRemaining value aggregate used).Within aggregate := by
  obtain ⟨h1, h2, h3, h4, h5, h6⟩ := h
  constructor <;> simp only [TokenBuckets.add_def, capToRemaining] <;> omega

/-- No total of a row is beyond 64 bits. -/
theorem saturatingAdd_of_le {a b total : Nat} (h : a + b ≤ total) (htotal : total ≤ u64Max) :
    saturatingAdd a b = a + b :=
  Nat.min_eq_left (h.trans htotal)

/-- Within the totals of a row nothing saturates. -/
theorem add_eq_of_within (hused : used.Reported) (hvalue : value.Reported)
    (h : (used + value).Within (buckets row)) : add used value = used + value := by
  have hreasoning : (buckets row).reasoning ≤ u64Max :=
    (Nat.min_le_right _ _).trans (number_le row "output_tokens")
  simp only [TokenBuckets.add_def, add, TokenBuckets.mk.injEq]
  refine ⟨?_, ?_, ?_, ?_, ?_, ?_, ?_⟩
  · exact saturatingAdd_of_le h.rawInput (number_le row _)
  · exact saturatingAdd_of_le h.uncachedInput (number_le row _)
  · exact saturatingAdd_of_le h.cacheRead (number_le row _)
  · exact saturatingAdd_of_le h.cacheWrite (number_le row _)
  · rw [hused.cacheWrite1h, hvalue.cacheWrite1h]
  · exact saturatingAdd_of_le h.output (number_le row _)
  · exact saturatingAdd_of_le h.reasoning hreasoning

/-- What is used and what is left are the total. -/
theorem add_subtract (haggregate : aggregate.Reported) (hused : used.Reported)
    (h : used.Within aggregate) : used + subtract aggregate used = aggregate := by
  obtain ⟨h1, h2, h3, h4, h5, h6⟩ := h
  have hlong := haggregate.cacheWrite1h
  have hlong' := hused.cacheWrite1h
  cases aggregate
  simp only [TokenBuckets.add_def, subtract, TokenBuckets.mk.injEq] at *
  omega

theorem eq_zero_of_isZero (hvalue : value.Reported) (h : isZero value = true) : value = 0 := by
  have hlong := hvalue.cacheWrite1h
  cases value
  simp only [isZero, Bool.and_eq_true, decide_eq_true_eq] at h
  simp only [TokenBuckets.zero_def, TokenBuckets.mk.injEq]
  dsimp only at hlong
  omega

/-! ## Totals of events -/

/-- The buckets of events, one by one added up. -/
def totalTokens (events : List HermesEvent) : TokenBuckets :=
  (events.map fun event => event.tokens).sum

/-- The money the source says events cost. -/
def totalCost (events : List HermesEvent) : ℚ :=
  (events.map fun event => event.sourceCostUsd.getD 0).sum

@[simp] theorem totalTokens_append (left right : List HermesEvent) :
    totalTokens (left ++ right) = totalTokens left + totalTokens right := by
  rw [totalTokens, List.map_append, List.sum_append]
  rfl

@[simp] theorem totalTokens_singleton (event : HermesEvent) :
    totalTokens [event] = event.tokens := by
  rw [totalTokens, List.map_singleton, List.sum_singleton]

@[simp] theorem totalCost_append (left right : List HermesEvent) :
    totalCost (left ++ right) = totalCost left + totalCost right := by
  rw [totalCost, List.map_append, List.sum_append]
  rfl

@[simp] theorem totalCost_singleton (event : HermesEvent) :
    totalCost [event] = event.sourceCostUsd.getD 0 := by
  rw [totalCost, List.map_singleton, List.sum_singleton]

@[simp] theorem totalTokens_map_withdrawCost (events : List HermesEvent) :
    totalTokens (events.map withdrawCost) = totalTokens events := by
  rw [totalTokens, List.map_map]
  rfl

@[simp] theorem totalCost_map_withdrawCost (events : List HermesEvent) :
    totalCost (events.map withdrawCost) = 0 := by
  rw [totalCost, List.map_map]
  apply List.sum_eq_zero
  intro amount hmem
  obtain ⟨event, -, rfl⟩ := List.mem_map.mp hmem
  rfl

variable {crates : Crates} {path id : String} {modelRows : List Row}

/-- Events of one session, with the buckets as the source reports them. -/
def OfSession (id : String) (events : List HermesEvent) : Prop :=
  ∀ event ∈ events, event.sessionId = some id ∧ event.tokens.Reported

theorem OfSession.append {left right : List HermesEvent} (hleft : OfSession id left)
    (hright : OfSession id right) : OfSession id (left ++ right) := by
  intro event hmem
  cases List.mem_append.mp hmem with
  | inl hmem => exact hleft event hmem
  | inr hmem => exact hright event hmem

theorem OfSession.withdraw {events : List HermesEvent} (h : OfSession id events) :
    OfSession id (events.map withdrawCost) := by
  intro event hmem
  obtain ⟨other, hother, rfl⟩ := List.mem_map.mp hmem
  exact h other hother

theorem ofSession_singleton {event : HermesEvent} (hid : event.sessionId = some id)
    (htokens : event.tokens.Reported) : OfSession id [event] := by
  intro other hmem
  rw [List.mem_singleton.mp hmem]
  exact ⟨hid, htokens⟩

/-! ## The loop over the rows of a session -/

/-- What the loop has added up is what its events say, and within the session's totals. -/
structure ModelPass.Tracks (id : String) (session : Row) (pass : ModelPass) : Prop where
  summed : pass.summed = totalTokens pass.events
  within : pass.summed.Within (buckets session)
  reported : pass.summed.Reported
  cost : pass.attributedModelCost = totalCost pass.events
  events : OfSession id pass.events

theorem ModelPass.tracks_empty (id : String) (session : Row) :
    ModelPass.Tracks id session {} where
  summed := rfl
  within := TokenBuckets.within_zero _
  reported := TokenBuckets.reported_zero
  cost := rfl
  events _ hmem := nomatch hmem

theorem ModelPass.Tracks.offer {pass : ModelPass} (h : pass.Tracks id session) (row : Row) :
    (pass.offer crates path id session row).Tracks id session := by
  have hcurrent := reported_capToRemaining (reported_buckets row) (reported_buckets session)
    h.reported
  have hwithin : (pass.summed + capToRemaining (buckets row) (buckets session)
      pass.summed).Within (buckets session) := within_add_capToRemaining h.within
  have hadd := add_eq_of_within h.reported hcurrent hwithin
  by_cases hzero : isZero (capToRemaining (buckets row) (buckets session) pass.summed) = true
  · have hempty := eq_zero_of_isZero hcurrent hzero
    rw [hempty, add_zero] at hadd
    simp only [ModelPass.offer, if_pos hzero]
    rw [hempty, hadd]
    exact ⟨h.summed, h.within, h.reported, h.cost, h.events⟩
  · simp only [ModelPass.offer, hzero, if_false, Bool.false_eq_true]
    constructor
    · rw [hadd, totalTokens_append, totalTokens_singleton, ← h.summed]
      rfl
    · rw [hadd]
      exact hwithin
    · exact reported_add h.reported hcurrent
    · rw [totalCost_append, totalCost_singleton, ← h.cost]
      rfl
    · apply h.events.append
      apply ofSession_singleton
      · rfl
      · exact hcurrent

theorem ModelPass.Tracks.run {pass : ModelPass} (h : pass.Tracks id session) (rows : List Row) :
    (rows.foldl (ModelPass.offer crates path id session) pass).Tracks id session := by
  induction rows generalizing pass with
  | nil => exact h
  | cons row rest ih => exact ih (h.offer row)

/-! ## The events of a session -/

/-- The events are the session's: its buckets, and its cost if it has one. -/
structure Accounts (id : String) (session : Row) (events : List HermesEvent) : Prop where
  tokens : totalTokens events = buckets session
  cost : ∀ amount, Hermes.cost session = some amount → totalCost events = amount
  events : OfSession id events

theorem accounts_aggregateEvents (id : String) (session : Row) :
    Accounts id session (aggregateEvents crates path id session) := by
  rw [aggregateEvents]
  split
  next =>
    constructor
    · rw [totalTokens_singleton]
      rfl
    · intro amount hcost
      rw [totalCost_singleton, event, hcost]
      rfl
    · exact ofSession_singleton rfl (reported_buckets session)
  next h =>
    have hempty : ¬ (isZero (buckets session) = false ∨ (cost session).isSome = true) := by
      simpa using h
    rw [not_or, Bool.not_eq_false] at hempty
    constructor
    · exact (eq_zero_of_isZero (reported_buckets session) hempty.1).symm
    · intro amount hcost
      rw [hcost] at hempty
      exact absurd rfl hempty.2
    · exact fun _ hmem => nomatch hmem

/-- The events of the loop and one more, unless that one has nothing. -/
theorem accounts_of_rest {events : List HermesEvent} {rest : HermesEvent}
    (htokens : totalTokens events + rest.tokens = buckets session)
    (hcost : ∀ amount, cost session = some amount →
      totalCost events + rest.sourceCostUsd.getD 0 = amount)
    (hevents : OfSession id events) (hid : rest.sessionId = some id)
    (hrest : rest.tokens.Reported) :
    Accounts id session
      (if !isZero rest.tokens || rest.sourceCostUsd.isSome then events ++ [rest]
        else events) := by
  split
  next =>
    constructor
    · rwa [totalTokens_append, totalTokens_singleton]
    · intro amount hamount
      rw [totalCost_append, totalCost_singleton]
      exact hcost amount hamount
    · exact hevents.append (ofSession_singleton hid hrest)
  next h =>
    have hempty : ¬ (isZero rest.tokens = false ∨ rest.sourceCostUsd.isSome = true) := by
      simpa using h
    rw [not_or, Bool.not_eq_false, Option.not_isSome_iff_eq_none] at hempty
    obtain ⟨hzero, hnone⟩ := hempty
    constructor
    · rwa [eq_zero_of_isZero hrest hzero, add_zero] at htokens
    · intro amount hamount
      have htotal := hcost amount hamount
      rwa [hnone, Option.getD_none, add_zero] at htotal
    · exact hevents

theorem accounts_residualEvents {pass : ModelPass} (h : pass.Tracks id session) :
    Accounts id session (residualEvents crates path id session pass) := by
  have hrest := reported_subtract (reported_buckets session) h.reported
  have htokens : totalTokens pass.events + subtract (buckets session) pass.summed =
      buckets session := by
    rw [← h.summed]
    exact add_subtract (reported_buckets session) h.reported h.within
  rw [residualEvents]
  by_cases hreconcile : ((cost session).isSome && (pass.invalidModel ||
      (cost session).any (· < pass.attributedModelCost))) = true
  · -- The costs of the rows are withdrawn, the last event has the whole.
    simp only [if_pos hreconcile]
    apply @accounts_of_rest session id (pass.events.map withdrawCost)
      (event path s!"session:{id}:residual" id session (subtract (buckets session) pass.summed)
        (cost session) (cost session).isSome true (timestamp crates session)
        (timestamp crates session))
    · rwa [totalTokens_map_withdrawCost]
    · intro amount hamount
      rw [totalCost_map_withdrawCost, zero_add, event, hamount]
      rfl
    · exact h.events.withdraw
    · rfl
    · exact hrest
  · simp only [if_neg hreconcile]
    apply @accounts_of_rest session id pass.events
      (event path s!"session:{id}:residual" id session (subtract (buckets session) pass.summed)
        ((cost session).bind fun authoritative =>
          if pass.attributedModelCost < authoritative then
            some (authoritative - pass.attributedModelCost)
          else none)
        (cost session).isSome true (timestamp crates session) (timestamp crates session))
    · exact htokens
    · intro amount hamount
      have hle : pass.attributedModelCost ≤ amount := by
        apply le_of_not_gt
        intro hlt
        apply hreconcile
        simp [hamount, hlt]
      rw [← h.cost, event, hamount, Option.bind_some]
      split
      next => exact add_sub_cancel _ _
      next hnot =>
        have hsame : pass.attributedModelCost = amount := le_antisymm hle (not_lt.mp hnot)
        rw [Option.getD_none, add_zero, hsame]
    · exact h.events
    · rfl
    · exact hrest

theorem accounts_sessionEvents (hid : text session "id" = some id) :
    Accounts id session (sessionEvents crates path modelRows session) := by
  simp only [sessionEvents, hid]
  split
  next => exact accounts_aggregateEvents id session
  next => exact accounts_residualEvents ((ModelPass.tracks_empty id session).run _)

/-- Every event has the session its row names. -/
theorem sessionId_of_mem_sessionEvents {event : HermesEvent}
    (hmem : event ∈ sessionEvents crates path modelRows session) :
    event.sessionId = text session "id" ∧ event.tokens.Reported := by
  cases hid : text session "id" with
  | none =>
      simp only [sessionEvents, hid] at hmem
      cases hmem
  | some id => exact (accounts_sessionEvents hid).events event hmem

/-! ## All sessions -/

/-- The events that name a session. -/
def eventsOf (id : String) (events : List HermesEvent) : List HermesEvent :=
  events.filter fun event => event.sessionId = some id

theorem eventsOf_flatMap_of_forall_ne {sessions : List Row}
    (h : ∀ other ∈ sessions, text other "id" ≠ some id) :
    eventsOf id (sessions.flatMap (sessionEvents crates path modelRows)) = [] := by
  apply List.filter_eq_nil_iff.mpr
  intro event hmem
  obtain ⟨other, hother, hevent⟩ := List.mem_flatMap.mp hmem
  have hname := (sessionId_of_mem_sessionEvents hevent).1
  simpa [hname] using h other hother

/-- Of sessions with names of their own each has its events. -/
theorem eventsOf_flatMap {sessions : List Row}
    (hnames : (sessions.filterMap (text · "id")).Nodup) (hmem : session ∈ sessions)
    (hid : text session "id" = some id) :
    eventsOf id (sessions.flatMap (sessionEvents crates path modelRows)) =
      sessionEvents crates path modelRows session := by
  obtain ⟨before, after, rfl⟩ := List.append_of_mem hmem
  have hcons : (session :: after).filterMap (text · "id") =
      id :: after.filterMap (text · "id") := List.filterMap_cons_some hid
  rw [List.filterMap_append, hcons, List.nodup_middle, List.nodup_cons, List.mem_append, not_or,
    List.mem_filterMap, List.mem_filterMap] at hnames
  obtain ⟨⟨hbefore, hafter⟩, -⟩ := hnames
  have hfront := @eventsOf_flatMap_of_forall_ne crates path id modelRows before
    fun other hother hsame => hbefore ⟨other, hother, hsame⟩
  have hback := @eventsOf_flatMap_of_forall_ne crates path id modelRows after
    fun other hother hsame => hafter ⟨other, hother, hsame⟩
  have hown : eventsOf id (sessionEvents crates path modelRows session) =
      sessionEvents crates path modelRows session := by
    apply List.filter_eq_self.mpr
    intro event hevent
    rw [(sessionId_of_mem_sessionEvents hevent).1, hid]
    exact decide_eq_true rfl
  rw [eventsOf, List.flatMap_append, List.flatMap_cons, List.filter_append, List.filter_append]
  exact (congrArg₂ _ hfront (congrArg₂ _ hown hback)).trans (List.append_nil _)

/-- The rows of the sessions. -/
def Database.sessionRows (database : Database) : List Row :=
  (database.sessions.map (·.select sessionColumns)).getD []

theorem parseUsageFile_eq_ok {database : Database} {events : List HermesEvent}
    (h : parseUsageFile crates path database = .ok events) :
    events = database.sessionRows.flatMap (sessionEvents crates path database.modelRows) := by
  rw [parseUsageFile] at h
  cases hsessions : database.sessions with
  | none =>
      rw [hsessions] at h
      cases h
  | some sessions =>
      rw [hsessions] at h
      rw [Database.sessionRows, hsessions]
      exact (Except.ok.inj h).symm

variable {database : Database} {events : List HermesEvent}

/-- The events of a session have its buckets and its cost, and their input is what the source
reports. -/
theorem parse_usage_file_conserves (h : parseUsageFile crates path database = .ok events)
    (hnames : (database.sessionRows.filterMap (text · "id")).Nodup) :
    (∀ session ∈ database.sessionRows, ∀ id, text session "id" = some id →
      totalTokens (eventsOf id events) = buckets session ∧
      ∀ amount, cost session = some amount → totalCost (eventsOf id events) = amount) ∧
    ∀ event ∈ events, event.tokens.rawInput = event.tokens.uncachedInput ∧
      event.tokens.cacheWrite1h = 0 := by
  obtain rfl := parseUsageFile_eq_ok h
  constructor
  · intro session hmem id hid
    have haccounts : Accounts id session
        (sessionEvents crates path database.modelRows session) := accounts_sessionEvents hid
    rw [eventsOf_flatMap hnames hmem hid]
    exact ⟨haccounts.tokens, haccounts.cost⟩
  · intro event hmem
    obtain ⟨session, -, hevent⟩ := List.mem_flatMap.mp hmem
    have htokens := (sessionId_of_mem_sessionEvents hevent).2
    exact ⟨htokens.rawInput, htokens.cacheWrite1h⟩

/-! ## A session that read from the cache -/

/-- A session of which one row is known; it exceeds the session's output. -/
def cachedDatabase : Database where
  sessions := some
    { columns := ["id", "input_tokens", "output_tokens", "cache_read_tokens",
        "actual_cost_usd"]
      rows := [fun key => [("id", .text "s"), ("input_tokens", .integer 10),
        ("output_tokens", .integer 4), ("cache_read_tokens", .integer 30),
        ("actual_cost_usd", .integer 2)].lookup key] }
  sessionModelUsage := some
    { columns := ["session_id", "model", "input_tokens", "output_tokens", "actual_cost_usd"]
      rows := [fun key => [("session_id", .text "s"), ("model", .text "m"),
        ("input_tokens", .integer 7), ("output_tokens", .integer 9),
        ("actual_cost_usd", .integer 1)].lookup key] }

theorem parse_usage_file_conserves_cached :
    ∃ events, parseUsageFile plainCrates "state.db" cachedDatabase = .ok events ∧
      totalTokens (eventsOf "s" events) = ⟨10, 10, 30, 0, 0, 4, 0⟩ ∧
      totalCost (eventsOf "s" events) = 2 := by
  have hnames : cachedDatabase.sessionRows.filterMap (text · "id") = ["s"] := by
    decide +kernel
  have hrows : ∃ row, cachedDatabase.sessionRows = [row] ∧ text row "id" = some "s" ∧
      buckets row = ⟨10, 10, 30, 0, 0, 4, 0⟩ ∧ cost row = some 2 :=
    ⟨_, rfl, rfl, by decide +kernel, by decide +kernel⟩
  obtain ⟨row, hrow, hid, hbuckets, hcost⟩ := hrows
  obtain ⟨hsessions, -⟩ := @parse_usage_file_conserves plainCrates "state.db" cachedDatabase
    _ rfl (hnames ▸ List.nodup_singleton _)
  obtain ⟨htokens, hcosts⟩ := hsessions row (hrow ▸ List.mem_singleton_self row) "s" hid
  exact ⟨_, rfl, htokens.trans hbuckets, hcosts 2 hcost⟩

/-- The input of an event does not count what was read from the cache. -/
theorem raw_input_without_cache :
    (cachedDatabase.sessionRows.filterMap (text · "id")).Nodup ∧
    ∃ events, parseUsageFile plainCrates "state.db" cachedDatabase = .ok events ∧
      ∃ event ∈ events, event.tokens.rawInput ≠
        event.tokens.uncachedInput + event.tokens.cacheRead + event.tokens.cacheWrite := by
  have hnames : cachedDatabase.sessionRows.filterMap (text · "id") = ["s"] := by
    decide +kernel
  have hany : (cachedDatabase.sessionRows.flatMap
      (sessionEvents plainCrates "state.db" cachedDatabase.modelRows)).any (fun event =>
        event.tokens.rawInput ≠ event.tokens.uncachedInput + event.tokens.cacheRead +
          event.tokens.cacheWrite) = true := by
    decide +kernel
  obtain ⟨event, hmem, hne⟩ := List.any_eq_true.mp hany
  constructor
  · rw [hnames]
    exact List.nodup_singleton _
  · exact ⟨_, rfl, event, hmem, of_decide_eq_true hne⟩

end Sources.Hermes

end Memex
