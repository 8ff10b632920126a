import Mathlib.Algebra.Order.BigOperators.Group.List
import Mathlib.Algebra.Order.Group.Nat
import Memex.Machine.Scheduling
import Memex.Retrieval.CanonicalId
import Memex.Usage.OriginFilter

/-! # Searching for an origin

`collect_search_with_auto_index` of `cli.rs`: the machines are asked for candidates, the wanted
origin is filtered afterwards, and as long as too few are left and the candidates were cut, the
machines are asked again for five times as many, in three rounds at most. -/

namespace Memex.Machine

open Usage

variable {Score : Type} [LinearOrder Score]

/-! ## Several queries -/

/-- `ResultKey`. -/
structure ResultKey where
  machine : String
  source : SourceKind
  sessionId : String
  sourcePath : String
  recordId : String
  deriving DecidableEq, Repr

def ResultKey.fromRecord (digest : LineStream.Bytes → String) (result : LocatedRecord Score) :
    ResultKey where
  machine := result.machine
  source := result.record.source
  sessionId := result.record.sessionId
  sourcePath := result.record.sourcePath
  recordId := Retrieval.canonicalRecordId digest result.record

/-- `compare_result_keys`. -/
def compareResultKeys (left right : ResultKey) : Ordering :=
  (compare left.machine right.machine).then
    ((compare left.source.label right.source.label).then
      ((compare left.sessionId right.sessionId).then
        ((compare left.sourcePath right.sourcePath).then
          (compare left.recordId right.recordId))))

structure FusedCandidate (Score : Type) where
  key : ResultKey
  result : LocatedRecord Score
  fusedScore : Score

/-- One result of a ranked list; of equal records the better one is shown, or the first. -/
def offerFused (ops : ScoreOps Score) (key : ResultKey) (contribution : Score)
    (result : LocatedRecord Score) : List (FusedCandidate Score) → List (FusedCandidate Score)
  | [] => [{ key, result, fusedScore := contribution }]
  | candidate :: rest =>
      if candidate.key = key then
        { key
          result := if candidate.result.score < result.score then result else candidate.result
          fusedScore := ops.add candidate.fusedScore contribution } :: rest
      else candidate :: offerFused ops key contribution result rest

def FusedCandidate.before (left right : FusedCandidate Score) : Prop :=
  ((compare right.fusedScore left.fusedScore).then
    ((compare right.result.record.ts left.result.record.ts).then
      (compareResultKeys left.key right.key))).isLE = true

instance (left right : FusedCandidate Score) : Decidable (left.before right) :=
  inferInstanceAs (Decidable (_ = true))

/-- `fuse_ranked_queries`. -/
def fuseRankedQueries (ops : ScoreOps Score) (digest : LineStream.Bytes → String)
    (rankedQueries : List (List (LocatedRecord Score))) : List (LocatedRecord Score) :=
  let candidates := (rankedQueries.flatMap List.zipIdx).foldl
    (fun fused (result, rank) =>
      offerFused ops (ResultKey.fromRecord digest result) (ops.reciprocalRank rank) result fused) []
  (candidates.insertionSort FusedCandidate.before).map fun candidate =>
    { candidate.result with score := candidate.fusedScore }

/-! ## The wanted origin -/

inductive SortBy where
  | score
  | ts
  deriving DecidableEq, Repr

structure RenderOptions (Score : Type) where
  sort : SortBy := .score
  minScore : Option Score := none
  topNPerSession : Option Nat := none
  limit : Nat
  kindFilter : SessionKindFilter

/-- The machine, source and session of a result. -/
abbrev GroupKey := String × String × String

def groupKey (result : LocatedRecord Score) : GroupKey :=
  (result.machine, result.record.source.storageLabel, result.record.sessionId)

/-- The kind of a group is the one of its first result, or `main` if any result has it. -/
def noteKind (kindOf : LocatedRecord Score → Option String)
    (kinds : List (GroupKey × Option String)) (result : LocatedRecord Score) :
    List (GroupKey × Option String) :=
  match kinds.lookup (groupKey result) with
  | some _ =>
      if kindOf result = some "main" then (groupKey result, some "main") :: kinds else kinds
  | none => (groupKey result, kindOf result) :: kinds

def groupKinds (kindOf : LocatedRecord Score → Option String)
    (results : List (LocatedRecord Score)) : List (GroupKey × Option String) :=
  results.foldl (noteKind kindOf) []

/-- `session_conversation_kind` of an analytics store. -/
abbrev AnalyticsKinds := SourceKind → String → String → Option String

/-- `stored_session_kinds`. -/
def storedSessionKinds (store : Option AnalyticsKinds) (results : List (LocatedRecord Score))
    (originFiltered : Bool) : List (GroupKey × Option String) :=
  match store, originFiltered with
  | some kind, true => groupKinds (fun result =>
      kind result.record.source result.record.sessionId result.record.sourcePath) results
  | _, _ => []

/-- At most some results of each session, of those that are left with what was counted. -/
def capSessions (most : Nat) : List GroupKey → List (LocatedRecord Score) →
    List (LocatedRecord Score)
  | _, [] => []
  | counted, result :: rest =>
      if most ≤ counted.count (groupKey result) then capSessions most counted rest
      else result :: capSessions most (groupKey result :: counted) rest

/-- Whether the session of a result has the wanted origin. -/
def hasKind (filter : SessionKindFilter) (stored grouped : List (GroupKey × Option String))
    (result : LocatedRecord Score) : Bool :=
  filter.matchesKind (((stored.lookup (groupKey result)).join).or
    (grouped.lookup (groupKey result)).join)

def sortResults (sort : SortBy) (results : List (LocatedRecord Score)) :
    List (LocatedRecord Score) :=
  match sort with
  | .score => results.insertionSort fun left right => right.score ≤ left.score
  | .ts => results.insertionSort fun left right => right.record.ts ≤ left.record.ts

/-- `apply_post_processing_located`. -/
def applyPostProcessingLocated (render : RenderOptions Score)
    (stored : List (GroupKey × Option String)) (results : List (LocatedRecord Score)) :
    List (LocatedRecord Score) :=
  let scored := results.filter fun result => render.minScore.all (· ≤ result.score)
  let grouped := groupKinds (fun result => result.record.links.conversationKind) scored
  let wanted :=
    if render.kindFilter = .all then scored
    else scored.filter (hasKind render.kindFilter stored grouped)
  let sorted := sortResults render.sort wanted
  (render.topNPerSession.elim sorted fun most => capSessions most [] sorted).take render.limit

/-! ## The rounds -/

/-- A request with what it is answered by: the machines for every query and candidate limit, in
the order in which they arrive, and the store of session kinds. -/
structure CollectRequest (Score : Type) where
  query : String
  additionalQueries : List String := []
  hasCwd : Bool := false
  hasSource : Bool := false
  render : RenderOptions Score
  config : UserConfig := {}
  machines : List String := []
  ops : ScoreOps Score
  digest : LineStream.Bytes → String
  answer : String → String → Nat → Except String (List (Score × Record))
  arrival : String → Nat → List String
  store : Option AnalyticsKinds := none

/-- The first of the queries that are the same without blanks around them, unless empty. -/
def retainQueries (queries : List String) : List String :=
  (queries.foldl (fun (kept, seen) query =>
    let trimmed := Sources.trim query
    if trimmed ≠ "" ∧ trimmed ∉ seen then (kept ++ [query], trimmed :: seen) else (kept, seen))
    (([], []) : List String × List String)).1

namespace CollectRequest

variable (request : CollectRequest Score)

def queries : List String :=
  retainQueries (request.query :: request.additionalQueries)

def originFiltered : Bool :=
  request.render.kindFilter ≠ .all

/-- The candidate limit of the first round. -/
def firstLimit : Nat :=
  if 1 < request.queries.length || request.render.topNPerSession.isSome || request.hasSource ||
      request.hasCwd || request.originFiltered then
    max (request.render.limit * 5) (request.render.limit + 10)
  else request.render.limit

/-- `saturating_mul(5)`. -/
def nextLimit (limit : Nat) : Nat :=
  min (limit * 5) (2 ^ 64 - 1)

/-- What one round brings: the results and whether the candidates of some query were cut. -/
structure Round (Score : Type) where
  results : List (LocatedRecord Score)
  capped : Bool

/-- The answers of the machines to the queries. -/
def federated (selected : List String) (limit : Nat) :
    Except String (List (Federated (LocatedRecord Score))) :=
  request.queries.mapM fun query =>
    federatedSearch request.ops request.config selected limit
      (fun machine => request.answer machine query limit) (request.arrival query limit)

def finishRound (answers : List (Federated (LocatedRecord Score))) : Round Score :=
  let fused :=
    match answers with
    | [single] => single.items
    | many => fuseRankedQueries request.ops request.digest (many.map Federated.items)
  let stored := storedSessionKinds request.store fused request.originFiltered
  { results := applyPostProcessingLocated { request.render with minScore := none } stored fused
    capped := answers.any fun answer => answer.items.length < answer.candidateCount }

/-- What the search ends with: the results, the rounds that were run and the last limit. -/
structure Collection (Score : Type) where
  results : List (LocatedRecord Score)
  rounds : Nat
  candidateLimit : Nat

/-- The loop, with the rounds that are left at most. -/
def loop (selected : List String) : Nat → Nat → Nat → Except String (Collection Score)
  | 0, round, limit => .ok { results := [], rounds := round, candidateLimit := limit }
  | left + 1, round, limit => do
      let answers ← request.federated selected limit
      let outcome := request.finishRound answers
      if !request.originFiltered || request.render.limit ≤ outcome.results.length ||
          !outcome.capped || left = 0 then
        return { results := outcome.results, rounds := round + 1, candidateLimit := limit }
      else loop selected left (round + 1) (nextLimit limit)

/-- `collect_search_with_auto_index`. -/
def collectSearch : Except String (Collection Score) :=
  if request.queries = [] then .error "at least one non-empty search query is required"
  else do
    let selected ← selectedMachineIds request.config request.machines
    request.loop selected 3 0 request.firstLimit

/-! ## What the machines offer -/

/-- The candidates of a machine for a query and a limit. -/
def offered (machine query : String) (limit : Nat) : List (Score × Record) :=
  (request.answer machine query limit).toOption.getD []

/-- How many candidates all machines offer for a query. -/
def offeredCount (ids : List String) (query : String) (limit : Nat) : Nat :=
  (ids.map fun machine => (request.offered machine query limit).length).sum

/-- The machines offer more candidates for some query than a limit lets through. -/
def Cut (ids : List String) (limit : Nat) : Prop :=
  ∃ query ∈ request.queries, limit < request.offeredCount ids query limit

/-- No machine has more candidates for any query than it offers at a limit. -/
def Exhausted (ids : List String) (limit : Nat) : Prop :=
  ∀ machine ∈ ids, ∀ query ∈ request.queries, ∀ more, limit ≤ more →
    request.offered machine query more = request.offered machine query limit

/-- A machine with candidates behind its answer fills the limit, and another machine has some for
the query as well. -/
def Crowded (ids : List String) (limit : Nat) : Prop :=
  ∀ machine ∈ ids, ∀ query ∈ request.queries, ∀ more, limit ≤ more →
    request.offered machine query more ≠ request.offered machine query limit →
      limit ≤ (request.offered machine query limit).length ∧
        ∃ other ∈ ids, other ≠ machine ∧ request.offered other query limit ≠ []

/-- Among the candidates at a limit too few results have the wanted origin. -/
def TooFew (ids : List String) (limit : Nat) : Prop :=
  ∃ answers, request.federated ids limit = .ok answers ∧
    (request.finishRound answers).results.length < request.render.limit

end CollectRequest

section Candidates

variable {request : CollectRequest Score} {ids : List String}

omit [LinearOrder Score] in
/-- Where no machine fills the limit alone, candidates that all fit into it are all there are. -/
theorem exhausted_of_crowded {limit : Nat} (h : request.Crowded ids limit)
    (hfits : ¬ request.Cut ids limit) : request.Exhausted ids limit := by
  intro machine hmachine query hquery more hle
  by_contra hmore
  obtain ⟨hfull, other, hother, hapart, hoffers⟩ := h machine hmachine query hquery more hle hmore
  have hsum : request.offeredCount ids query limit ≤ limit :=
    Nat.le_of_not_lt fun hlt => hfits ⟨query, hquery, hlt⟩
  have hperm := (List.perm_cons_erase hmachine).map fun id =>
    (request.offered id query limit).length
  rw [CollectRequest.offeredCount, hperm.sum_eq, List.map_cons, List.sum_cons] at hsum
  have hrest : (request.offered other query limit).length ≤ ((ids.erase machine).map fun id =>
      (request.offered id query limit).length).sum := by
    apply List.le_sum_of_mem
    exact List.mem_map_of_mem ((List.mem_erase_of_ne hapart).mpr hother)
  have hpositive := List.length_pos_of_ne_nil hoffers
  omega

/-- The count of a federated search is the one of all answers, and its list is cut at the
limit. -/
theorem counts_of_federatedSearch {ops : ScoreOps Score} {config : UserConfig}
    {requested arrival : List String} {limit : Nat}
    {answer : String → Except String (List (Score × Record))}
    {result : Federated (LocatedRecord Score)}
    (h : federatedSearch ops config requested limit answer arrival = .ok result) :
    result.candidateCount = (arrival.map fun id =>
        ((answer id).toOption.getD []).length).sum ∧
      result.items.length = min limit result.candidateCount := by
  rw [federatedSearch] at h
  cases hselected : selectedMachineIds config requested with
  | error _ =>
      rw [hselected] at h
      cases h
  | ok selected =>
      rw [hselected] at h
      change mergeSearches ops limit _ = _ at h
      rw [mergeSearches, receive_map] at h
      split at h
      · cases h
      · obtain rfl := Except.ok.inj h
        refine ⟨?_, List.length_take⟩
        dsimp only
        rw [List.length_insertionSort, locatedRecords_answered, List.length_flatMap]
        congr 1
        apply List.map_congr_left
        intro id _
        rw [searchPiece]
        cases answer id with
        | error _ => rfl
        | ok records => simp [locate, Except.toOption]

/-- The results of a list of computations that all succeed. -/
theorem forall₂_of_mapM {α β : Type} {run : α → Except String β} {inputs : List α}
    {results : List β} (h : inputs.mapM run = .ok results) :
    List.Forall₂ (fun input result => run input = .ok result) inputs results := by
  induction inputs generalizing results with
  | nil =>
      obtain rfl := Except.ok.inj h
      exact List.Forall₂.nil
  | cons input rest ih =>
      rw [List.mapM_cons] at h
      cases hrun : run input with
      | error _ =>
          rw [hrun] at h
          cases h
      | ok result =>
          cases hrest : rest.mapM run with
          | error _ =>
              rw [hrun, hrest] at h
              cases h
          | ok others =>
              rw [hrun, hrest] at h
              obtain rfl := Except.ok.inj h
              exact List.Forall₂.cons hrun (ih hrest)

theorem exists_left_of_forall₂ {α β : Type} {related : α → β → Prop} {lefts : List α}
    {rights : List β} (h : List.Forall₂ related lefts rights) {right : β}
    (hmem : right ∈ rights) : ∃ left ∈ lefts, related left right := by
  induction h with
  | nil => cases hmem
  | cons hfirst _ ih =>
      obtain rfl | hrest := List.mem_cons.mp hmem
      · exact ⟨_, List.mem_cons_self, hfirst⟩
      · obtain ⟨left, hleft, hrelated⟩ := ih hrest
        exact ⟨left, List.mem_cons_of_mem _ hleft, hrelated⟩

theorem exists_right_of_forall₂ {α β : Type} {related : α → β → Prop} {lefts : List α}
    {rights : List β} (h : List.Forall₂ related lefts rights) {left : α}
    (hmem : left ∈ lefts) : ∃ right ∈ rights, related left right :=
  exists_left_of_forall₂ h.flip hmem

/-- A round is capped exactly if the machines offer more than its limit for some query. -/
theorem capped_iff (harrival : ∀ query limit, (request.arrival query limit).Perm ids)
    {limit : Nat} {selected : List String} {answers : List (Federated (LocatedRecord Score))}
    (h : request.federated selected limit = .ok answers) :
    (request.finishRound answers).capped = true ↔ request.Cut ids limit := by
  have hall := forall₂_of_mapM h
  have hcount : ∀ query result, federatedSearch request.ops request.config selected limit
      (fun machine => request.answer machine query limit) (request.arrival query limit) =
        .ok result →
      (result.items.length < result.candidateCount ↔
        limit < request.offeredCount ids query limit) := by
    intro query result hresult
    obtain ⟨hcandidates, hitems⟩ := counts_of_federatedSearch hresult
    have hsame : result.candidateCount = request.offeredCount ids query limit := by
      rw [hcandidates]
      exact ((harrival query limit).map _).sum_eq
    rw [hitems, hsame]
    omega
  change answers.any (fun answer => answer.items.length < answer.candidateCount) = true ↔ _
  rw [List.any_eq_true, CollectRequest.Cut]
  constructor
  · rintro ⟨answer, hmem, hlt⟩
    obtain ⟨query, hquery, hresult⟩ := exists_left_of_forall₂ hall hmem
    exact ⟨query, hquery, (hcount query answer hresult).mp (of_decide_eq_true hlt)⟩
  · rintro ⟨query, hmem, hlt⟩
    obtain ⟨answer, hanswer, hresult⟩ := exists_right_of_forall₂ hall hmem
    exact ⟨answer, hanswer, decide_eq_true ((hcount query answer hresult).mpr hlt)⟩

/-- One round of the loop that filters an origin. -/
theorem loop_succ (horigin : request.originFiltered = true) (left round limit : Nat)
    (selected : List String) :
    CollectRequest.loop request selected (left + 1) round limit =
      (request.federated selected limit).bind fun answers =>
        if request.render.limit ≤ (request.finishRound answers).results.length ∨
            (request.finishRound answers).capped = false ∨ left = 0 then
          .ok { results := (request.finishRound answers).results
                rounds := round + 1
                candidateLimit := limit }
        else CollectRequest.loop request selected left (round + 1)
          (CollectRequest.nextLimit limit) := by
  rw [CollectRequest.loop, horigin]
  simp only [Bool.not_true, Bool.false_or, Bool.or_eq_true, decide_eq_true_iff,
    Bool.not_eq_true', or_assoc]
  rfl

/-- The loop ends early with too few results only when all candidates were seen. -/
def SeesAll (request : CollectRequest Score) (ids : List String)
    (result : Except String (CollectRequest.Collection Score)) : Prop :=
  ∀ outcome, result = .ok outcome → outcome.rounds < 3 →
    outcome.results.length < request.render.limit → request.Exhausted ids outcome.candidateLimit

/-- What one round adds to it. -/
theorem seesAll_loop_succ (harrival : ∀ query limit, (request.arrival query limit).Perm ids)
    (horigin : request.originFiltered = true) {left round limit : Nat}
    (hround : round + (left + 1) = 3) :
    SeesAll request ids (CollectRequest.loop request ids (left + 1) round limit) ↔
      (left ≠ 0 → request.TooFew ids limit →
        (¬ request.Cut ids limit → request.Exhausted ids limit) ∧
        (request.Cut ids limit → SeesAll request ids
          (CollectRequest.loop request ids left (round + 1)
            (CollectRequest.nextLimit limit)))) := by
  rw [loop_succ horigin]
  cases hanswers : request.federated ids limit with
  | error message =>
      refine iff_of_true ?_ ?_
      · intro outcome houtcome
        cases houtcome
      · rintro - ⟨answers, hok, -⟩
        rw [hanswers] at hok
        cases hok
  | ok answers =>
      have hcut := capped_iff harrival hanswers
      have hfew : request.TooFew ids limit ↔
          (request.finishRound answers).results.length < request.render.limit := by
        constructor
        · rintro ⟨others, hothers, hlt⟩
          obtain rfl := Except.ok.inj (hanswers.symm.trans hothers)
          exact hlt
        · exact fun hlt => ⟨answers, hanswers, hlt⟩
      change SeesAll request ids (if request.render.limit ≤
          (request.finishRound answers).results.length ∨
            (request.finishRound answers).capped = false ∨ left = 0 then _ else _) ↔ _
      rw [hfew, ← hcut]
      split
      next hstop =>
        constructor
        · intro hsees hleft hlt
          have hquiet : (request.finishRound answers).capped = false := by
            obtain henough | hquiet | hlast := hstop
            · exact absurd henough (Nat.not_le_of_lt hlt)
            · exact hquiet
            · exact absurd hlast hleft
          refine ⟨fun _ => hsees _ rfl ?_ hlt, fun hcapped => ?_⟩
          · dsimp only
            omega
          · rw [hquiet] at hcapped
            cases hcapped
        · intro hall outcome houtcome hrounds hlt
          obtain rfl := Except.ok.inj houtcome
          have hleft : left ≠ 0 := by
            rintro rfl
            dsimp only at hrounds
            omega
          refine (hall hleft hlt).1 ?_
          obtain henough | hquiet | hlast := hstop
          · exact absurd henough (Nat.not_le_of_lt hlt)
          · rw [hquiet]
            exact Bool.false_ne_true
          · exact absurd hlast hleft
      next hgoes =>
        rw [not_or, not_or, Nat.not_le, Bool.not_eq_false] at hgoes
        obtain ⟨hlt, hcapped, hleft⟩ := hgoes
        constructor
        · intro hsees _ _
          exact ⟨fun hquiet => absurd hcapped hquiet, fun _ => hsees⟩
        · intro hall
          exact (hall hleft hlt).2 hcapped

end Candidates

/-! ## Searches for main sessions -/

/-- Machines that have some candidates for every query, best first. -/
def searchOf (limit : Nat) (config : UserConfig) (ids : List String)
    (candidates : String → List (Nat × Record)) : CollectRequest Nat where
  query := "needle"
  render := { limit, kindFilter := .primary }
  config
  ops := sampleOps
  digest _ := ""
  answer machine _ limit := .ok ((candidates machine).take limit)
  arrival _ _ := ids

/-- A machine with no more candidates than were asked for. -/
theorem offered_searchOf {limit asked more : Nat} {config : UserConfig} {ids : List String}
    {candidates : String → List (Nat × Record)} {machine : String} (query : String)
    (hall : (candidates machine).length ≤ asked) (hmore : asked ≤ more) :
    (searchOf limit config ids candidates).offered machine query more =
      (searchOf limit config ids candidates).offered machine query asked := by
  change (candidates machine).take more = (candidates machine).take asked
  rw [List.take_of_length_le (hall.trans hmore), List.take_of_length_le hall]

theorem ok_of_toOption {α : Type} {result : Except String α} {value : α}
    (h : result.toOption = some value) : result = .ok value := by
  cases result with
  | error _ => cases h
  | ok other => rw [Option.some.inj h]

/-- A record of a session of some kind. -/
def hitOfKind (docId : Nat) (kind : String) : Record :=
  { source := .codex, docId, sessionId := s!"session-{docId}"
    links := { conversationKind := some kind } }

/-- Candidates of subagents, and behind them one of the wanted origin. -/
def starvedCandidates (subagents : Nat) : List (Nat × Record) :=
  (List.range subagents).map (fun index => (20 - index, hitOfKind index "subagent")) ++
    [(1, hitOfKind subagents "main")]

end Memex.Machine
