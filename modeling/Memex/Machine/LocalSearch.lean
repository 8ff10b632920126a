import Memex.Index.Filters
import Memex.Machine.Scheduling

/-! # Searching one machine

`search_local` of `machine.rs`: a lexical, semantic or hybrid search with recency, filters, the
least score, the order and the project grouping. Without vectors it leaves early with what
`lexical_results` finds. -/

namespace Memex.Machine

open Index.Filters

inductive SearchMode where
  | lexical
  | semantic
  | hybrid
  deriving DecidableEq, Repr

inductive ProjectGrouping where
  | flat
  | repository
  deriving DecidableEq, Repr

/-- `SearchSpec`, of which `options` are the query options. -/
structure SearchSpec (Score : Type) where
  options : QueryOptions := {}
  cwd : Option String := none
  limit : Nat
  mode : SearchMode
  minScore : Option Score := none
  projectGrouping : Option ProjectGrouping := none

/-! ## The session catalogue -/

/-- The catalogue: its sessions newest first, with the project of their repository, and how many
sessions one query can name. -/
structure CatalogueDb where
  newestFirst : List (Resume.SessionDetailRow × Option String)
  maxKeys : Nat
  displayProjectName : String → String

inductive Catalogue where
  | absent
  | unreadable (error : String)
  | present (db : CatalogueDb)

def keyOfRow (row : Resume.SessionDetailRow) : SessionScopeKey :=
  { source := row.source, sessionId := row.sessionId, sourcePath := row.sourcePath }

/-- The column that the grouping shows. -/
def displayExpr (grouping : ProjectGrouping)
    (row : Resume.SessionDetailRow × Option String) : String :=
  match grouping with
  | .flat => row.1.project
  | .repository => (row.2.filter (· ≠ "")).getD "Unfiled"

/-- `query_session_projects`. Every session has one row. -/
def CatalogueDb.querySessionProjects (db : CatalogueDb) (sessions : List SessionScopeKey)
    (grouping : ProjectGrouping) : Option (List (SessionScopeKey × String)) :=
  if db.maxKeys < sessions.length then none
  else some ((db.newestFirst.filter fun row => keyOfRow row.1 ∈ sessions).map fun row =>
    (keyOfRow row.1, db.displayProjectName (displayExpr grouping row)))

/-- `session_scope_for_cwd`. -/
def sessionScopeForCwd (catalogue : Catalogue) (cwd : String) :
    Except String (List SessionScopeKey) :=
  match catalogue with
  | .absent => .ok []
  | .unreadable error => .error error
  | .present db =>
      .ok ((Resume.querySessionsDetailed (db.newestFirst.map Prod.fst) none (some cwd) none).map
        keyOfRow)

/-- The project that a grouping shows for a session, among the results of some sessions. -/
def displayedProject (catalogue : Catalogue) (grouping : Option ProjectGrouping)
    (sessions : List SessionScopeKey) (session : SessionScopeKey) : Option String :=
  match catalogue, grouping.filter (· ≠ .flat) with
  | .present db, some grouping =>
      (db.querySessionProjects sessions grouping).bind fun projects => projects.lookup session
  | _, _ => none

section Search

variable {Score : Type} [LinearOrder Score]

/-- `apply_project_grouping`. -/
def applyProjectGrouping (catalogue : Catalogue) (grouping : Option ProjectGrouping)
    (records : List (Score × Record)) : List (Score × Record) :=
  let sessions := records.map fun result => identity result.2
  records.map fun (score, record) =>
    (score, { record with project :=
      (displayedProject catalogue grouping sessions (identity record)).getD record.project })

/-! ## The search -/

/-- An opened vector index: the model its query needs, the embedding of the query, and the
records that are found next to it, with their distances. -/
structure VectorIndex (Score : Type) where
  isEmpty : Bool
  model : Except String Unit
  embed : Except String Unit
  searchFilteredRecords : Nat → QueryOptions → Except String (List (Score × Record))

/-- What a search reads: the index, the vectors, the catalogue and the enumeration of a hash
map. -/
structure LocalMachine (Score : Type) where
  ops : ScoreOps Score
  similarity : Score → Score
  enumerate : List (Nat × Score) → List (Nat × Score)
  search : QueryOptions → Nat → Except String (List (Score × Record))
  vectors : Except String (VectorIndex Score)
  catalogue : Catalogue

def vectorIndexNotFound : String := "vector index not found"

/-- `resolve_vector_query_model`. -/
def resolveVectorQueryModel (vector : VectorIndex Score) : Except String (Option Unit) :=
  if vector.isEmpty then .ok none else vector.model.map some

/-- The vectors of a search; there are none if the store is missing or empty. -/
def LocalMachine.queryVectors (machine : LocalMachine Score) :
    Except String (Option (VectorIndex Score)) :=
  match machine.vectors with
  | .error error => if error = vectorIndexNotFound then .ok none else .error error
  | .ok vector => (resolveVectorQueryModel vector).map fun model => model.map fun _ => vector

/-- The recency of every score. -/
def weighed (ops : ScoreOps Score) (results : List (Score × Record)) : List (Score × Record) :=
  results.map fun (score, record) => (ops.applyRecency score record.ts, record)

/-- The results that pass the filters and the least score. -/
def retained (options : QueryOptions) (minScore : Option Score)
    (results : List (Score × Record)) : List (Score × Record) :=
  (results.filter fun result => matchesFilters result.2 options).filter fun result =>
    minScore.all fun least => least ≤ result.1

/-- `lexical_results`. -/
def LocalMachine.lexicalResults (machine : LocalMachine Score) (spec : SearchSpec Score)
    (options : QueryOptions) : Except String (List (Score × Record)) :=
  (machine.search options spec.limit).map fun hits =>
    retained options spec.minScore (weighed machine.ops hits)

/-- The end of `search_local`. -/
def LocalMachine.finish (machine : LocalMachine Score) (spec : SearchSpec Score)
    (options : QueryOptions) (results : List (Score × Record)) : List (Score × Record) :=
  applyProjectGrouping machine.catalogue spec.projectGrouping
    (((retained options spec.minScore (weighed machine.ops results)).insertionSort
      fun left right => byScore (resultKey left) (resultKey right)).take spec.limit)

/-- The query options, with the sessions of a directory. -/
def LocalMachine.scopedOptions (machine : LocalMachine Score) (spec : SearchSpec Score) :
    Except String QueryOptions :=
  match spec.cwd with
  | none => .ok spec.options
  | some cwd => (sessionScopeForCwd machine.catalogue cwd).map fun scope =>
      { spec.options with sessionScope := some scope }

/-- The candidates of a hybrid search: `(limit * 5).clamp(50, 500)`. -/
def candidateLimit (limit : Nat) : Nat :=
  min (max (limit * 5) 50) 500

/-- The entries of the scores that have a record, with it. -/
def fusedResults (fusion : Fusion Score) (order : List (Nat × Score)) : List (Score × Record) :=
  order.filterMap fun (docId, score) =>
    (fusion.records.get docId).map fun record => (score, record)

/-- `search_local`. -/
def LocalMachine.searchLocal (machine : LocalMachine Score) (spec : SearchSpec Score) :
    Except String (List (Score × Record)) := do
  let options ← machine.scopedOptions spec
  match spec.mode with
  | .lexical => return machine.finish spec options (← machine.search options spec.limit)
  | .semantic =>
      match ← machine.queryVectors with
      | none => machine.lexicalResults spec options
      | some vector =>
          vector.embed
          let found ← vector.searchFilteredRecords spec.limit options
          return machine.finish spec options
            (found.map fun (distance, record) => (machine.similarity distance, record))
  | .hybrid =>
      match ← machine.queryVectors with
      | none => machine.lexicalResults spec options
      | some vector =>
          let lexical ← machine.search options (candidateLimit spec.limit)
          vector.embed
          let semantic ← vector.searchFilteredRecords (candidateLimit spec.limit) options
          let fusion := fuse machine.ops options (lexical.map Prod.snd) (semantic.map Prod.snd)
          return machine.finish spec options
            (fusedResults fusion (machine.enumerate fusion.scores))

/-! ## Without vectors -/

/-- The vector store is missing or empty. -/
def LocalMachine.NoVectors (machine : LocalMachine Score) : Prop :=
  machine.vectors = .error vectorIndexNotFound ∨
    ∃ vector, machine.vectors = .ok vector ∧ vector.isEmpty = true

omit [LinearOrder Score] in
theorem LocalMachine.queryVectors_of_noVectors {machine : LocalMachine Score}
    (h : machine.NoVectors) : machine.queryVectors = .ok none := by
  rw [queryVectors]
  obtain h | ⟨vector, h, hempty⟩ := h
  · rw [h]
    exact if_pos rfl
  · rw [h]
    dsimp only
    rw [resolveVectorQueryModel, if_pos hempty]
    rfl

/-- A hit that passes the filters and, with its recency, the least score. -/
def passes (ops : ScoreOps Score) (options : QueryOptions) (minScore : Option Score)
    (hit : Score × Record) : Bool :=
  matchesFilters hit.2 options &&
    minScore.all fun least => least ≤ ops.applyRecency hit.1 hit.2.ts

/-- What a hit is sorted by. -/
def weighedKey (ops : ScoreOps Score) (hit : Score × Record) : Score × Nat :=
  (ops.applyRecency hit.1 hit.2.ts, hit.2.ts)

theorem retained_weighed (ops : ScoreOps Score) (options : QueryOptions)
    (minScore : Option Score) (hits : List (Score × Record)) :
    retained options minScore (weighed ops hits) =
      weighed ops (hits.filter (passes ops options minScore)) := by
  rw [retained, weighed, weighed, List.filter_filter, List.filter_map]
  congr 2
  funext hit
  exact Bool.and_comm _ _

omit [LinearOrder Score] in
theorem map_resultKey_applyProjectGrouping (catalogue : Catalogue)
    (grouping : Option ProjectGrouping) (records : List (Score × Record)) :
    (applyProjectGrouping catalogue grouping records).map resultKey = records.map resultKey := by
  rw [applyProjectGrouping, List.map_map]
  rfl

theorem withProject_eq_iff {record : Record} {project : String} :
    { record with project } = record ↔ record.project = project := by
  constructor
  · intro h
    rw [← h]
  · rintro rfl
    rfl

omit [LinearOrder Score] in
/-- Grouping changes nothing exactly if every project that it shows is the one of the record. -/
theorem applyProjectGrouping_eq_self_iff (catalogue : Catalogue)
    (grouping : Option ProjectGrouping) (records : List (Score × Record)) :
    applyProjectGrouping catalogue grouping records = records ↔
      ∀ result ∈ records, ∀ project, displayedProject catalogue grouping
        (records.map fun other => identity other.2) (identity result.2) = some project →
          result.2.project = project := by
  have hself : ∀ shown : SessionScopeKey → Option String,
      records.map (fun (score, record) =>
        (score, { record with project := (shown (identity record)).getD record.project })) =
          records ↔
        ∀ result ∈ records, ∀ project, shown (identity result.2) = some project →
          result.2.project = project := by
    intro shown
    conv_lhs => rhs; rw [← List.map_id records]
    rw [List.map_inj_left]
    refine forall₂_congr fun result _ => ?_
    obtain ⟨score, record⟩ := result
    have hrecord := @withProject_eq_iff record
    cases hshown : shown (identity record) with
    | none => simp [hshown]
    | some project => simp [hshown, hrecord]
  exact hself _

/-- The results stand in their final order exactly if they are sorted and grouping changes
nothing. -/
theorem eq_grouped_sorted_iff (catalogue : Catalogue) (grouping : Option ProjectGrouping)
    (limit : Nat) {results : List (Score × Record)} (hlimit : results.length ≤ limit) :
    results = applyProjectGrouping catalogue grouping
        ((results.insertionSort fun left right => byScore (resultKey left) (resultKey right)).take
          limit) ↔
      results.Pairwise (fun left right => byScore (resultKey left) (resultKey right)) ∧
        applyProjectGrouping catalogue grouping results = results := by
  have hwhole : (results.insertionSort fun left right =>
      byScore (resultKey left) (resultKey right)).take limit =
        results.insertionSort fun left right => byScore (resultKey left) (resultKey right) := by
    apply List.take_of_length_le
    rw [List.length_insertionSort]
    exact hlimit
  rw [hwhole]
  constructor
  · intro h
    have hkeys : results.map resultKey = (results.insertionSort fun left right =>
        byScore (resultKey left) (resultKey right)).map resultKey := by
      conv_lhs => rw [h]
      exact map_resultKey_applyProjectGrouping catalogue grouping _
    have hsorted : results.Pairwise fun left right =>
        byScore (resultKey left) (resultKey right) := by
      rw [← @List.pairwise_map _ _ resultKey byScore, hkeys, List.pairwise_map]
      exact List.pairwise_insertionSort _ _
    rw [hsorted.insertionSort_eq] at h
    exact ⟨hsorted, h.symm⟩
  · rintro ⟨hsorted, hsame⟩
    rw [hsorted.insertionSort_eq, hsame]

variable {machine : LocalMachine Score} {spec : SearchSpec Score}

theorem LocalMachine.searchLocal_of_noVectors (h : machine.NoVectors)
    (hmode : spec.mode ≠ .lexical) :
    machine.searchLocal spec =
      (machine.scopedOptions spec).bind fun options => machine.lexicalResults spec options := by
  rw [searchLocal]
  cases hcase : spec.mode with
  | lexical => exact absurd hcase hmode
  | semantic =>
      rw [queryVectors_of_noVectors h]
      rfl
  | hybrid =>
      rw [queryVectors_of_noVectors h]
      rfl

theorem LocalMachine.searchLocal_lexical (machine : LocalMachine Score)
    (spec : SearchSpec Score) :
    machine.searchLocal { spec with mode := .lexical } =
      (machine.scopedOptions spec).bind fun options =>
        (machine.search options spec.limit).map (machine.finish spec options) := by
  rw [searchLocal]
  change (machine.scopedOptions spec).bind _ = _
  cases machine.scopedOptions spec with
  | error _ => rfl
  | ok options => cases machine.search options spec.limit <;> rfl

/-- Without vectors a search gives what a lexical search gives if and only if, with their
recency, the hits of the index that pass the filters and the least score stand by score and then
by time, and every project that the grouping shows for them is their own. -/
theorem search_without_vectors_iff (h : machine.NoVectors) (hmode : spec.mode ≠ .lexical)
    (htop : ∀ options limit hits, machine.search options limit = .ok hits →
      hits.length ≤ limit) :
    machine.searchLocal spec = machine.searchLocal { spec with mode := .lexical } ↔
      ∀ options hits, machine.scopedOptions spec = .ok options →
        machine.search options spec.limit = .ok hits →
          let kept := hits.filter (passes machine.ops options spec.minScore)
          kept.Pairwise (fun left right =>
            byScore (weighedKey machine.ops left) (weighedKey machine.ops right)) ∧
          ∀ hit ∈ kept, ∀ project,
            displayedProject machine.catalogue spec.projectGrouping
              (kept.map fun other => identity other.2) (identity hit.2) = some project →
            hit.2.project = project := by
  rw [LocalMachine.searchLocal_of_noVectors h hmode, LocalMachine.searchLocal_lexical]
  cases hoptions : machine.scopedOptions spec with
  | error _ =>
      refine iff_of_true rfl ?_
      intro options hits hfalse
      cases hfalse
  | ok options =>
      simp only [Except.bind, LocalMachine.lexicalResults]
      cases hsearch : machine.search options spec.limit with
      | error _ =>
          refine iff_of_true rfl ?_
          intro options hits heq hfalse
          obtain rfl := Except.ok.inj heq
          rw [hsearch] at hfalse
          cases hfalse
      | ok hits =>
          have hlimit : (retained options spec.minScore (weighed machine.ops hits)).length ≤
              spec.limit := by
            rw [retained_weighed, weighed, List.length_map]
            exact List.length_filter_le _ _ |>.trans (htop _ _ _ hsearch)
          have hlists := eq_grouped_sorted_iff machine.catalogue spec.projectGrouping spec.limit
            hlimit
          change Except.ok (retained options spec.minScore (weighed machine.ops hits)) =
            Except.ok (machine.finish spec options hits) ↔ _
          rw [Except.ok.injEq, LocalMachine.finish, hlists, applyProjectGrouping_eq_self_iff,
            retained_weighed, weighed, List.pairwise_map, List.map_map, List.forall_mem_map]
          constructor
          · intro hkept other found hother hfound
            obtain rfl := Except.ok.inj hother
            obtain rfl := Except.ok.inj (hsearch.symm.trans hfound)
            exact hkept
          · intro hkept
            exact hkept options hits rfl hsearch

end Search

/-! ## Two equally good hits -/

/-- A machine without vectors whose index finds some records, all with the score 1. -/
def plainMachine (records : List Record) : LocalMachine Nat where
  ops := sampleOps
  similarity distance := distance
  enumerate scores := scores
  search options limit := .ok (((records.filter fun record => matchesFilters record options).map
    fun record => (1, record)).take limit)
  vectors := .error vectorIndexNotFound
  catalogue := .absent

def hitAt (docId ts : Nat) : Record :=
  { source := .codex, docId, ts, sessionId := "session", sourcePath := "session.jsonl" }

def sessionRow (sessionId project : String) : Resume.SessionDetailRow :=
  { source := .codex, sessionId, sourcePath := "session.jsonl", project }

/-- A machine on which recent hits count twice, with two sessions, one of them in a repository. -/
def recencyMachine (hits : List (Nat × Record)) : LocalMachine Nat where
  ops := { sampleOps with applyRecency := fun score ts => if 100 ≤ ts then 2 * score else score }
  similarity distance := distance
  enumerate scores := scores
  search options limit := .ok ((hits.filter fun hit => matchesFilters hit.2 options).take limit)
  vectors := .error vectorIndexNotFound
  catalogue := .present
    { newestFirst := [(sessionRow "new" "src", some "memex"), (sessionRow "old" "tmp", none)]
      maxKeys := 10
      displayProjectName := id }

def groupedHit (docId ts : Nat) (sessionId project : String) : Record :=
  { hitAt docId ts with sessionId, project }

/-- The third and the fourth are equally good, and the fifth is below the least score. -/
def recencyHits : List (Nat × Record) :=
  [(5, groupedHit 1 120 "new" "memex"), (4, groupedHit 2 110 "new" "memex"),
    (4, groupedHit 3 90 "old" "Unfiled"), (4, groupedHit 4 80 "old" "Unfiled"),
    (1, groupedHit 5 70 "old" "Unfiled")]

/-- Where the hits stand by their weight and their time under the projects of their repositories,
both searches give the same four. -/
theorem search_without_vectors_iff_recency :
    let spec : SearchSpec Nat :=
      { limit := 10, mode := .semantic, minScore := some 2, projectGrouping := some .repository }
    (recencyMachine recencyHits).searchLocal spec =
      (recencyMachine recencyHits).searchLocal { spec with mode := .lexical } := by
  intro spec
  refine (search_without_vectors_iff (Or.inl rfl) (by decide) ?_).mpr ?_
  · intro options limit hits hsearch
    rw [← Except.ok.inj hsearch, List.length_take]
    exact Nat.min_le_left _ _
  · intro options hits hoptions hsearch
    obtain rfl := Except.ok.inj hoptions
    obtain rfl := Except.ok.inj hsearch
    intro kept
    have hsorted : kept.Pairwise (fun left right =>
        byScore (weighedKey (recencyMachine recencyHits).ops left)
          (weighedKey (recencyMachine recencyHits).ops right)) := by
      decide +kernel
    have hproject : ∀ hit ∈ kept, displayedProject (recencyMachine recencyHits).catalogue
        (some .repository) (kept.map fun other => identity other.2) (identity hit.2) =
          some hit.2.project := by
      decide +kernel
    refine ⟨hsorted, fun hit hmem project hshown => ?_⟩
    exact Option.some.inj ((hproject hit hmem).symm.trans hshown)

/-- Of two hits with one score the lexical search shows the newer one first, and the search
without vectors the one that the index finds first. -/
theorem ties_stay_without_vectors :
    let machine := plainMachine [hitAt 1 1, hitAt 2 2]
    machine.NoVectors ∧
      machine.searchLocal { limit := 10, mode := .semantic } ≠
        machine.searchLocal { limit := 10, mode := .lexical } := by
  refine ⟨Or.inl rfl, fun heq => ?_⟩
  have hlists := congrArg Except.toOption heq
  revert hlists
  decide +kernel

end Memex.Machine
