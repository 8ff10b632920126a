import Memex.Lib.Reconciliation
import Memex.Memory.UnchangedFiles

/-! # Two refreshes in a row

Nothing changes between two refreshes. The second one has the same documents as the first, but for
the scopes of files that are not read again. -/

namespace Memex.Memory

open Reconciliation

variable {parsers : Parsers} {disk : Disk} {options : MemoryDiscoveryOptions}
variable {discovery : MemoryDiscovery} {candidate : MemoryCandidate} {document : MemoryDocument}

/-! ## The same file again -/

/-- What the next refresh makes of a document: one that is not read again gets its scope anew. -/
def keptAgain (disk : Disk) (ids : Path → Option String) (candidate : MemoryCandidate)
    (document : MemoryDocument) : MemoryDocument :=
  if unchangedOnDisk disk document candidate.sourcePath then
    keptDocument disk.host candidate (resolveRefs ids document)
  else resolveRefs ids document

/-- How a refresh comes to the document that it leaves: kept, read, or marked stale. -/
theorem left_cases {prior : Option MemoryDocument}
    (h : (refreshCandidate parsers disk candidate prior).document = some document) :
    (unchangedOnDisk disk document candidate.sourcePath = true ∧
        ∃ metadata, document.scope = resolveMemoryScope disk.host candidate metadata) ∨
      (∃ content metadata, disk.read candidate.sourcePath = .ok (content, metadata) ∧
        document.freshness = .fresh ∧ document.versionSha256 = contentVersion parsers content ∧
        rereadDocument disk.host candidate content metadata document = document) ∨
      ∃ error, disk.read candidate.sourcePath = .error error ∧
        document.freshness = .stale error := by
  unfold refreshCandidate at h
  split at h
  next former hkept =>
    cases h
    obtain ⟨-, hunchanged⟩ := Option.filter_eq_some_iff.mp hkept
    exact Or.inl ⟨hunchanged, _, rfl⟩
  next =>
    split at h
    next content metadata hread =>
      refine Or.inr (Or.inl ⟨content, metadata, hread, ?_⟩)
      split at h
      next former hversion =>
        cases h
        obtain ⟨-, hsame⟩ := Option.filter_eq_some_iff.mp hversion
        rw [Bool.and_eq_true, decide_eq_true_eq, decide_eq_true_eq] at hsame
        exact ⟨hsame.1, hsame.2, rfl⟩
      next =>
        cases h
        exact ⟨rfl, rfl, rfl⟩
    next error hread =>
      refine Or.inr (Or.inr ⟨error, hread, ?_⟩)
      cases prior with
      | none => cases h
      | some former =>
          cases h
          rfl

/-- A document that is there is never lost. -/
theorem document_ne_none (former : MemoryDocument) :
    (refreshCandidate parsers disk candidate (some former)).document ≠ none := by
  unfold refreshCandidate
  split
  · exact Option.some_ne_none _
  · split
    · split
      · exact Option.some_ne_none _
      · exact Option.some_ne_none _
    · exact Option.some_ne_none _

/-- What a refresh makes of what it left the last time. -/
theorem refreshCandidate_again (prior : Option MemoryDocument) (ids : Path → Option String) :
    (refreshCandidate parsers disk candidate
      ((refreshCandidate parsers disk candidate prior).document.map (resolveRefs ids))).document =
      (refreshCandidate parsers disk candidate prior).document.map
        (keptAgain disk ids candidate) := by
  cases hleft : (refreshCandidate parsers disk candidate prior).document with
  | none =>
      cases prior with
      | none => exact hleft
      | some former => exact absurd hleft (document_ne_none former)
  | some document =>
      rw [Option.map_some, Option.map_some, keptAgain]
      cases hunchanged : unchangedOnDisk disk document candidate.sourcePath with
      | true =>
          have hagain : unchangedOnDisk disk (resolveRefs ids document) candidate.sourcePath =
              true := hunchanged
          rw [refreshCandidate_unchanged hagain, if_pos rfl]
          rfl
      | false =>
          have hagain : (some (resolveRefs ids document)).filter
              (fun former => unchangedOnDisk disk former candidate.sourcePath) = none := by
            rw [Option.filter_some]
            exact if_neg (Bool.eq_false_iff.mp hunchanged)
          rw [refreshCandidate, hagain]
          obtain ⟨hkept, -⟩ | ⟨content, metadata, hread, hfresh, hversion, hsame⟩ |
            ⟨error, hread, hstale⟩ := left_cases hleft
          · rw [hunchanged] at hkept
            cases hkept
          · have hfilter : (some (resolveRefs ids document)).filter (fun former =>
                former.freshness = .fresh &&
                  former.versionSha256 = contentVersion parsers content) =
                some (resolveRefs ids document) := by
              rw [Option.filter_some]
              apply if_pos
              rw [Bool.and_eq_true, decide_eq_true_eq, decide_eq_true_eq]
              exact ⟨hfresh, hversion⟩
            simp only [hread, hfilter, Refreshed.document]
            exact congrArg (fun same => some (resolveRefs ids same)) hsame
          · simp only [hread, Refreshed.document, ← hstale]
            rfl

/-- The scope of a document that is not read again was resolved by the refresh before. -/
theorem scope_of_left {prior : Option MemoryDocument}
    (h : (refreshCandidate parsers disk candidate prior).document = some document)
    (hunchanged : unchangedOnDisk disk document candidate.sourcePath = true) :
    ∃ metadata, document.scope = resolveMemoryScope disk.host candidate metadata := by
  obtain ⟨-, hscope⟩ | ⟨content, metadata, -, -, -, hsame⟩ | ⟨error, -, hstale⟩ := left_cases h
  · exact hscope
  · exact ⟨parseSourceMetadata content, (congrArg MemoryDocument.scope hsame).symm⟩
  · rw [(unchangedOnDisk_iff.mp hunchanged).1] at hstale
    cases hstale

/-- A document that is not read again stays as it is if its scope does. -/
theorem keptDocument_eq_iff {prior : Option MemoryDocument} (ids other : Path → Option String)
    (h : (refreshCandidate parsers disk candidate prior).document = some document)
    (hunchanged : unchangedOnDisk disk document candidate.sourcePath = true) :
    resolveRefs other (keptDocument disk.host candidate (resolveRefs ids document)) =
        resolveRefs other document ↔
      (candidate.ownsScope = true → StoredScope disk.host document.scope) := by
  have hkept : resolveRefs other (keptDocument disk.host candidate (resolveRefs ids document)) =
      resolveRefs other { document with
        scope := resolveMemoryScope disk.host candidate { cwd := document.scope.cwd } } :=
    resolveRefs_resolveRefs other ids (keptDocument disk.host candidate document)
  rw [hkept]
  apply Iff.trans (@resolveRefs_scope_iff document other _ document.scope)
  cases hown : candidate.ownsScope with
  | true =>
      rw [resolveMemoryScope_self_iff hown]
      simp
  | false =>
      obtain ⟨metadata, hscope⟩ := scope_of_left h hunchanged
      rw [hscope]
      simp [resolveMemoryScope_of_not_owns hown _ metadata]

/-! ## All files -/

/-- What a refresh leaves of a file, as a rule for rows. -/
def outcomeOf (parsers : Parsers) (disk : Disk) (candidate : MemoryCandidate)
    (prior : Option MemoryDocument) : Option MemoryDocument :=
  (refreshCandidate parsers disk candidate prior).document

/-- What a refresh leaves of a document that was not found. -/
def retainedOf (disk : Disk) (options : MemoryDiscoveryOptions)
    (failures : List MemoryDiscoveryFailure) (document : MemoryDocument) :
    Option MemoryDocument :=
  (retainDocument disk.host options failures document).document

/-- With distinct ids the files do not get in each other's way. -/
theorem visit_eq {candidates : List MemoryCandidate}
    (hids : (candidates.map (MemoryCandidate.stableId parsers)).Nodup)
    (previous : List MemoryDocument) : visit parsers disk previous candidates =
      (candidates.map fun candidate => refreshCandidate parsers disk candidate
          (lookup MemoryDocument.stableId previous (candidate.stableId parsers)),
        unasked MemoryDocument.stableId (MemoryCandidate.stableId parsers) candidates
          previous) := by
  induction candidates generalizing previous with
  | nil => simp [visit, unasked]
  | cons candidate rest ih =>
      rw [List.map_cons, List.nodup_cons] at hids
      rw [visit, ih hids.2, List.map_cons]
      refine Prod.ext (congrArg₂ List.cons rfl ?_) ?_
      · apply List.map_congr_left
        intro other hother
        congr 1
        have hne : other.stableId parsers ≠ candidate.stableId parsers := by
          intro heq
          exact hids.1 (heq ▸ List.mem_map_of_mem hother)
        rw [lookup, List.find?_filter]
        congr 1
        funext document
        by_cases hsame : document.stableId = other.stableId parsers
        · simp [hsame, hne]
        · simp [hsame]
      · simp only [unasked, List.filter_filter, List.map_cons, List.mem_cons, not_or]
        apply List.filter_congr
        intro document _
        simp [Bool.and_comm]

theorem retained_stableId {failures : List MemoryDiscoveryFailure} {kept : MemoryDocument}
    (h : retainedOf disk options failures document = some kept) :
    kept.stableId = document.stableId ∧ kept.sourcePath = document.sourcePath := by
  unfold retainedOf retainDocument at h
  split at h
  · cases h
  · split at h
    · cases h
      exact ⟨rfl, rfl⟩
    · split at h
      · cases h
        exact ⟨rfl, rfl⟩
      · cases h

/-- What was retained is retained again, as it is. -/
theorem retained_again {failures : List MemoryDiscoveryFailure} {kept : MemoryDocument}
    (ids : Path → Option String) (h : retainedOf disk options failures document = some kept) :
    retainedOf disk options failures (resolveRefs ids kept) = some (resolveRefs ids kept) := by
  unfold retainedOf retainDocument at h
  split at h
  next => cases h
  next hexcluded =>
    split at h
    next hoff =>
      cases h
      have hkept : retainDocument disk.host options failures (resolveRefs ids document) =
          .kept (resolveRefs ids document) := (if_neg hexcluded).trans (if_pos hoff)
      rw [retainedOf, hkept]
      rfl
    next hon =>
      split at h
      next hcovered =>
        cases h
        have hstale : retainDocument disk.host options failures (resolveRefs ids { document with
              freshness := .stale (incompleteError failures document) }) =
            .stale (resolveRefs ids { document with
              freshness := .stale (incompleteError failures document) }) :=
          (if_neg hexcluded).trans ((if_neg hon).trans (if_pos hcovered))
        rw [retainedOf, hstale]
        rfl
      next => cases h

/-- A file that was found has the id of its document. -/
theorem stableId_of_left {prior : Option MemoryDocument}
    (hprior : ∀ former ∈ prior, former.stableId = candidate.stableId parsers)
    (h : outcomeOf parsers disk candidate prior = some document) :
    document.stableId = candidate.stableId parsers ∧
      (document.sourcePath = candidate.sourcePath ∨
        ∃ former ∈ prior, document.sourcePath = former.sourcePath) := by
  unfold outcomeOf refreshCandidate at h
  split at h
  next former hkept =>
    cases h
    have hmem : former ∈ prior := (Option.filter_eq_some_iff.mp hkept).1
    exact ⟨hprior former hmem, Or.inr ⟨former, hmem, rfl⟩⟩
  next =>
    split at h
    next =>
      split at h
      next former hversion =>
        cases h
        have hmem : former ∈ prior := (Option.filter_eq_some_iff.mp hversion).1
        exact ⟨hprior former hmem, Or.inr ⟨former, hmem, rfl⟩⟩
      next =>
        cases h
        exact ⟨rfl, Or.inl rfl⟩
    next =>
      cases prior with
      | none => cases h
      | some former =>
          cases h
          exact ⟨hprior former rfl, Or.inr ⟨former, rfl, rfl⟩⟩

theorem keepsKeys (parsers : Parsers) (disk : Disk) (options : MemoryDiscoveryOptions)
    (failures : List MemoryDiscoveryFailure) :
    KeepsKeys MemoryDocument.stableId (MemoryCandidate.stableId parsers)
      (outcomeOf parsers disk) (retainedOf disk options failures) where
  outcome hprior houtcome := (stableId_of_left hprior houtcome).1
  retain hretain := (retained_stableId hretain).1

/-! ## The map of the stored documents -/

theorem previousById_spec (documents : List MemoryDocument) :
    ((previousById documents).map MemoryDocument.stableId).Nodup ∧
      previousById documents ⊆ documents := by
  have hloop : ∀ kept : List MemoryDocument, (kept.map MemoryDocument.stableId).Nodup →
      ((documents.foldl (fun kept document =>
          kept.filter (fun other => other.stableId ≠ document.stableId) ++ [document]) kept).map
            MemoryDocument.stableId).Nodup ∧
        documents.foldl (fun kept document =>
          kept.filter (fun other => other.stableId ≠ document.stableId) ++ [document]) kept ⊆
            kept ++ documents := by
    induction documents with
    | nil =>
        intro kept hkept
        exact ⟨hkept, by simp⟩
    | cons document rest ih =>
        intro kept hkept
        rw [List.foldl_cons]
        obtain ⟨hnodup, hsub⟩ := ih
          (kept.filter (fun other => other.stableId ≠ document.stableId) ++ [document]) (by
            rw [List.map_append, List.map_singleton]
            apply List.Nodup.append ((List.filter_sublist.map _).nodup hkept)
              (List.nodup_singleton _)
            intro id hid hlast
            obtain rfl := List.mem_singleton.mp hlast
            obtain ⟨other, hother, hsame⟩ := List.mem_map.mp hid
            exact of_decide_eq_true (List.mem_filter.mp hother).2 hsame)
        refine ⟨hnodup, fun other hother => ?_⟩
        have hmem := hsub hother
        simp only [List.mem_append, List.mem_filter, List.mem_cons, List.not_mem_nil, or_false]
          at hmem ⊢
        rcases hmem with (⟨hkept, -⟩ | hsame) | hrest
        · exact Or.inl hkept
        · exact Or.inr (Or.inl hsame)
        · exact Or.inr (Or.inr hrest)
  obtain ⟨hnodup, hsub⟩ := hloop [] List.nodup_nil
  exact ⟨hnodup, hsub⟩

/-- Documents with distinct ids are all kept. -/
theorem previousById_of_nodup {documents : List MemoryDocument}
    (h : (documents.map MemoryDocument.stableId).Nodup) : previousById documents = documents := by
  have hloop : ∀ kept : List MemoryDocument,
      ((kept ++ documents).map MemoryDocument.stableId).Nodup →
        documents.foldl (fun kept document =>
          kept.filter (fun other => other.stableId ≠ document.stableId) ++ [document]) kept =
            kept ++ documents := by
    clear h
    induction documents with
    | nil => exact fun kept _ => (List.append_nil kept).symm
    | cons document rest ih =>
        intro kept hkept
        have hsame : kept.filter (fun other => other.stableId ≠ document.stableId) = kept := by
          apply List.filter_eq_self.mpr
          intro other hother
          rw [decide_eq_true_eq]
          intro heq
          rw [List.map_append, List.map_cons] at hkept
          have hdisjoint := List.disjoint_of_nodup_append hkept
          apply hdisjoint (List.mem_map_of_mem hother)
          rw [heq]
          exact List.mem_cons_self
        rw [List.foldl_cons, hsame, ih, List.append_assoc, List.singleton_append]
        rwa [List.append_assoc, List.singleton_append]
  exact hloop [] h

/-! ## The order of a snapshot -/

theorem componentRank_cases (name : String) :
    (name = "." ∧ componentRank name = toLex (1, "")) ∨
      (name = ".." ∧ componentRank name = toLex (2, "")) ∨
        componentRank name = toLex (3, name) := by
  by_cases hdot : name = "."
  · exact Or.inl ⟨hdot, by rw [componentRank, if_pos hdot]⟩
  · by_cases hup : name = ".."
    · exact Or.inr (Or.inl ⟨hup, by rw [componentRank, if_neg hdot, if_pos hup]⟩)
    · exact Or.inr (Or.inr (by rw [componentRank, if_neg hdot, if_neg hup]))

theorem componentRank_injective : Function.Injective componentRank := by
  intro left right h
  obtain ⟨rfl, hleft⟩ | ⟨rfl, hleft⟩ | hleft := componentRank_cases left
  · obtain ⟨rfl, -⟩ | ⟨-, hright⟩ | hright := componentRank_cases right
    · rfl
    · simp [hleft, hright] at h
    · simp [hleft, hright] at h
  · obtain ⟨-, hright⟩ | ⟨rfl, -⟩ | hright := componentRank_cases right
    · simp [hleft, hright] at h
    · rfl
    · simp [hleft, hright] at h
  · obtain ⟨-, hright⟩ | ⟨-, hright⟩ | hright := componentRank_cases right
    · simp [hleft, hright] at h
    · simp [hleft, hright] at h
    · simpa [hleft, hright] using h

/-- The root stands for no other component. -/
theorem componentRank_ne_root (name : String) : componentRank name ≠ toLex (0, "") := by
  obtain ⟨-, h⟩ | ⟨-, h⟩ | h := componentRank_cases name
  · simp [h]
  · simp [h]
  · simp [h]

theorem rank_injective : Function.Injective Path.rank := by
  rintro ⟨absolute, names⟩ ⟨absolute', names'⟩ h
  unfold Path.rank at h
  have hnever : ∀ list : List String,
      toLex ((0 : Nat), "") ∉ list.map componentRank := by
    intro list hmem
    obtain ⟨name, -, heq⟩ := List.mem_map.mp hmem
    exact componentRank_ne_root name heq
  cases absolute with
  | true =>
      cases absolute' with
      | true =>
          simp only [if_true, List.singleton_append, List.cons.injEq, true_and] at h
          rw [List.map_injective_iff.mpr componentRank_injective h]
      | false =>
          simp only [if_true, Bool.false_eq_true, if_false, List.nil_append,
            List.singleton_append] at h
          exact absurd (h ▸ List.mem_cons_self) (hnever names')
  | false =>
      cases absolute' with
      | true =>
          simp only [if_true, Bool.false_eq_true, if_false, List.nil_append,
            List.singleton_append] at h
          exact absurd (h ▸ List.mem_cons_self) (hnever names)
      | false =>
          simp only [Bool.false_eq_true, if_false, List.nil_append] at h
          rw [List.map_injective_iff.mpr componentRank_injective h]

theorem sortDocuments_perm (documents : List MemoryDocument) :
    (sortDocuments documents).Perm documents :=
  List.mergeSort_perm documents _

/-- Documents of different paths have one order. -/
theorem sortDocuments_congr {documents others : List MemoryDocument}
    (hpaths : (documents.map MemoryDocument.sourcePath).Nodup) (hperm : documents.Perm others) :
    sortDocuments documents = sortDocuments others := by
  have hsorted : ∀ list : List MemoryDocument, (sortDocuments list).Pairwise
      fun left right => decide (left.rank ≤ right.rank) = true := by
    intro list
    apply List.pairwise_mergeSort
    · intro first second third hfirst hsecond
      exact decide_eq_true ((of_decide_eq_true hfirst).trans (of_decide_eq_true hsecond))
    · intro first second
      rw [Bool.or_eq_true, decide_eq_true_eq, decide_eq_true_eq]
      exact le_total _ _
  apply List.Perm.eq_of_pairwise _ (hsorted documents) (hsorted others)
  · exact ((sortDocuments_perm documents).trans hperm).trans (sortDocuments_perm others).symm
  · intro left right hleft hright hle hge
    have hrank := le_antisymm (of_decide_eq_true hle) (of_decide_eq_true hge)
    have hpath : left.sourcePath = right.sourcePath :=
      rank_injective (Prod.mk.inj (toLex_inj.mp hrank)).2
    apply List.inj_on_of_nodup_map hpaths _ _ hpath
    · exact (sortDocuments_perm documents).mem_iff.mp hleft
    · exact hperm.mem_iff.mpr ((sortDocuments_perm others).mem_iff.mp hright)

/-! ## References -/

theorem idByPath_eq_some_iff {documents : List MemoryDocument} {path : Path} {id : String}
    (hone : ∀ left ∈ documents, ∀ right ∈ documents, left.sourcePath = right.sourcePath →
      left.stableId = right.stableId) :
    idByPath documents path = some id ↔
      ∃ document ∈ documents, document.sourcePath = path ∧ document.stableId = id := by
  rw [idByPath, Option.map_eq_some_iff]
  constructor
  · rintro ⟨document, hfound, hid⟩
    have hpath := List.find?_some hfound
    refine ⟨document, List.mem_reverse.mp (List.mem_of_find?_eq_some hfound), ?_, hid⟩
    exact of_decide_eq_true hpath
  · rintro ⟨document, hmem, hpath, hid⟩
    cases hfound : documents.reverse.find? fun document => document.sourcePath = path with
    | none =>
        have hnone := List.find?_eq_none.mp hfound document (List.mem_reverse.mpr hmem)
        exact absurd (decide_eq_true hpath) hnone
    | some other =>
        have hother := List.find?_some hfound
        have hsame := hone other (List.mem_reverse.mp (List.mem_of_find?_eq_some hfound)) document
          hmem ((of_decide_eq_true hother).trans hpath.symm)
        exact ⟨other, rfl, hsame.trans hid⟩

/-- The order of the documents is of no account where a path has one document. -/
theorem idByPath_congr {documents others : List MemoryDocument}
    (hone : ∀ left ∈ documents, ∀ right ∈ documents, left.sourcePath = right.sourcePath →
      left.stableId = right.stableId) (hperm : documents.Perm others) :
    idByPath documents = idByPath others := by
  funext path
  apply Option.ext
  intro id
  have hother : ∀ left ∈ others, ∀ right ∈ others, left.sourcePath = right.sourcePath →
      left.stableId = right.stableId := by
    intro left hleft right hright
    exact hone left (hperm.mem_iff.mpr hleft) right (hperm.mem_iff.mpr hright)
  rw [idByPath_eq_some_iff hone, idByPath_eq_some_iff hother]
  simp only [hperm.mem_iff]

theorem idByPath_map {move : MemoryDocument → MemoryDocument}
    (hid : ∀ document, (move document).stableId = document.stableId)
    (hpath : ∀ document, (move document).sourcePath = document.sourcePath)
    (documents : List MemoryDocument) :
    idByPath (documents.map move) = idByPath documents := by
  funext path
  rw [idByPath, idByPath, ← List.map_reverse, List.find?_map, Option.map_map]
  simp only [Function.comp_def, hid, hpath]

/-! ## The second refresh -/

/-- The paths of the files and of the documents, with their ids. -/
def entries (parsers : Parsers) (candidates : List MemoryCandidate)
    (documents : List MemoryDocument) : List (Path × String) :=
  candidates.map (fun candidate => (candidate.sourcePath, candidate.stableId parsers)) ++
    documents.map fun document => (document.sourcePath, document.stableId)

/-- Files have different ids, and a path has one id: its file is a memory of one provider. -/
structure Separate (parsers : Parsers) (candidates : List MemoryCandidate)
    (documents : List MemoryDocument) : Prop where
  ids : (candidates.map (MemoryCandidate.stableId parsers)).Nodup
  paths : ∀ left ∈ entries parsers candidates documents,
    ∀ right ∈ entries parsers candidates documents, left.1 = right.1 → left.2 = right.2

/-- The documents of a refresh, before their references are resolved. -/
def documentsOf (parsers : Parsers) (order : MapOrder) (options : MemoryDiscoveryOptions)
    (discovery : MemoryDiscovery) (disk : Disk) (previous : List MemoryDocument) :
    List MemoryDocument :=
  refreshedDocuments (refreshAll parsers order options discovery disk previous)

/-- The snapshot of a refresh. -/
def snapshotOf (parsers : Parsers) (order : MapOrder) (options : MemoryDiscoveryOptions)
    (discovery : MemoryDiscovery) (disk : Disk) (previous : List MemoryDocument) :
    List MemoryDocument :=
  sortDocuments (resolveMemoryRefs (documentsOf parsers order options discovery disk previous))

/-- What is left of the files. -/
def foundOf (parsers : Parsers) (discovery : MemoryDiscovery) (disk : Disk)
    (previous : List MemoryDocument) : List MemoryDocument :=
  found MemoryDocument.stableId (MemoryCandidate.stableId parsers) (outcomeOf parsers disk)
    discovery.candidates (previousById previous)

/-- The documents that were not found. -/
def missing (parsers : Parsers) (discovery : MemoryDiscovery) (previous : List MemoryDocument) :
    List MemoryDocument :=
  unasked MemoryDocument.stableId (MemoryCandidate.stableId parsers) discovery.candidates
    (previousById previous)

section Twice

variable {order : MapOrder} {previous : List MemoryDocument}
variable (hseparate : Separate parsers discovery.candidates previous)

include hseparate

theorem documentsOf_eq : documentsOf parsers order options discovery disk previous =
    foundOf parsers discovery disk previous ++
      (order.walk (missing parsers discovery previous)).filterMap
        (retainedOf disk options discovery.failures) := by
  simp only [documentsOf, refreshedDocuments, refreshAll, visit_eq hseparate.ids,
    List.filterMap_map]
  rfl

theorem documentsOf_ids_nodup :
    ((documentsOf parsers order options discovery disk previous).map
      MemoryDocument.stableId).Nodup := by
  rw [documentsOf_eq hseparate]
  apply nodup_result (keepsKeys parsers disk options discovery.failures) hseparate.ids
    (previousById_spec previous).1
  exact order.perm _

/-- Documents keep to the paths and ids that were there. -/
theorem mem_entries_of_documentsOf
    (hmem : document ∈ documentsOf parsers order options discovery disk previous) :
    (document.sourcePath, document.stableId) ∈
      entries parsers discovery.candidates previous := by
  have hstored : ∀ former ∈ previousById previous, (former.sourcePath, former.stableId) ∈
      entries parsers discovery.candidates previous := by
    intro former hformer
    apply List.mem_append_right
    exact List.mem_map.mpr ⟨former, (previousById_spec previous).2 hformer, rfl⟩
  rw [documentsOf_eq hseparate] at hmem
  rcases List.mem_append.mp hmem with hleft | hkept
  · obtain ⟨candidate, hcandidate, houtcome⟩ := List.mem_filterMap.mp hleft
    have hprior : ∀ former ∈ lookup MemoryDocument.stableId (previousById previous)
        (candidate.stableId parsers), former.stableId = candidate.stableId parsers :=
      fun former hformer => (mem_of_lookup hformer).2
    obtain ⟨hid, hpath | ⟨former, hformer, hpath⟩⟩ := stableId_of_left hprior houtcome
    · rw [hid, hpath]
      exact List.mem_append_left _ (List.mem_map.mpr ⟨candidate, hcandidate, rfl⟩)
    · rw [hid, hpath, ← hprior former hformer]
      exact hstored former (mem_of_lookup hformer).1
  · obtain ⟨former, hformer, hretain⟩ := List.mem_filterMap.mp hkept
    have hunasked := List.mem_filter.mp ((order.perm _).mem_iff.mp hformer)
    obtain ⟨hid, hpath⟩ := retained_stableId hretain
    rw [hid, hpath]
    exact hstored former hunasked.1

theorem documentsOf_one_id {other : MemoryDocument}
    (hdocument : document ∈ documentsOf parsers order options discovery disk previous)
    (hother : other ∈ documentsOf parsers order options discovery disk previous)
    (hpath : document.sourcePath = other.sourcePath) : document.stableId = other.stableId :=
  hseparate.paths _ (mem_entries_of_documentsOf hseparate hdocument) _
    (mem_entries_of_documentsOf hseparate hother) hpath

theorem documentsOf_paths_nodup :
    ((documentsOf parsers order options discovery disk previous).map
      MemoryDocument.sourcePath).Nodup := by
  have hids : ((documentsOf parsers order options discovery disk previous).map
      MemoryDocument.stableId).Nodup := documentsOf_ids_nodup hseparate
  apply List.Nodup.map_on _ hids.of_map
  intro document hdocument other hother hpath
  apply List.inj_on_of_nodup_map hids hdocument hother
  exact documentsOf_one_id hseparate hdocument hother hpath

omit hseparate in
theorem snapshotOf_perm : (snapshotOf parsers order options discovery disk previous).Perm
    ((documentsOf parsers order options discovery disk previous).map
      (resolveRefs (idByPath (documentsOf parsers order options discovery disk previous)))) :=
  sortDocuments_perm _

theorem snapshotOf_ids_nodup :
    ((snapshotOf parsers order options discovery disk previous).map
      MemoryDocument.stableId).Nodup := by
  rw [(snapshotOf_perm.map MemoryDocument.stableId).nodup_iff, List.map_map]
  exact documentsOf_ids_nodup hseparate

/-- Under the id of a file the snapshot has what the refresh left of it. -/
theorem lookup_snapshotOf (hcandidate : candidate ∈ discovery.candidates) :
    lookup MemoryDocument.stableId (snapshotOf parsers order options discovery disk previous)
        (candidate.stableId parsers) =
      (outcomeOf parsers disk candidate (lookup MemoryDocument.stableId (previousById previous)
        (candidate.stableId parsers))).map
          (resolveRefs (idByPath (documentsOf parsers order options discovery disk previous))) := by
  rw [lookup_perm (snapshotOf_ids_nodup hseparate) snapshotOf_perm,
    @lookup_map _ _ _ _ (resolveRefs _) fun _ => rfl]
  congr 1
  rw [documentsOf_eq hseparate]
  exact lookup_result (keepsKeys parsers disk options discovery.failures) hseparate.ids
    (previousById_spec previous).1 (order.perm _) hcandidate

/-- What the second refresh makes of the files. -/
theorem foundOf_snapshotOf :
    foundOf parsers discovery disk (snapshotOf parsers order options discovery disk previous) =
      discovery.candidates.filterMap fun candidate =>
        (outcomeOf parsers disk candidate (lookup MemoryDocument.stableId (previousById previous)
          (candidate.stableId parsers))).map
            (keptAgain disk (idByPath (documentsOf parsers order options discovery disk previous))
              candidate) := by
  rw [foundOf, found, previousById_of_nodup (snapshotOf_ids_nodup hseparate)]
  apply List.filterMap_congr
  intro candidate hcandidate
  rw [lookup_snapshotOf hseparate hcandidate]
  exact refreshCandidate_again _ _

/-- The second refresh misses what the first one retained. -/
theorem missing_snapshotOf :
    (missing parsers discovery
      (snapshotOf parsers order options discovery disk previous)).Perm
      (((order.walk (missing parsers discovery previous)).filterMap
        (retainedOf disk options discovery.failures)).map
          (resolveRefs (idByPath (documentsOf parsers order options discovery disk
            previous)))) := by
  rw [missing, previousById_of_nodup (snapshotOf_ids_nodup hseparate)]
  apply (snapshotOf_perm.filter _).trans
  apply List.Perm.of_eq
  have hmoved := @unasked_map _ _ _ _ MemoryDocument.stableId (MemoryCandidate.stableId parsers)
    discovery.candidates
    (resolveRefs (idByPath (documentsOf parsers order options discovery disk previous)))
    (fun _ => rfl) (documentsOf parsers order options discovery disk previous)
  have hrest := unasked_result (keepsKeys parsers disk options discovery.failures)
    (order.perm (missing parsers discovery previous))
  refine hmoved.trans (congrArg (List.map _) ?_)
  rw [documentsOf_eq hseparate]
  exact hrest

/-- The second refresh retains what the first one did. -/
theorem retained_snapshotOf (second : MapOrder) :
    ((second.walk (missing parsers discovery
        (snapshotOf parsers order options discovery disk previous))).filterMap
          (retainedOf disk options discovery.failures)).Perm
      (((order.walk (missing parsers discovery previous)).filterMap
        (retainedOf disk options discovery.failures)).map
          (resolveRefs (idByPath (documentsOf parsers order options discovery disk
            previous)))) := by
  have hwalked := (second.perm _).trans
    (@missing_snapshotOf parsers disk options discovery order previous hseparate)
  apply (hwalked.filterMap _).trans
  apply List.Perm.of_eq
  rw [List.filterMap_map, List.map_filterMap, List.filterMap_filterMap]
  apply List.filterMap_congr
  intro former _
  cases hretain : retainedOf disk options discovery.failures former with
  | none => rfl
  | some kept => exact retained_again _ hretain

theorem separate_snapshotOf : Separate parsers discovery.candidates
    (snapshotOf parsers order options discovery disk previous) := by
  have hentries : entries parsers discovery.candidates
      (snapshotOf parsers order options discovery disk previous) ⊆
        entries parsers discovery.candidates previous := by
    intro entry hentry
    rcases List.mem_append.mp hentry with hcandidate | hdocument
    · exact List.mem_append_left _ hcandidate
    · obtain ⟨document, hmem, rfl⟩ := List.mem_map.mp hdocument
      obtain ⟨former, hformer, rfl⟩ := List.mem_map.mp (snapshotOf_perm.mem_iff.mp hmem)
      have hentry := mem_entries_of_documentsOf hseparate hformer
      exact hentry
  constructor
  · exact hseparate.ids
  · intro first hfirst second hsecond
    exact hseparate.paths first (hentries hfirst) second (hentries hsecond)

/-- A document of the snapshot is what is left of the file of its id. -/
theorem exists_left (hcandidate : candidate ∈ discovery.candidates)
    (hmem : document ∈ snapshotOf parsers order options discovery disk previous)
    (hid : document.stableId = candidate.stableId parsers) :
    ∃ former, outcomeOf parsers disk candidate (lookup MemoryDocument.stableId
        (previousById previous) (candidate.stableId parsers)) = some former ∧
      resolveRefs (idByPath (documentsOf parsers order options discovery disk previous)) former =
        document := by
  have hlookup := lookup_of_mem (snapshotOf_ids_nodup hseparate) hmem
  rw [hid, lookup_snapshotOf hseparate hcandidate] at hlookup
  exact Option.map_eq_some_iff.mp hlookup

/-- If the scopes stay as they are, the second refresh leaves the same of every file. -/
theorem foundOf_again
    (hscopes : ∀ candidate ∈ discovery.candidates,
      ∀ document ∈ snapshotOf parsers order options discovery disk previous,
        document.stableId = candidate.stableId parsers →
          unchangedOnDisk disk document candidate.sourcePath = true →
            candidate.ownsScope = true → StoredScope disk.host document.scope) :
    foundOf parsers discovery disk (snapshotOf parsers order options discovery disk previous) =
      (foundOf parsers discovery disk previous).map
        (resolveRefs (idByPath (documentsOf parsers order options discovery disk previous))) := by
  rw [foundOf_snapshotOf hseparate, foundOf, found, List.map_filterMap]
  apply List.filterMap_congr
  intro candidate hcandidate
  have hlookup := @lookup_snapshotOf parsers disk options discovery candidate order previous
    hseparate hcandidate
  set ids := idByPath (documentsOf parsers order options discovery disk previous)
  cases houtcome : outcomeOf parsers disk candidate (lookup MemoryDocument.stableId
      (previousById previous) (candidate.stableId parsers)) with
  | none => rfl
  | some document =>
      rw [houtcome, Option.map_some] at hlookup
      obtain ⟨hmem, hid⟩ := mem_of_lookup hlookup
      rw [Option.map_some, Option.map_some, keptAgain]
      split
      next hunchanged =>
        have hstored := hscopes candidate hcandidate _ hmem hid hunchanged
        have hscope := (keptDocument_eq_iff ids ids houtcome hunchanged).mpr hstored
        have hresolved := resolveRefs_resolveRefs ids ids
          (keptDocument disk.host candidate document)
        exact congrArg some (hresolved.symm.trans hscope)
      next => rfl

/-- The second refresh has the documents of the first one if and only if the scopes of the files
that are not read again are those that their own directories give. -/
theorem snapshotOf_again_iff (second : MapOrder) :
    snapshotOf parsers second options discovery disk
        (snapshotOf parsers order options discovery disk previous) =
      snapshotOf parsers order options discovery disk previous ↔
    ∀ candidate ∈ discovery.candidates,
      ∀ document ∈ snapshotOf parsers order options discovery disk previous,
        document.stableId = candidate.stableId parsers →
          unchangedOnDisk disk document candidate.sourcePath = true →
            candidate.ownsScope = true → StoredScope disk.host document.scope := by
  have hagain : Separate parsers discovery.candidates
      (snapshotOf parsers order options discovery disk previous) := separate_snapshotOf hseparate
  constructor
  · intro hsame candidate hcandidate document hmem hid hunchanged
    obtain ⟨former, houtcome, rfl⟩ := exists_left hseparate hcandidate hmem hid
    have hfound : keptDocument disk.host candidate (resolveRefs (idByPath (documentsOf parsers order
        options discovery disk previous)) former) ∈ foundOf parsers discovery disk
          (snapshotOf parsers order options discovery disk previous) := by
      rw [foundOf_snapshotOf hseparate]
      refine List.mem_filterMap.mpr ⟨candidate, hcandidate, ?_⟩
      rw [houtcome, Option.map_some, keptAgain]
      exact congrArg some (if_pos hunchanged)
    have hdocuments := (documentsOf_eq hagain).symm ▸ List.mem_append_left
      ((second.walk (missing parsers discovery _)).filterMap
        (retainedOf disk options discovery.failures)) hfound
    have hsnapshot := snapshotOf_perm.mem_iff.mpr (List.mem_map_of_mem hdocuments)
    rw [hsame] at hsnapshot
    have heq := List.inj_on_of_nodup_map (snapshotOf_ids_nodup hseparate) hsnapshot hmem rfl
    apply (keptDocument_eq_iff _ _ houtcome hunchanged).mp
    have hresolved := congrArg (resolveRefs (idByPath (documentsOf parsers second options discovery
      disk (snapshotOf parsers order options discovery disk previous)))) heq
    rwa [resolveRefs_resolveRefs, resolveRefs_resolveRefs] at hresolved
  · intro hscopes
    have hperm : (documentsOf parsers second options discovery disk
        (snapshotOf parsers order options discovery disk previous)).Perm
          ((documentsOf parsers order options discovery disk previous).map
            (resolveRefs (idByPath (documentsOf parsers order options discovery disk
              previous)))) := by
      rw [documentsOf_eq hagain, foundOf_again hseparate hscopes]
      refine ((List.Perm.refl _).append (retained_snapshotOf hseparate second)).trans ?_
      rw [← List.map_append, ← documentsOf_eq hseparate]
    have hids : idByPath (documentsOf parsers second options discovery disk
        (snapshotOf parsers order options discovery disk previous)) =
          idByPath (documentsOf parsers order options discovery disk previous) := by
      rw [idByPath_congr (fun _ hleft _ hright => documentsOf_one_id hagain hleft hright) hperm]
      exact @idByPath_map (resolveRefs _) (fun _ => rfl) (fun _ => rfl) _
    have hresolved := hperm.map
      (resolveRefs (idByPath (documentsOf parsers order options discovery disk previous)))
    rw [List.map_map] at hresolved
    rw [snapshotOf, resolveMemoryRefs, hids]
    apply (sortDocuments_congr _ hresolved).trans
    · apply congrArg sortDocuments
      apply List.map_congr_left
      intro document _
      exact resolveRefs_resolveRefs _ _ document
    · rw [List.map_map]
      exact documentsOf_paths_nodup hagain

end Twice

/-- A file that is not read again gives the document that reading it gives if and only if the stored
directory and the one of the header give one scope. Two refreshes in a row report no change if and
only if the stored scopes of such files are those that their own directories give. -/
theorem unchanged_on_disk_as_read (parsers : Parsers) (disk : Disk) :
    (∀ candidate content metadata document,
      disk.Holds candidate.sourcePath content metadata →
      StoredFrom parsers candidate content document →
      unchangedOnDisk disk document candidate.sourcePath = true →
      ∀ ids, ((refreshCandidate parsers disk candidate (some document)).document.map
          (resolveRefs ids) =
        (refreshCandidate parsers disk candidate none).document.map (resolveRefs ids) ↔
          (candidate.ownsScope = true →
            SameScope disk.host document.scope.cwd (parseSourceMetadata content).cwd))) ∧
    ∀ first second options discovery previous,
      Separate parsers discovery.candidates (previous.getD []) →
      ((prepareRefresh parsers second options discovery disk
          (some (prepareRefresh parsers first options discovery disk previous).snapshot)).changed =
            false ↔
        ∀ candidate ∈ discovery.candidates,
          ∀ document ∈ (prepareRefresh parsers first options discovery disk previous).snapshot,
            document.stableId = candidate.stableId parsers →
              unchangedOnDisk disk document candidate.sourcePath = true →
                candidate.ownsScope = true → StoredScope disk.host document.scope) := by
  constructor
  · intro candidate content metadata document hholds hstored hunchanged ids
    exact kept_eq_read_iff hholds hstored hunchanged ids
  · intro first second options discovery previous hseparate
    have hchanged : (prepareRefresh parsers second options discovery disk
        (some (prepareRefresh parsers first options discovery disk previous).snapshot)).changed =
          decide (snapshotOf parsers second options discovery disk
            (snapshotOf parsers first options discovery disk (previous.getD [])) ≠
              snapshotOf parsers first options discovery disk (previous.getD [])) := rfl
    rw [hchanged, decide_eq_false_iff_not, not_not]
    exact snapshotOf_again_iff hseparate second

/-! A summary whose header names a symbolic link to a directory outside any repository. -/

private def linkPath : Path := ⟨true, ["memories", "rollout_summaries", "run.md"]⟩

private def linkContent : String := "cwd: /link\n"

private theorem link_no_refs {reference : MemoryRef} (h : reference ∈ []) :
    reference.memoryId = none :=
  absurd h List.not_mem_nil

private def linkParsers : Parsers where
  tables := asciiTables
  sha256Hex bytes := String.ofList (bytes.map fun byte => Char.ofNat byte.toNat)
  explicitDates _ := []
  refs _ _ := []
  refs_unresolved _ _ _ := link_no_refs

private def linkMetadata : Metadata where
  size := 11
  modifiedMillis := 1
  changedNanos := some 1

private def linkDisk : Disk where
  host :=
    { canonicalize := fun path =>
        if path = ⟨true, ["link"]⟩ then some ⟨true, ["real"]⟩ else some path
      repositories := fun _ => none }
  stat path := if path = linkPath then some ⟨true, linkMetadata⟩ else none
  read path := if path = linkPath then .ok (linkContent, linkMetadata) else .error "not found"

private def linkCandidate : MemoryCandidate where
  provider := .codex
  sourcePath := linkPath
  scope := {}
  kind := .summary

private def linkDocument : MemoryDocument :=
  parseMemoryContent linkParsers linkDisk.host linkCandidate linkContent linkMetadata

private theorem link_holds : linkDisk.Holds linkCandidate.sourcePath linkContent linkMetadata :=
  ⟨rfl, rfl⟩

private theorem link_stored : StoredFrom linkParsers linkCandidate linkContent linkDocument :=
  ⟨linkDisk.host, linkMetadata, rfl⟩

private def insertionOrder : MapOrder where
  walk documents := documents
  perm documents := List.Perm.refl documents

private def linkOptions : MemoryDiscoveryOptions where
  claudeProjectRoots := []
  codexHomes := [⟨true, []⟩]
  enabledSources := [.codex]
  isExcluded _ := false

theorem unchanged_on_disk_as_read_of_link :
    ((refreshCandidate linkParsers linkDisk linkCandidate (some linkDocument)).document.map
        (resolveRefs fun _ => none) =
      (refreshCandidate linkParsers linkDisk linkCandidate none).document.map
        (resolveRefs fun _ => none) ↔
      (linkCandidate.ownsScope = true →
        SameScope linkDisk.host linkDocument.scope.cwd (parseSourceMetadata linkContent).cwd)) ∧
    ((prepareRefresh linkParsers insertionOrder linkOptions ⟨[linkCandidate], []⟩ linkDisk
        (some (prepareRefresh linkParsers insertionOrder linkOptions ⟨[linkCandidate], []⟩ linkDisk
          none).snapshot)).changed = false ↔
      ∀ candidate ∈ [linkCandidate],
        ∀ document ∈ (prepareRefresh linkParsers insertionOrder linkOptions
            ⟨[linkCandidate], []⟩ linkDisk none).snapshot,
          document.stableId = candidate.stableId linkParsers →
            unchangedOnDisk linkDisk document candidate.sourcePath = true →
              candidate.ownsScope = true → StoredScope linkDisk.host document.scope) := by
  constructor
  · exact (unchanged_on_disk_as_read linkParsers linkDisk).1 linkCandidate linkContent linkMetadata
      linkDocument link_holds link_stored rfl fun _ => none
  · refine (unchanged_on_disk_as_read linkParsers linkDisk).2 insertionOrder insertionOrder
      linkOptions ⟨[linkCandidate], []⟩ none ⟨List.nodup_singleton _, ?_⟩
    intro first hfirst second hsecond _
    rw [List.mem_singleton.mp hfirst, List.mem_singleton.mp hsecond]

/-- The project is the last component of the link when the file is read, and that of its target
when it is not. -/
theorem unchanged_on_disk_forgets_link :
    ¬ ∀ (parsers : Parsers) (disk : Disk) (candidate : MemoryCandidate) (content : String)
      (metadata : Metadata) (document : MemoryDocument),
      disk.Holds candidate.sourcePath content metadata →
      StoredFrom parsers candidate content document →
      unchangedOnDisk disk document candidate.sourcePath = true →
      ∀ ids, (refreshCandidate parsers disk candidate (some document)).document.map
          (resolveRefs ids) =
        (refreshCandidate parsers disk candidate none).document.map (resolveRefs ids) := by
  intro h
  have hsame := h linkParsers linkDisk linkCandidate linkContent linkMetadata linkDocument
    link_holds link_stored rfl fun _ => none
  have hproject := congrArg (Option.map fun document => document.scope.project) hsame
  revert hproject
  decide +kernel

end Memex.Memory
