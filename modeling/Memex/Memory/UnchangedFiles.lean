import Memex.Memory.Refresh
import Memex.Memory.SectionRanges

/-! # Files that did not change

A file with the recorded size and times is not read again: the scope of its document is resolved
from the stored directory, where a reading resolves it from the header of the file. -/

namespace Memex.Memory

variable {parsers : Parsers} {disk : Disk} {host : Host} {candidate : MemoryCandidate}
variable {document : MemoryDocument}

/-! ## Scopes -/

/-- Two directories, in the form in which they were written, that give one scope. -/
def SameScope (host : Host) (stored header : Option Path) : Prop :=
  match stored, header with
  | none, none => True
  | some stored, some header =>
      let directory := Path.canonicalizeWithMissing host.canonicalize header
      Path.canonicalizeWithMissing host.canonicalize stored = directory ∧
        ((host.repositories directory).isSome = true ∨ stored.fileName = header.fileName)
  | _, _ => False

/-- The stored directory is canonical, and the project is the one of the repository there or the
last component. -/
def StoredScope (host : Host) (scope : MemoryScope) : Prop :=
  match scope.cwd with
  | none => scope.project = none
  | some cwd => Path.canonicalizeWithMissing host.canonicalize cwd = cwd ∧
      scope.project = (host.repositories cwd).or cwd.fileName

/-- The header plays no part in the scope of other documents than summaries. -/
theorem resolveMemoryScope_of_not_owns (hown : candidate.ownsScope = false)
    (left right : ParsedSourceMetadata) :
    resolveMemoryScope host candidate left = resolveMemoryScope host candidate right := by
  simp only [resolveMemoryScope, hown, Bool.false_eq_true, if_false]

theorem resolveMemoryScope_of_owns (hown : candidate.ownsScope = true)
    (metadata : ParsedSourceMetadata) : resolveMemoryScope host candidate metadata =
      match metadata.cwd with
      | none => {}
      | some cwd =>
          let directory := Path.canonicalizeWithMissing host.canonicalize cwd
          { cwd := some directory, project := (host.repositories directory).or cwd.fileName } := by
  simp only [resolveMemoryScope, hown, if_true]
  cases metadata.cwd with
  | none => rfl
  | some cwd => rfl

/-- When two headers give one scope. -/
theorem resolveMemoryScope_eq_iff {left right : ParsedSourceMetadata} :
    resolveMemoryScope host candidate left = resolveMemoryScope host candidate right ↔
      (candidate.ownsScope = true → SameScope host left.cwd right.cwd) := by
  cases hown : candidate.ownsScope with
  | false =>
      constructor
      · intro _ hfalse
        cases hfalse
      · intro _
        exact resolveMemoryScope_of_not_owns hown left right
  | true =>
      rw [resolveMemoryScope_of_owns hown, resolveMemoryScope_of_owns hown]
      cases left.cwd with
      | none =>
          cases right.cwd with
          | none => simp [SameScope]
          | some header => simp [SameScope]
      | some stored =>
          cases right.cwd with
          | none => simp [SameScope]
          | some header =>
              simp only [MemoryScope.mk.injEq, Option.some.injEq, SameScope, forall_const]
              rw [and_comm]
              apply and_congr_right
              intro hdirectory
              rw [hdirectory]
              cases host.repositories (Path.canonicalizeWithMissing host.canonicalize header) with
              | none => simp
              | some project => simp

/-- When a scope is the one that its own directory gives. -/
theorem resolveMemoryScope_self_iff (hown : candidate.ownsScope = true) {scope : MemoryScope} :
    resolveMemoryScope host candidate { cwd := scope.cwd } = scope ↔ StoredScope host scope := by
  rw [resolveMemoryScope_of_owns hown, StoredScope]
  obtain ⟨project, cwd⟩ := scope
  cases cwd with
  | none => simp [eq_comm]
  | some cwd =>
      simp only [MemoryScope.mk.injEq, Option.some.injEq]
      rw [and_comm]
      apply and_congr_right
      intro hdirectory
      rw [hdirectory]
      exact eq_comm

/-! ## One file -/

/-- The file is a regular one that can be read while the refresh runs. -/
structure Disk.Holds (disk : Disk) (path : Path) (content : String) (metadata : Metadata) :
    Prop where
  read : disk.read path = .ok (content, metadata)
  stat : disk.stat path = some ⟨true, metadata⟩

/-- References are resolved again by every refresh. -/
def MemoryDocument.unresolved (document : MemoryDocument) : MemoryDocument :=
  { document with refs := document.refs.map fun reference => { reference with memoryId := none } }

/-- The document was read of the content, maybe by an older resolver of scopes. -/
def StoredFrom (parsers : Parsers) (candidate : MemoryCandidate) (content : String)
    (document : MemoryDocument) : Prop :=
  ∃ host metadata, document.unresolved =
    { parseMemoryContent parsers host candidate content metadata with
      scope := document.scope, freshness := document.freshness }

theorem resolveRefs_unresolved (ids : Path → Option String) (document : MemoryDocument) :
    resolveRefs ids document.unresolved = resolveRefs ids document := by
  simp only [resolveRefs, MemoryDocument.unresolved, List.map_map]
  rfl

theorem resolveRefs_resolveRefs (ids other : Path → Option String) (document : MemoryDocument) :
    resolveRefs ids (resolveRefs other document) = resolveRefs ids document := by
  simp only [resolveRefs, List.map_map]
  rfl

/-- References and scopes have nothing to do with each other. -/
theorem resolveRefs_scope_iff {ids : Path → Option String} {left right : MemoryScope} :
    resolveRefs ids { document with scope := left } =
      resolveRefs ids { document with scope := right } ↔ left = right := by
  constructor
  · exact congrArg MemoryDocument.scope
  · rintro rfl
    rfl

theorem unchangedOnDisk_iff {path : Path} : unchangedOnDisk disk document path = true ↔
    document.freshness = .fresh ∧ document.size ≠ 0 ∧ document.changedNs.isSome = true ∧
      ∃ stat, disk.stat path = some stat ∧ stat.isFile = true ∧
        stat.metadata.size = document.size ∧
        stat.metadata.modifiedMillis = document.mtimeMs ∧
        stat.metadata.changedNanos = document.changedNs := by
  simp only [unchangedOnDisk, Bool.and_eq_true, decide_eq_true_eq, Option.any_eq_true, and_assoc]

/-- A file with the recorded size and times is kept as it is stored. -/
theorem refreshCandidate_unchanged
    (h : unchangedOnDisk disk document candidate.sourcePath = true) :
    refreshCandidate parsers disk candidate (some document) =
      .unchanged (keptDocument disk.host candidate document) := by
  rw [refreshCandidate, Option.filter_some, if_pos h]

/-- What is kept of a document that was read of the same content. -/
theorem keptDocument_unresolved {content : String} {metadata : Metadata}
    (hholds : disk.Holds candidate.sourcePath content metadata)
    (hstored : StoredFrom parsers candidate content document)
    (hunchanged : unchangedOnDisk disk document candidate.sourcePath = true) :
    (keptDocument disk.host candidate document).unresolved =
      { parseMemoryContent parsers disk.host candidate content metadata with
        scope := resolveMemoryScope disk.host candidate { cwd := document.scope.cwd } } := by
  obtain ⟨hfresh, -, -, stat, hstat, -, hsize, hmtime, hchanged⟩ :=
    unchangedOnDisk_iff.mp hunchanged
  rw [hholds.stat] at hstat
  obtain rfl := Option.some.inj hstat
  obtain ⟨host, earlier, hparsed⟩ := hstored
  have hsizes := congrArg MemoryDocument.size hparsed
  have htimes := congrArg MemoryDocument.mtimeMs hparsed
  have hchanges := congrArg MemoryDocument.changedNs hparsed
  have hmetadata : earlier = metadata := by
    obtain ⟨size, modified, changed⟩ := earlier
    obtain ⟨size', modified', changed'⟩ := metadata
    rw [Metadata.mk.injEq]
    exact ⟨(hsize.trans hsizes).symm, (hmtime.trans htimes).symm, (hchanged.trans hchanges).symm⟩
  subst hmetadata
  calc
    (keptDocument disk.host candidate document).unresolved =
        { document.unresolved with
          scope := resolveMemoryScope disk.host candidate { cwd := document.scope.cwd } } := rfl
    _ = _ := by
      rw [hparsed, hfresh]
      rfl

/-- Keeping a document gives what reading it gives if and only if the stored directory and the
header give one scope. -/
theorem kept_eq_read_iff {content : String} {metadata : Metadata}
    (hholds : disk.Holds candidate.sourcePath content metadata)
    (hstored : StoredFrom parsers candidate content document)
    (hunchanged : unchangedOnDisk disk document candidate.sourcePath = true)
    (ids : Path → Option String) :
    (refreshCandidate parsers disk candidate (some document)).document.map (resolveRefs ids) =
        (refreshCandidate parsers disk candidate none).document.map (resolveRefs ids) ↔
      (candidate.ownsScope = true →
        SameScope disk.host document.scope.cwd (parseSourceMetadata content).cwd) := by
  have hread : refreshCandidate parsers disk candidate none =
      .parsed (parseMemoryContent parsers disk.host candidate content metadata) := by
    simp only [refreshCandidate, Option.filter_none, hholds.read]
  rw [refreshCandidate_unchanged hunchanged, hread, Refreshed.document, Refreshed.document,
    Option.map_some, Option.map_some, Option.some.injEq,
    ← resolveRefs_unresolved ids (keptDocument ..),
    keptDocument_unresolved hholds hstored hunchanged]
  have hheader := @resolveMemoryScope_eq_iff disk.host candidate { cwd := document.scope.cwd }
    (parseSourceMetadata content)
  exact Iff.trans resolveRefs_scope_iff hheader

end Memex.Memory
