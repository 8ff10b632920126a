import Memex.Ingest.Discovery.Transcripts
import Memex.Ingest.Execution

/-! # What a classified file has in common with its row

`classify_file` of `ingest/plan.rs` compares what is known on both sides: an absent inode, digest
or time stamp is no evidence. `prepare_file_task` of `ingest/discovery.rs` takes the stored
identity instead of reading the file where the metadata is the stored one. -/

namespace Memex.Ingest

open State

/-- The sources whose parsers resume at a byte offset. -/
def resumable (source : SourceKind) : Bool :=
  !(source = .jcode || source = .antigravity || source = .bob)

section Identity

variable {previous current : FileIdentity}

/-- The same digest of as many bytes, at least one. -/
structure SamePrefix (previous current : FileIdentity) : Prop where
  known : previous.prefixSha256.isSome
  digest : previous.prefixSha256 = current.prefixSha256
  bytes : previous.prefixBytes = current.prefixBytes
  positive : 0 < previous.prefixBytes

/-- Nothing that is known of both files shows that they are different ones. A device may get
another number, but then the file starts with the same bytes. -/
structure SameFile (previous current : FileIdentity) : Prop where
  inode : ∀ oldDevice ∈ previous.device, ∀ old ∈ previous.inode,
    ∀ newDevice ∈ current.device, ∀ new ∈ current.inode, old = new
  device : ∀ old ∈ previous.device, ∀ oldInode ∈ previous.inode,
    ∀ new ∈ current.device, ∀ newInode ∈ current.inode,
      old = new ∨ SamePrefix previous current
  digest : previous.prefixBytes = current.prefixBytes →
    ∀ old ∈ previous.prefixSha256, ∀ new ∈ current.prefixSha256, old = new

/-- Two digests of as many bytes that agree, of at least one byte. -/
def prefixMatches (previous current : FileIdentity) : Bool :=
  match previous.prefixSha256, current.prefixSha256 with
  | some old, some new =>
      0 < previous.prefixBytes && previous.prefixBytes = current.prefixBytes && old = new
  | _, _ => false

def prefixChanged (previous current : FileIdentity) : Bool :=
  match previous.prefixSha256, current.prefixSha256 with
  | some old, some new => previous.prefixBytes = current.prefixBytes && old ≠ new
  | _, _ => false

def identityChanged (previous current : FileIdentity) : Bool :=
  match previous.device, previous.inode, current.device, current.inode with
  | some oldDevice, some oldInode, some newDevice, some newInode =>
      oldInode ≠ newInode || (oldDevice ≠ newDevice && !prefixMatches previous current)
  | _, _, _, _ => false

theorem fileWasReplaced_eq : fileWasReplaced previous current =
    (identityChanged previous current || prefixChanged previous current) := rfl

theorem prefixMatches_iff : prefixMatches previous current = true ↔
    SamePrefix previous current := by
  rw [prefixMatches]
  constructor
  · intro h
    cases hold : previous.prefixSha256 with
    | none => simp [hold] at h
    | some old =>
        cases hnew : current.prefixSha256 with
        | none => simp [hold, hnew] at h
        | some new =>
            simp only [hold, hnew, Bool.and_eq_true, decide_eq_true_eq] at h
            obtain ⟨⟨hpositive, hbytes⟩, rfl⟩ := h
            exact ⟨by rw [hold]; rfl, hold.trans hnew.symm, hbytes, hpositive⟩
  · rintro ⟨hknown, hdigest, hbytes, hpositive⟩
    obtain ⟨old, hold⟩ := Option.isSome_iff_exists.mp hknown
    rw [← hdigest, hold]
    simp [hbytes, hbytes ▸ hpositive]

theorem prefixChanged_eq_false_iff : prefixChanged previous current = false ↔
    (previous.prefixBytes = current.prefixBytes →
      ∀ old ∈ previous.prefixSha256, ∀ new ∈ current.prefixSha256, old = new) := by
  rw [prefixChanged]
  cases previous.prefixSha256 with
  | none => simp
  | some old =>
      cases current.prefixSha256 with
      | none => simp
      | some new => simp

theorem identityChanged_eq_false_iff : identityChanged previous current = false ↔
    ∀ oldDevice ∈ previous.device, ∀ old ∈ previous.inode,
      ∀ newDevice ∈ current.device, ∀ new ∈ current.inode,
        old = new ∧ (oldDevice = newDevice ∨ SamePrefix previous current) := by
  rw [identityChanged, ← prefixMatches_iff]
  cases previous.device with
  | none => simp
  | some oldDevice =>
      cases previous.inode with
      | none => simp
      | some old =>
          cases current.device with
          | none => simp
          | some newDevice =>
              cases current.inode with
              | none => simp
              | some new => simp [or_iff_not_imp_left]

theorem fileWasReplaced_eq_false_iff :
    fileWasReplaced previous current = false ↔ SameFile previous current := by
  rw [fileWasReplaced_eq, Bool.or_eq_false_iff, identityChanged_eq_false_iff,
    prefixChanged_eq_false_iff]
  constructor
  · rintro ⟨hidentity, hdigest⟩
    constructor
    · exact fun device hdevice old hold device' hdevice' new hnew =>
        (hidentity device hdevice old hold device' hdevice' new hnew).1
    · exact fun device hdevice old hold device' hdevice' new hnew =>
        (hidentity device hdevice old hold device' hdevice' new hnew).2
    · exact hdigest
  · rintro ⟨hinode, hdevice, hdigest⟩
    refine ⟨?_, hdigest⟩
    intro device hold old hinodeOld device' hnew new hinodeNew
    exact ⟨hinode device hold old hinodeOld device' hnew new hinodeNew,
      hdevice device hold old hinodeOld device' hnew new hinodeNew⟩

end Identity

section Classified

variable {source : SourceKind} {size parserVersion : Nat} {mtime : Int} {identity : FileIdentity}
  {row : FileState}

/-- The row tells how to resume. -/
def Resumes (source : SourceKind) (parserVersion : Nat) (row : FileState) : Prop :=
  row.parserVersion = parserVersion ∧
    (source = .claude ∨ source = .codex → 0 < row.offset → row.legacyTurnId.isSome)

/-- A file that is neither parsed by another version nor replaced. -/
structure Continues (source : SourceKind) (size : Nat) (mtime : Int) (identity : FileIdentity)
    (parserVersion : Nat) (row : FileState) : Prop where
  resumes : Resumes source parserVersion row
  sizeLe : row.size ≤ size
  offsetLe : row.offset ≤ size
  mtimeLe : row.mtime ≤ mtime
  same : SameFile row.identity identity
  wal : row.identity.sqliteWal = identity.sqliteWal
  stamps : row.size = size → row.mtime = mtime ∧
    (∀ old ∈ row.identity.modifiedNs, ∀ new ∈ identity.modifiedNs, old = new) ∧
    ∀ old ∈ row.identity.changedNs, ∀ new ∈ identity.changedNs, old = new

theorem bothDiffer_eq_false_iff {α : Type} [DecidableEq α] {old new : Option α} :
    bothDiffer old new = false ↔ ∀ a ∈ old, ∀ b ∈ new, a = b := by
  cases old with
  | none => simp [bothDiffer]
  | some a =>
      cases new with
      | none => simp [bothDiffer]
      | some b => simp [bothDiffer]

/-- The row is of another parser, or of the time before its ordinals were tracked. -/
def parserOutdated (source : SourceKind) (parserVersion : Nat) (row : FileState) : Bool :=
  row.parserVersion ≠ parserVersion ||
    ((source = .claude || source = .codex) && 0 < row.offset && row.legacyTurnId = none)

/-- The file is not the one of the row any more, or its bytes were written again. -/
def rewritten (size : Nat) (mtime : Int) (identity : FileIdentity) (row : FileState) : Bool :=
  size < row.size || size < row.offset || mtime < row.mtime ||
    fileWasReplaced row.identity identity || row.identity.sqliteWal ≠ identity.sqliteWal ||
    (size = row.size &&
      (bothDiffer row.identity.modifiedNs identity.modifiedNs ||
        bothDiffer row.identity.changedNs identity.changedNs || mtime ≠ row.mtime))

theorem classifyFile_some : classifyFile source size mtime identity parserVersion (some row) =
    if parserOutdated source parserVersion row then .parserChanged
    else if rewritten size mtime identity row then .replaced
    else if size = row.size && mtime = row.mtime then .unchanged
    else if source = .jcode || source = .antigravity || source = .bob then .replaced
    else .append := rfl

theorem parserOutdated_eq_false_iff :
    parserOutdated source parserVersion row = false ↔ Resumes source parserVersion row := by
  simp only [parserOutdated, Resumes, Bool.or_eq_false_iff, Bool.and_eq_false_iff,
    decide_eq_false_iff_not, not_not, Nat.not_lt, Option.isSome_iff_ne_none]
  apply and_congr_right
  intro
  constructor
  · rintro ((hsource | hoffset) | hlegacy) htracks hpositive
    · exact absurd htracks (by rwa [not_or])
    · omega
    · exact hlegacy
  · intro h
    by_cases htracks : source = .claude ∨ source = .codex
    · by_cases hpositive : 0 < row.offset
      · exact Or.inr (h htracks hpositive)
      · exact Or.inl (Or.inr (Nat.le_of_not_lt hpositive))
    · exact Or.inl (Or.inl (not_or.mp htracks))

theorem rewritten_eq_false_iff (hresumes : Resumes source parserVersion row) :
    rewritten size mtime identity row = false ↔
      Continues source size mtime identity parserVersion row := by
  simp only [rewritten, Bool.or_eq_false_iff, Bool.and_eq_false_iff, decide_eq_false_iff_not,
    not_not, Nat.not_lt, Int.not_lt, fileWasReplaced_eq_false_iff, bothDiffer_eq_false_iff]
  constructor
  · rintro ⟨⟨⟨⟨⟨hsize, hoffset⟩, hmtime⟩, hsame⟩, hwal⟩, hstamps⟩
    refine ⟨hresumes, hsize, hoffset, hmtime, hsame, hwal, ?_⟩
    intro hequal
    obtain hother | ⟨⟨hmodified, hchanged⟩, htime⟩ := hstamps
    · exact absurd hequal.symm hother
    · exact ⟨htime.symm, hmodified, hchanged⟩
  · rintro ⟨-, hsize, hoffset, hmtime, hsame, hwal, hstamps⟩
    refine ⟨⟨⟨⟨⟨hsize, hoffset⟩, hmtime⟩, hsame⟩, hwal⟩, ?_⟩
    by_cases hequal : size = row.size
    · obtain ⟨htime, hmodified, hchanged⟩ := hstamps hequal.symm
      exact Or.inr ⟨⟨hmodified, hchanged⟩, htime.symm⟩
    · exact Or.inl hequal

/-- A file that continues its row is unchanged at its old size; a larger one is appended to where
the source allows it. -/
theorem classifyFile_of_continues
    (h : Continues source size mtime identity parserVersion row) :
    classifyFile source size mtime identity parserVersion (some row) =
      if size = row.size then .unchanged
      else if resumable source then .append else .replaced := by
  have hparser := parserOutdated_eq_false_iff.mpr h.resumes
  have hrewritten := (rewritten_eq_false_iff h.resumes).mpr h
  rw [classifyFile_some, hparser, hrewritten]
  simp only [Bool.false_eq_true, if_false]
  by_cases hsize : size = row.size
  · have hmtime := (h.stamps hsize.symm).1
    simp [hsize, hmtime]
  · simp only [hsize, decide_false, Bool.false_and, Bool.false_eq_true, if_false]
    cases source <;> rfl

theorem continues_of_classifyFile
    (h : (classifyFile source size mtime identity parserVersion (some row)).replacesRecords =
      false) : Continues source size mtime identity parserVersion row := by
  rw [classifyFile_some] at h
  cases hparser : parserOutdated source parserVersion row with
  | true =>
      rw [hparser] at h
      cases h
  | false =>
      have hresumes := parserOutdated_eq_false_iff.mp hparser
      cases hrewritten : rewritten size mtime identity row with
      | true =>
          rw [hparser, hrewritten] at h
          cases h
      | false => exact (rewritten_eq_false_iff hresumes).mp hrewritten

/-- An identity that agrees in the file and its stamps leads to the same class. -/
theorem classifyFile_congr {other : FileIdentity}
    (hreplaced : fileWasReplaced row.identity identity = fileWasReplaced row.identity other)
    (hwal : identity.sqliteWal = other.sqliteWal)
    (hmodified : identity.modifiedNs = other.modifiedNs)
    (hchanged : identity.changedNs = other.changedNs) :
    classifyFile source size mtime identity parserVersion (some row) =
      classifyFile source size mtime other parserVersion (some row) := by
  have hrewritten : rewritten size mtime identity row = rewritten size mtime other row := by
    rw [rewritten, rewritten, hreplaced, hwal, hmodified, hchanged]
  rw [classifyFile_some, classifyFile_some, hrewritten]

end Classified

section Shortcut

variable (inv : Inventory) (path : String) (source : SourceKind) (metadata : Metadata)
  (parserVersion : Nat) (row : FileState)

/-- The seconds of the modification time. -/
def mtimeOf (metadata : Metadata) : Int :=
  ((metadata.modified.map fun nanos => nanos / 1000000000).getD 0 : Nat)

/-- How many bytes the prefix of a tracked file has. -/
def prefixBytesOf (metadata : Metadata) (row : FileState) : Nat :=
  min metadata.len
    (if 0 < row.identity.prefixBytes then row.identity.prefixBytes
     else min row.size fileIdentityPrefixBytes)

/-- The identity that is computed from the file. -/
def recomputedIdentity : FileIdentity :=
  fileIdentity inv path metadata (prefixBytesOf metadata row)

/-- The write-ahead log is looked at in any case where the source has one. -/
def withSqliteWal (observed : FileIdentity) : FileIdentity :=
  if source = .antigravity && inv.isAntigravityDb path then
    { observed with sqliteWal := some (inv.sqliteWal path) }
  else observed

/-- The class of a tracked file that has this identity. -/
def classOf (observed : FileIdentity) : FileChange :=
  classifyFile source metadata.len (mtimeOf metadata) (withSqliteWal inv path source observed)
    parserVersion (some row)

/-- Rows of write-ahead logs belong to databases of Antigravity. -/
def WalOfDatabase (identity : FileIdentity) : Prop :=
  identity.sqliteWal.isSome → source = .antigravity ∧ inv.isAntigravityDb path = true

/-- The bytes under the stored digest are still those of the file. -/
def SameBytes : Prop :=
  ∀ old ∈ row.identity.prefixSha256,
    ∀ now ∈ inv.prefixSha256 path row.identity.prefixBytes, old = now

variable {inv path source metadata parserVersion row}

theorem withSqliteWal_frame (observed : FileIdentity) :
    fileWasReplaced row.identity (withSqliteWal inv path source observed) =
        fileWasReplaced row.identity observed ∧
      (withSqliteWal inv path source observed).modifiedNs = observed.modifiedNs ∧
      (withSqliteWal inv path source observed).changedNs = observed.changedNs := by
  rw [withSqliteWal]
  split
  · exact ⟨rfl, rfl, rfl⟩
  · exact ⟨rfl, rfl, rfl⟩

theorem withSqliteWal_eq (hwal : WalOfDatabase inv path source row.identity) :
    (withSqliteWal inv path source row.identity).sqliteWal =
      (withSqliteWal inv path source (recomputedIdentity inv path metadata row)).sqliteWal := by
  rw [withSqliteWal, withSqliteWal]
  split
  · rfl
  next hother =>
    rw [Bool.and_eq_true, decide_eq_true_eq] at hother
    have hnone : row.identity.sqliteWal = none := by
      rw [← Option.not_isSome_iff_eq_none]
      exact fun hsome => hother (hwal hsome)
    exact hnone

theorem sameFile_self (identity : FileIdentity) : SameFile identity identity := by
  constructor
  · intro _ _ old hold _ _ new hnew
    exact Option.mem_unique hold hnew
  · intro old hold _ _ new hnew _ _
    exact Or.inl (Option.mem_unique hold hnew)
  · intro _ old hold new hnew
    exact Option.mem_unique hold hnew

/-- What metadata that is unchanged tells. -/
theorem unchangedFileMetadata_iff : unchangedFileMetadata row metadata parserVersion = true ↔
    row.size = metadata.len ∧ row.parserVersion = parserVersion ∧
      row.identity.device = some metadata.device ∧ row.identity.inode = some metadata.inode ∧
      (row.identity.modifiedNs.isSome ∧ row.identity.modifiedNs = modifiedNs metadata) ∧
      row.identity.changedNs.isSome ∧ row.identity.changedNs = changedNs metadata := by
  simp only [unchangedFileMetadata, Bool.and_eq_true, decide_eq_true_eq]
  tauto

theorem sameFile_recomputed (hdevice : row.identity.device = some metadata.device)
    (hinode : row.identity.inode = some metadata.inode) (hbytes : SameBytes inv path row) :
    SameFile row.identity (recomputedIdentity inv path metadata row) := by
  constructor
  · intro _ _ old hold _ _ new hnew
    rw [hinode] at hold
    exact Option.mem_unique hold hnew
  · intro old hold _ _ new hnew _ _
    rw [hdevice] at hold
    exact Or.inl (Option.mem_unique hold hnew)
  · intro hequal old hold new hnew
    change row.identity.prefixBytes = prefixBytesOf metadata row at hequal
    change new ∈ (if metadata.isFile then inv.prefixSha256 path (prefixBytesOf metadata row)
      else none) at hnew
    split at hnew
    · rw [← hequal] at hnew
      exact hbytes old hold new hnew
    · cases hnew

/-- The stored identity leads to the class of the recomputed one while the bytes under the stored
digest are the same. -/
theorem classOf_stored (hunchanged : unchangedFileMetadata row metadata parserVersion = true)
    (hbytes : SameBytes inv path row) (hwal : WalOfDatabase inv path source row.identity) :
    classOf inv path source metadata parserVersion row row.identity =
      classOf inv path source metadata parserVersion row
        (recomputedIdentity inv path metadata row) := by
  obtain ⟨-, -, hdevice, hinode, ⟨-, hmodified⟩, -, hchanged⟩ :=
    unchangedFileMetadata_iff.mp hunchanged
  have hstored := fileWasReplaced_eq_false_iff.mpr (sameFile_self row.identity)
  have hrecomputed := fileWasReplaced_eq_false_iff.mpr
    (sameFile_recomputed hdevice hinode hbytes)
  obtain ⟨hsame, hstamp, hctime⟩ := @withSqliteWal_frame inv path source row row.identity
  obtain ⟨hsame', hstamp', hctime'⟩ := @withSqliteWal_frame inv path source row
    (recomputedIdentity inv path metadata row)
  apply classifyFile_congr
  · rw [hsame, hsame', hstored, hrecomputed]
  · exact withSqliteWal_eq hwal
  · rw [hstamp, hstamp', hmodified]
    rfl
  · rw [hctime, hctime', hchanged]
    rfl

/-- A task stores a write-ahead log for databases of Antigravity only. -/
theorem walOfDatabase_task {includeReasoning : Bool} {previous : Option FileState}
    (h : ∀ row ∈ previous, WalOfDatabase inv path source row.identity) :
    WalOfDatabase inv path source
      (prepareFileTask inv path source includeReasoning metadata previous).1.identity := by
  have hwith : ∀ observed, WalOfDatabase inv path source observed →
      WalOfDatabase inv path source (withSqliteWal inv path source observed) := by
    intro observed hobserved
    rw [withSqliteWal]
    split
    next hdatabase =>
      rw [Bool.and_eq_true, decide_eq_true_eq] at hdatabase
      exact fun _ => hdatabase
    next => exact hobserved
  have hfresh : ∀ bytes, WalOfDatabase inv path source (fileIdentity inv path metadata bytes) :=
    fun _ hsome => absurd hsome Bool.false_ne_true
  cases previous with
  | none => exact hwith _ (hfresh _)
  | some row =>
      have hstored := h row rfl
      change WalOfDatabase inv path source (withSqliteWal inv path source
        (if unchangedFileMetadata row metadata (inv.indexVersion source includeReasoning) then
          row.identity else recomputedIdentity inv path metadata row))
      apply hwith
      split
      · exact hstored
      · exact hfresh _

/-- The row of a parsed file keeps the identity of its task. -/
theorem walOfDatabase_completed {task : FileTask} {output : ParsedSource}
    (h : WalOfDatabase inv path source task.identity) :
    WalOfDatabase inv path source (completedFileState task output).identity := h

end Shortcut

/-- A file is appended to or unchanged only if nothing known of it and its row differs that would
show another file; a device may have another number where the inode and a digest of the first
bytes agree. Metadata that is unchanged stands for the identity of a file whose first bytes are
the same. -/
theorem classify_file_sound (source : SourceKind) (parserVersion : Nat) :
    (∀ size mtime identity previous,
      classifyFile source size mtime identity parserVersion previous = .append →
        ∃ row, previous = some row ∧ resumable source = true ∧
          row.parserVersion = parserVersion ∧ row.size < size ∧ row.offset ≤ size ∧
          SameFile row.identity identity) ∧
      (∀ size mtime identity previous,
        classifyFile source size mtime identity parserVersion previous = .unchanged →
          ∃ row, previous = some row ∧ row.size = size ∧ row.mtime = mtime ∧
            row.parserVersion = parserVersion ∧ SameFile row.identity identity) ∧
      ∀ inv path metadata row, unchangedFileMetadata row metadata parserVersion = true →
        SameBytes inv path row → WalOfDatabase inv path source row.identity →
          classOf inv path source metadata parserVersion row row.identity =
            classOf inv path source metadata parserVersion row
              (recomputedIdentity inv path metadata row) := by
  refine ⟨?_, ?_, ?_⟩
  · intro size mtime identity previous happend
    cases previous with
    | none => cases happend
    | some row =>
        have h := continues_of_classifyFile (congrArg FileChange.replacesRecords happend)
        rw [classifyFile_of_continues h] at happend
        split at happend
        · cases happend
        next hsize =>
          have hresumable : resumable source = true := by
            by_contra hnot
            rw [if_neg hnot] at happend
            cases happend
          have hgrew : row.size < size := lt_of_le_of_ne h.sizeLe (Ne.symm hsize)
          exact ⟨row, rfl, hresumable, h.resumes.1, hgrew, h.offsetLe, h.same⟩
  · intro size mtime identity previous hunchanged
    cases previous with
    | none => cases hunchanged
    | some row =>
        have h := continues_of_classifyFile (congrArg FileChange.replacesRecords hunchanged)
        rw [classifyFile_of_continues h] at hunchanged
        have hsize : size = row.size := by
          by_contra hother
          rw [if_neg hother] at hunchanged
          split at hunchanged <;> cases hunchanged
        exact ⟨row, rfl, hsize.symm, (h.stamps hsize.symm).1, h.resumes.1, h.same⟩
  · exact fun _ _ _ _ => classOf_stored

/-- A row of sixteen bytes that were read to their end. -/
def trackedRow : FileState where
  size := 16
  mtime := 3
  offset := 16
  turnId := 1
  parserVersion := 1
  legacyTurnId := some 1
  identity :=
    { device := some 1, inode := some 2, prefixSha256 := some "digest", prefixBytes := 16
      modifiedNs := some 3000000000, changedNs := some 3000000001 }

def trackedMetadata : Metadata :=
  { len := 16, device := 1, inode := 2, modified := some 3000000000, ctime := 3, ctimeNsec := 1 }

theorem classify_file_sound_tracked :
    trackedRow.size < 20 ∧ SameFile trackedRow.identity trackedRow.identity ∧
      classOf {} "session.jsonl" .claude trackedMetadata 1 trackedRow trackedRow.identity =
        classOf {} "session.jsonl" .claude trackedMetadata 1 trackedRow
          (recomputedIdentity {} "session.jsonl" trackedMetadata trackedRow) := by
  obtain ⟨happend, -, hshortcut⟩ := classify_file_sound .claude 1
  obtain ⟨row, hrow, -, -, hgrew, -, hsame⟩ :=
    happend 20 4 trackedRow.identity (some trackedRow) (by decide)
  cases hrow
  refine ⟨hgrew, hsame, hshortcut {} "session.jsonl" trackedMetadata trackedRow (by decide) ?_ ?_⟩
  · intro _ _ _ hnow
    cases hnow
  · exact fun hsome => absurd hsome (by decide)

/-- A device that got another number, and a stored log of a file that has none. -/
theorem evidence_differs_unchanged :
    ¬ (∀ size mtime identity row,
        classifyFile .claude size mtime identity 1 (some row) = .unchanged →
          ∀ old ∈ row.identity.device, ∀ new ∈ identity.device, old = new) ∧
      ¬ (∀ row, unchangedFileMetadata row trackedMetadata 1 = true →
        SameBytes {} "session.jsonl" row →
          classOf {} "session.jsonl" .claude trackedMetadata 1 row row.identity =
            classOf {} "session.jsonl" .claude trackedMetadata 1 row
              (recomputedIdentity {} "session.jsonl" trackedMetadata row)) := by
  constructor
  · intro h
    have hsame := h 16 3 { trackedRow.identity with device := some 4 } trackedRow (by decide) 1 rfl
      4 rfl
    cases hsame
  · intro h
    have hsame := h { trackedRow with identity :=
      { trackedRow.identity with sqliteWal := some ⟨true, 4, none⟩ } } (by decide)
      (fun _ _ _ hnow => nomatch hnow)
    revert hsame
    decide

end Memex.Ingest
