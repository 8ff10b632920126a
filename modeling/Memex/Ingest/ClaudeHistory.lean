import Memex.Ingest.Execution
import Memex.Sources.Claude

/-! # Refreshes of a growing Claude transcript

A transcript only grows, also between the steps of one refresh: discovery takes its
size, then looks for a marker in it, and the parser maps it last. What the index
holds of the transcript is followed over a history of refreshes. -/

namespace Memex.Ingest

open Overlay State LineStream Sources Sources.Claude

/-- What the index and the checkpoint hold of one transcript. -/
structure IndexedTranscript where
  records : List Record := []
  row : Option FileState := none
  deriving DecidableEq

/-- `parse_claude_file` over the mapped bytes. A resumed task needs its legacy
ordinal. -/
def parseClaudeFile (crates : Crates) (reader : TranscriptReader) (file : TranscriptFile)
    (task : FileTask) (mapped : Bytes) : Option ParsedSource :=
  (if task.offset = 0 then some 0 else task.legacyTurnId).map fun legacyTurnId =>
    let output := parseIndexRecordsWithBackground crates reader file mapped task.offset
      { turnId := task.turnId, legacyTurnId, pendingToolCalls := task.pendingToolCalls }
      task.claudeBackground task.size
    { records := output.records
      offset := output.offset
      turnId := output.numbering.turnId
      legacyTurnId := some output.numbering.legacyTurnId
      pendingToolCalls := output.numbering.pendingToolCalls
      claudeBackground := some output.background }

/-- The task that discovery makes of the transcript, and whether it is skipped. -/
def transcriptTask (inv : Inventory) (file : TranscriptFile) (metadata : Metadata)
    (index : IndexedTranscript) : FileTask × Bool :=
  prepareFileTask inv file.path .claude file.includeReasoning metadata index.row

/-- One refresh of the transcript. An unchanged file is not parsed, and a replaced one
loses its records first. -/
def refreshTranscript (crates : Crates) (reader : TranscriptReader) (file : TranscriptFile)
    (inv : Inventory) (metadata : Metadata) (mapped : Bytes) (index : IndexedTranscript) :
    Option IndexedTranscript :=
  let (task, skip) := transcriptTask inv file metadata index
  if skip then some index
  else (parseClaudeFile crates reader file task mapped).map fun output =>
    { records := (if task.deleteFirst then [] else index.records) ++ output.records
      row := some (completedFileState task output) }

/-- The transcript at the steps of one refresh: when its size is taken, when it is
scanned for markers and when it is mapped. Every read succeeds. -/
structure Observes (reader : TranscriptReader) (file : TranscriptFile) (inv : Inventory)
    (metadata : Metadata) (sized scanned mapped : Bytes) : Prop where
  size : metadata.len = sized.length
  scan : ∀ offset byteBoundary, inv.hasBackgroundSessionKindSince file.path offset byteBoundary =
    some (hasBackgroundSessionKindSince reader.toLineReader scanned offset byteBoundary)
  sized_prefix : sized <+: scanned
  scanned_prefix : scanned <+: mapped

/-- The row and the records stand for a parse of the bytes before the offset, under the
given classification. -/
structure Holds (crates : Crates) (reader : TranscriptReader) (file : TranscriptFile)
    (bytes : Bytes) (background : Bool) (index : IndexedTranscript) (row : FileState) : Prop where
  row_eq : index.row = some row
  stops : Resumable (Consumed reader) bytes row.offset
  offset_le : row.offset ≤ row.size
  size_le : row.size ≤ bytes.length
  complete : newline ∉ (bytes.take row.size).drop row.offset
  fed : ∃ legacyTurnId, row.legacyTurnId = some legacyTurnId ∧
    (({ turnId := row.turnId, legacyTurnId, pendingToolCalls := row.pendingToolCalls } :
      Numbering), index.records) =
      feed crates file background (reader.rowsFrom 0 (bytes.take row.offset))

/-- The histories of a transcript: it starts empty and unknown, or with a row that was
written before the classification was kept; then refreshes run while it grows. -/
inductive Reaches (crates : Crates) (reader : TranscriptReader) (file : TranscriptFile) :
    Bytes → IndexedTranscript → Prop where
  | unknown : Reaches crates reader file [] {}
  | untracked {bytes : Bytes} {index : IndexedTranscript} {row : FileState}
      (hholds : Holds crates reader file bytes false index row)
      (huntracked : row.claudeBackground = none) : Reaches crates reader file bytes index
  | refresh {bytes sized scanned mapped : Bytes} {index refreshed : IndexedTranscript}
      {inv : Inventory} {metadata : Metadata} (hreaches : Reaches crates reader file bytes index)
      (hgrown : bytes <+: sized)
      (hobserves : Observes reader file inv metadata sized scanned mapped)
      (hrefresh : refreshTranscript crates reader file inv metadata mapped index =
        some refreshed) : Reaches crates reader file mapped refreshed

/-! ## What discovery decides -/

/-- The task reads the whole transcript again. -/
structure FullTask (task : FileTask) : Prop where
  offset : task.offset = 0
  turnId : task.turnId = 0
  pendingToolCalls : task.pendingToolCalls = ∅

/-- The task goes on from the row. -/
structure ResumedTask (task : FileTask) (row : FileState) : Prop where
  offset : task.offset = row.offset
  turnId : task.turnId = row.turnId
  pendingToolCalls : task.pendingToolCalls = row.pendingToolCalls
  legacyTurnId : 0 < row.offset → task.legacyTurnId = row.legacyTurnId
  kept : task.deleteFirst = false
  offset_le : row.offset ≤ task.size

/-- The classification that discovery knows when a task goes on from a row. -/
inductive KnownBackground (inv : Inventory) (path : String) (size : Nat) (row : FileState) :
    Option Bool → Prop where
  | marked (h : row.claudeBackground = some true) : KnownBackground inv path size row (some true)
  | unmarked (h : row.claudeBackground = some false)
      (hscan : row.offset < size →
        inv.hasBackgroundSessionKindSince path row.offset size = some false) :
      KnownBackground inv path size row (some false)
  | untracked (h : row.claudeBackground = none)
      (hscan : inv.hasBackgroundSessionKindSince path 0 size = some true → row.offset = 0) :
      KnownBackground inv path size row (inv.hasBackgroundSessionKindSince path 0 size)

/-- Discovery makes a full task or one that goes on from the row. -/
inductive TranscriptTask (inv : Inventory) (path : String) (size : Nat)
    (previous : Option FileState) (task : FileTask) : Bool → Prop where
  | full (hfull : FullTask task) (hreplaced : previous = none ∨ task.deleteFirst = true)
      (hknown : task.claudeBackground = none ∨ task.claudeBackground = some true ∧
        inv.hasBackgroundSessionKindSince path 0 size = some true) :
      TranscriptTask inv path size previous task false
  | resumed {skip : Bool} {row : FileState} (hprevious : previous = some row)
      (hresumed : ResumedTask task row)
      (hknown : KnownBackground inv path size row task.claudeBackground)
      (hskip : skip = true → size = row.size) : TranscriptTask inv path size previous task skip

variable {crates : Crates} {reader : TranscriptReader} {file : TranscriptFile}

/-- How a tracked Claude transcript compares with its row. -/
theorem classifyFile_claude {size : Nat} {mtime : Int} {identity : FileIdentity}
    {parserVersion : Nat} {row : FileState} :
    let change := classifyFile .claude size mtime identity parserVersion (some row)
    change.replacesRecords = true ∨
      (row.offset ≤ size ∧ (change = .append ∨ change = .unchanged ∧ size = row.size)) := by
  dsimp only [classifyFile]
  split
  · exact Or.inl rfl
  · split
    · exact Or.inl rfl
    · rename_i hreplaced
      have hle : row.offset ≤ size := by
        simp only [Bool.or_eq_true, decide_eq_true_eq, not_or] at hreplaced
        omega
      split
      · rename_i hsame
        simp only [Bool.and_eq_true, decide_eq_true_eq] at hsame
        exact Or.inr ⟨hle, Or.inr ⟨rfl, hsame.1⟩⟩
      · exact Or.inr ⟨hle, Or.inl rfl⟩

/-- What discovery finds out about the marker of a transcript that goes on from its row. -/
theorem resolveClaudeBackground_kept (inv : Inventory) (path : String) (size : Nat)
    (row : FileState) {change : FileChange} (hkept : change.replacesRecords = false) :
    let claude := resolveClaudeBackground inv path .claude size (some row) change
    (claude.reparse = false ∧ KnownBackground inv path size row claude.background) ∨
      (claude.reparse = true ∧ (claude.background = none ∨ claude.background = some true ∧
        inv.hasBackgroundSessionKindSince path 0 size = some true)) := by
  simp only [resolveClaudeBackground, hkept, ne_eq, not_true_eq_false, if_false,
    Bool.false_eq_true, Option.bind_some, Option.map_some, Option.getD_some]
  cases hrow : row.claudeBackground with
  | none =>
      cases hreparse : (decide (inv.hasBackgroundSessionKindSince path 0 size = some true) &&
          decide (0 < row.offset)) with
      | false =>
          refine Or.inl ⟨rfl, KnownBackground.untracked hrow fun hscan => ?_⟩
          simpa [hscan] using hreparse
      | true =>
          simp only [Bool.and_eq_true, decide_eq_true_eq] at hreparse
          exact Or.inr ⟨rfl, Or.inr ⟨hreparse.1, hreparse.1⟩⟩
  | some known =>
      cases known with
      | true => exact Or.inl ⟨rfl, KnownBackground.marked hrow⟩
      | false =>
          dsimp only
          split
          · split
            · rename_i hscan
              exact Or.inl ⟨rfl, KnownBackground.unmarked hrow fun _ => hscan⟩
            · exact Or.inr ⟨rfl, Or.inl rfl⟩
          · rename_i hend
            exact Or.inl ⟨rfl, KnownBackground.unmarked hrow fun hlt => absurd hlt hend⟩

theorem transcriptTask_cases (inv : Inventory) (file : TranscriptFile) (metadata : Metadata)
    (index : IndexedTranscript) :
    TranscriptTask inv file.path metadata.len index.row (transcriptTask inv file metadata index).1
      (transcriptTask inv file metadata index).2 := by
  dsimp only [transcriptTask, prepareFileTask]
  cases hrow : index.row with
  | none =>
      exact TranscriptTask.full ⟨rfl, rfl, rfl⟩ (Or.inl rfl) (Or.inl rfl)
  | some row =>
      dsimp only
      generalize hchange : classifyFile .claude metadata.len _ _ _ (some row) = change
      have hcompared : change.replacesRecords = true ∨ (row.offset ≤ metadata.len ∧
          (change = .append ∨ change = .unchanged ∧ metadata.len = row.size)) := by
        rw [← hchange]
        exact classifyFile_claude
      clear hchange
      obtain hreplaces | ⟨hle, hgoes⟩ := hcompared
      · have hresolved : resolveClaudeBackground inv file.path .claude metadata.len (some row)
            change = {} := by
          simp [resolveClaudeBackground, hreplaces]
        rw [hresolved]
        cases change with
        | replaced => exact TranscriptTask.full ⟨rfl, rfl, rfl⟩ (Or.inr rfl) (Or.inl rfl)
        | parserChanged => exact TranscriptTask.full ⟨rfl, rfl, rfl⟩ (Or.inr rfl) (Or.inl rfl)
        | new => cases hreplaces
        | unchanged => cases hreplaces
        | append => cases hreplaces
      · have hkept : change.replacesRecords = false := by
          obtain rfl | ⟨rfl, -⟩ := hgoes <;> rfl
        obtain ⟨hreparse, hknown⟩ | ⟨hreparse, hknown⟩ :=
          resolveClaudeBackground_kept inv file.path metadata.len row hkept
        · rw [hreparse]
          obtain rfl | ⟨rfl, hsize⟩ := hgoes
          · refine TranscriptTask.resumed rfl ⟨rfl, rfl, rfl, fun hpos => ?_, rfl, hle⟩ hknown ?_
            · simp [Nat.ne_of_gt hpos]
            · intro hskip
              simp at hskip
          · refine TranscriptTask.resumed rfl ⟨rfl, rfl, rfl, fun hpos => ?_, rfl, hle⟩ hknown ?_
            · simp [Nat.ne_of_gt hpos]
            · exact fun _ => hsize
        · rw [hreparse]
          refine TranscriptTask.full ?_ (Or.inr rfl) hknown
          obtain rfl | ⟨rfl, -⟩ := hgoes <;> exact ⟨rfl, rfl, rfl⟩

/-! ## What a refresh keeps -/

theorem Holds.grow {bytes more : Bytes} {background : Bool} {index : IndexedTranscript}
    {row : FileState} (h : Holds crates reader file bytes background index row) :
    Holds crates reader file (bytes ++ more) background index row := by
  have hoffset : (bytes ++ more).take row.offset = bytes.take row.offset :=
    List.take_append_of_le_length (h.offset_le.trans h.size_le)
  have hsize : (bytes ++ more).take row.size = bytes.take row.size :=
    List.take_append_of_le_length h.size_le
  constructor
  · exact h.row_eq
  · exact h.stops.append more
  · exact h.offset_le
  · rw [List.length_append]
    exact h.size_le.trans (Nat.le_add_right _ _)
  · rw [hsize]
    exact h.complete
  · rw [hoffset]
    exact h.fed

/-- Before the first row nothing was read, under whatever classification. -/
theorem Holds.of_offset_zero {bytes : Bytes} {background other : Bool} {index : IndexedTranscript}
    {row : FileState} (h : Holds crates reader file bytes background index row)
    (hzero : row.offset = 0) : Holds crates reader file bytes other index row := by
  obtain ⟨legacyTurnId, hlegacy, hfed⟩ := h.fed
  rw [hzero, List.take_zero, LineReader.rowsFrom_nil, feed_nil] at hfed
  refine ⟨h.row_eq, h.stops, h.offset_le, h.size_le, h.complete, legacyTurnId, hlegacy, ?_⟩
  rw [hzero, List.take_zero, LineReader.rowsFrom_nil, feed_nil]
  exact hfed

/-- What is held between refreshes. A row without a classification stands for records
of an interactive session. -/
def Tracked (crates : Crates) (reader : TranscriptReader) (file : TranscriptFile) (bytes : Bytes)
    (index : IndexedTranscript) : Prop :=
  index = {} ∨ ∃ row background, Holds crates reader file bytes background index row ∧
    (row.claudeBackground = none ∧ background = false ∨
      row.claudeBackground = some background ∧
        background = hasBackgroundLine reader.toLineReader (bytes.take row.size))

variable (crates file) in
/-- A parse of the mapped bytes up to the size, from where the held records end. -/
theorem holds_parse {sized more : Bytes} {task : FileTask} {output : ParsedSource}
    (numbering : Numbering) (held : List Record) {background : Bool}
    (hsound : Sound reader sized) (hsize : task.size = sized.length)
    (hsource : task.source = .claude)
    (hstops : Resumable (Consumed reader) sized task.offset)
    (hturn : task.turnId = numbering.turnId)
    (hpending : task.pendingToolCalls = numbering.pendingToolCalls)
    (hlegacy : (if task.offset = 0 then some 0 else task.legacyTurnId) =
      some numbering.legacyTurnId)
    (hfed : (numbering, held) = feed crates file background
      (reader.rowsFrom 0 (sized.take task.offset)))
    (hknown : task.claudeBackground.getD (hasBackgroundLine reader.toLineReader sized) = background)
    (hparse : parseClaudeFile crates reader file task (sized ++ more) = some output) :
    Holds crates reader file (sized ++ more) background
        { records := held ++ output.records, row := some (completedFileState task output) }
        (completedFileState task output) ∧
      (completedFileState task output).claudeBackground = some background := by
  have htake : (sized ++ more).take task.size = sized := by
    rw [hsize, List.take_left]
  have hparsed := parse_from crates file (sized ++ more) task.offset numbering
    task.claudeBackground task.size (by simp [hsize]) (by rwa [htake]) (by rwa [htake])
  simp only [parseClaudeFile, hlegacy, hturn, hpending, Option.map_some, Option.some.injEq]
    at hparse
  subst hparse
  dsimp only at hparsed
  generalize parseIndexRecordsWithBackground _ _ _ _ _ _ _ _ = parsed at hparsed ⊢
  obtain ⟨hbackground, hfrom, hto, hstopped, hcomplete, rows, hrows, hrun⟩ := hparsed
  rw [htake] at hbackground hstopped hcomplete
  rw [hknown] at hbackground
  have hwithin : ∀ offset ≤ task.size, (sized ++ more).take offset = sized.take offset := by
    intro offset hle
    rw [List.take_append_of_le_length (hsize ▸ hle)]
  rw [hwithin _ hto, hwithin _ (hfrom.trans hto)] at hrows
  have hclassified : (completedFileState task
      { records := parsed.records, offset := parsed.offset, turnId := parsed.numbering.turnId
        legacyTurnId := some parsed.numbering.legacyTurnId
        pendingToolCalls := parsed.numbering.pendingToolCalls
        claudeBackground := some parsed.background }).claudeBackground = some background := by
    simp only [completedFileState, hsource, if_true, hbackground]
  refine ⟨?_, hclassified⟩
  constructor
  · rfl
  · exact hstopped.append more
  · exact hto
  · simp [completedFileState, hsize]
  · simp only [completedFileState, htake]
    exact hcomplete
  · refine ⟨parsed.numbering.legacyTurnId, rfl, ?_⟩
    simp only [completedFileState]
    rw [hwithin _ hto, hrows, feed, HeaderMachine.run_append]
    have hheld : HeaderMachine.run (parseRow crates file background) {}
        (reader.rowsFrom 0 (sized.take task.offset)) = (numbering, held) := hfed.symm
    rw [hheld, ← hbackground, ← hrun]

/-- The scan of discovery, over the bytes that were there when the size was taken. -/
theorem Observes.scan_eq {inv : Inventory} {metadata : Metadata} {sized scanned mapped : Bytes}
    (h : Observes reader file inv metadata sized scanned mapped) {offset : Nat}
    (hle : offset ≤ sized.length) :
    inv.hasBackgroundSessionKindSince file.path offset metadata.len =
      some (hasBackgroundLine reader.toLineReader (sized.drop offset)) := by
  obtain ⟨more, rfl⟩ := h.sized_prefix
  rw [h.scan, h.size]
  simp [hasBackgroundSessionKindSince, Nat.min_eq_left hle]

/-- The classification that discovery knows is the one of the bytes it saw, when a task
goes on from a row. -/
theorem KnownBackground.getD_eq {inv : Inventory} {metadata : Metadata}
    {bytes sized scanned mapped : Bytes} {index : IndexedTranscript} {row : FileState}
    {background : Bool} {known : Option Bool}
    (hobserves : Observes reader file inv metadata sized scanned mapped)
    (hsound : Sound reader sized) (hgrown : bytes <+: sized)
    (hholds : Holds crates reader file bytes background index row)
    (hclassified : row.claudeBackground = none ∧ background = false ∨
      row.claudeBackground = some background ∧
        background = hasBackgroundLine reader.toLineReader (bytes.take row.size))
    (hknown : KnownBackground inv file.path metadata.len row known) :
    known.getD (hasBackgroundLine reader.toLineReader sized) =
        hasBackgroundLine reader.toLineReader sized ∧
      (row.offset = 0 ∨ background = hasBackgroundLine reader.toLineReader sized) := by
  obtain ⟨more, rfl⟩ := hgrown
  have hoffset : row.offset ≤ bytes.length := hholds.offset_le.trans hholds.size_le
  have hseen : row.offset ≤ (bytes ++ more).length := by
    rw [List.length_append]
    omega
  have hsplit := hasBackgroundLine_split hsound (hholds.stops.append more)
  have hresized := hasBackgroundLine_split (hsound.of_append.take row.size)
    (hholds.stops.take hholds.offset_le)
  have htake : (bytes.take row.size).take row.offset = (bytes ++ more).take row.offset := by
    rw [List.take_take, Nat.min_eq_left hholds.offset_le, List.take_append_of_le_length hoffset]
  rw [htake] at hresized
  cases hknown with
  | marked hmarked =>
      obtain ⟨hnone, -⟩ | ⟨hsome, hbackground⟩ := hclassified
      · rw [hmarked] at hnone
        cases hnone
      · rw [hmarked] at hsome
        cases hsome
        have hlater : hasBackgroundLine reader.toLineReader (bytes ++ more) = true := by
          have hsized : bytes ++ more = bytes.take row.size ++ (bytes.drop row.size ++ more) := by
            rw [← List.append_assoc, List.take_append_drop]
          rw [hsized] at hsound ⊢
          exact hasBackgroundLine_append hsound hbackground.symm
        exact ⟨hlater.symm, Or.inr hlater.symm⟩
  | unmarked hunmarked hscan =>
      obtain ⟨hnone, -⟩ | ⟨hsome, hbackground⟩ := hclassified
      · rw [hunmarked] at hnone
        cases hnone
      · rw [hunmarked] at hsome
        cases hsome
        have hbehind : hasBackgroundLine reader.toLineReader ((bytes ++ more).drop row.offset) =
            false := by
          by_cases hlt : row.offset < metadata.len
          · have hscanned := hscan hlt
            rw [hobserves.scan_eq hseen] at hscanned
            exact Option.some.inj hscanned
          · have hend : (bytes ++ more).drop row.offset = [] := by
              apply List.drop_eq_nil_of_le
              rw [hobserves.size] at hlt
              exact Nat.le_of_not_lt hlt
            rw [hend, hasBackgroundLine_eq _ 0, LineReader.rowsFrom_nil, List.any_nil]
        have hbefore : hasBackgroundLine reader.toLineReader ((bytes ++ more).take row.offset) =
            false := by
          rw [← hbackground] at hresized
          exact (Bool.or_eq_false_iff.mp hresized.symm).1
        have hnone : hasBackgroundLine reader.toLineReader (bytes ++ more) = false := by
          rw [hsplit, hbefore, hbehind, Bool.or_false]
        exact ⟨hnone.symm, Or.inr hnone.symm⟩
  | untracked huntracked hscan =>
      have hscanned := hobserves.scan_eq (Nat.zero_le _)
      rw [List.drop_zero] at hscanned
      rw [hscanned] at hscan ⊢
      refine ⟨rfl, ?_⟩
      obtain ⟨-, hfalse⟩ | ⟨hsome, -⟩ := hclassified
      · cases hmarker : hasBackgroundLine reader.toLineReader (bytes ++ more) with
        | true => exact Or.inl (hscan (congrArg some hmarker))
        | false => exact Or.inr hfalse
      · rw [huntracked] at hsome
        cases hsome

/-- After a refresh the records stand for the bytes before the offset, under the
classification of the bytes that discovery saw. -/
theorem refresh_holds {bytes sized scanned mapped : Bytes} {index refreshed : IndexedTranscript}
    {inv : Inventory} {metadata : Metadata} (htracked : Tracked crates reader file bytes index)
    (hgrown : bytes <+: sized) (hobserves : Observes reader file inv metadata sized scanned mapped)
    (hsound : Sound reader mapped)
    (hrefresh : refreshTranscript crates reader file inv metadata mapped index =
      some refreshed) :
    ∃ row, Holds crates reader file mapped (hasBackgroundLine reader.toLineReader sized)
        refreshed row ∧ row.size = sized.length ∧
      (row.claudeBackground = some (hasBackgroundLine reader.toLineReader sized) ∨
        refreshed = index ∧ row.claudeBackground = none) := by
  obtain ⟨more, rfl⟩ := hobserves.sized_prefix.trans hobserves.scanned_prefix
  have hsoundSized : Sound reader sized := hsound.of_append
  have hcases := transcriptTask_cases inv file metadata index
  have hsize : (transcriptTask inv file metadata index).1.size = sized.length := hobserves.size
  have hsource : (transcriptTask inv file metadata index).1.source = .claude := rfl
  rw [refreshTranscript] at hrefresh
  generalize transcriptTask inv file metadata index = prepared at hcases hsize hsource hrefresh
  obtain ⟨task, skip⟩ := prepared
  dsimp only at hcases hsize hsource hrefresh
  cases hcases with
  | full hfull hreplaced hknown =>
      rw [if_neg Bool.false_ne_true, Option.map_eq_some_iff] at hrefresh
      obtain ⟨output, hparse, rfl⟩ := hrefresh
      have hheld : (if task.deleteFirst then [] else index.records) = [] := by
        obtain hnone | hdelete := hreplaced
        · obtain rfl | ⟨row, background, hholds, -⟩ := htracked
          · simp
          · rw [hholds.row_eq] at hnone
            cases hnone
        · rw [if_pos hdelete]
      have hbackground : task.claudeBackground.getD (hasBackgroundLine reader.toLineReader sized) =
          hasBackgroundLine reader.toLineReader sized := by
        obtain hnone | ⟨hsome, hscan⟩ := hknown
        · rw [hnone, Option.getD_none]
        · rw [hobserves.scan_eq (Nat.zero_le _), List.drop_zero] at hscan
          rw [hsome, Option.getD_some]
          exact (Option.some.inj hscan).symm
      rw [hheld]
      obtain ⟨hholds, hclassified⟩ := holds_parse crates file {} [] hsoundSized hsize hsource
        (hfull.offset ▸ resumable_zero sized) hfull.turnId hfull.pendingToolCalls
        (by rw [if_pos hfull.offset]) (by rw [hfull.offset]; simp) hbackground hparse
      exact ⟨_, hholds, hsize, Or.inl hclassified⟩
  | resumed hprevious hresumed hknown hskip =>
      rename_i row
      obtain rfl | ⟨held, background, hholds, hclassified⟩ := htracked
      · cases hprevious
      · obtain rfl : held = row := by
          rw [hholds.row_eq] at hprevious
          exact Option.some.inj hprevious
        obtain ⟨hknownEq, hbackground⟩ := hknown.getD_eq hobserves hsoundSized hgrown hholds
          hclassified
        have hholdsSized : Holds crates reader file sized
            (hasBackgroundLine reader.toLineReader sized) index held := by
          obtain ⟨grown, rfl⟩ := hgrown
          obtain hzero | rfl := hbackground
          · exact hholds.grow.of_offset_zero hzero
          · exact hholds.grow
        split at hrefresh
        · rename_i hunchanged
          cases hrefresh
          have hsame : held.size = sized.length := by
            rw [← hskip hunchanged, hobserves.size]
          refine ⟨held, hholdsSized.grow, hsame, ?_⟩
          obtain ⟨hnone, -⟩ | ⟨hsome, hfound⟩ := hclassified
          · exact Or.inr ⟨rfl, hnone⟩
          · have hall : bytes = sized := by
              apply hgrown.eq_of_length_le
              rw [← hsame]
              exact hholds.size_le
            rw [hsome, hfound, hsame, hall, List.take_length]
            exact Or.inl rfl
        · rw [Option.map_eq_some_iff] at hrefresh
          obtain ⟨output, hparse, rfl⟩ := hrefresh
          rw [if_neg (by simp [hresumed.kept])]
          obtain ⟨legacyTurnId, hlegacy, hfed⟩ := hholdsSized.fed
          have hordinal : (if task.offset = 0 then some 0 else task.legacyTurnId) =
              some legacyTurnId := by
            split
            · rename_i hzero
              rw [← hresumed.offset, hzero, List.take_zero, LineReader.rowsFrom_nil, feed_nil]
                at hfed
              have hnumbering := congrArg (fun fed => fed.1.legacyTurnId) hfed
              exact congrArg some hnumbering.symm
            · rename_i hpos
              rw [hresumed.legacyTurnId (Nat.pos_of_ne_zero (hresumed.offset ▸ hpos)), hlegacy]
          obtain ⟨hparsed, hnow⟩ := holds_parse crates file _ _ hsoundSized hsize hsource
            (hresumed.offset ▸ hholdsSized.stops) hresumed.turnId hresumed.pendingToolCalls hordinal
            (hresumed.offset ▸ hfed) hknownEq hparse
          exact ⟨_, hparsed, hsize, Or.inl hnow⟩

theorem Reaches.tracked {bytes : Bytes} {index : IndexedTranscript}
    (h : Reaches crates reader file bytes index) (hsound : Sound reader bytes) :
    Tracked crates reader file bytes index := by
  induction h with
  | unknown => exact Or.inl rfl
  | untracked hholds huntracked =>
      exact Or.inr ⟨_, false, hholds, Or.inl ⟨huntracked, rfl⟩⟩
  | refresh hreaches hgrown hobserves hrefresh ih =>
      rename_i bytes sized scanned mapped index refreshed inv metadata
      obtain ⟨more, rfl⟩ := hobserves.sized_prefix.trans hobserves.scanned_prefix
      obtain ⟨grown, rfl⟩ := hgrown
      have htracked := ih hsound.of_append.of_append
      obtain ⟨row, hholds, hsize, hclassified | ⟨rfl, hnone⟩⟩ :=
        refresh_holds htracked (List.prefix_append _ _) hobserves hsound hrefresh
      · refine Or.inr ⟨row, _, hholds, Or.inr ⟨hclassified, ?_⟩⟩
        rw [hsize, List.take_left]
      · obtain rfl | ⟨held, background, hheld, hold⟩ := htracked
        · exact Or.inl rfl
        · obtain rfl : held = row := by
            have heq := hheld.row_eq
            rw [hholds.row_eq] at heq
            exact (Option.some.inj heq).symm
          obtain ⟨-, rfl⟩ | ⟨hsome, -⟩ := hold
          · exact Or.inr ⟨held, false, hheld.grow.grow, Or.inl ⟨hnone, rfl⟩⟩
          · rw [hnone] at hsome
            cases hsome

/-- What discovery saw is indexed: every whole line of it once, by one parse of the bytes
before the offset, under the classification of all it saw. That is the one of the parsed
bytes unless the unterminated tail behind them is a marker. -/
structure ReadOnce (crates : Crates) (reader : TranscriptReader) (file : TranscriptFile)
    (sized : Bytes) (index : IndexedTranscript) (row : FileState) : Prop where
  row_eq : index.row = some row
  size_eq : row.size = sized.length
  offset_le : row.offset ≤ row.size
  whole_lines : newline ∉ sized.drop row.offset
  records_eq : index.records = (parseIndexRecordsWithBackground crates reader file
    (sized.take row.offset) 0 {} (some (hasBackgroundLine reader.toLineReader sized))
      row.offset).records
  marked_iff : hasBackgroundLine reader.toLineReader sized =
    (hasBackgroundLine reader.toLineReader (sized.take row.offset) ||
      (reader.read (sized.drop row.offset)).any isBackgroundMarker)
  classified : row.claudeBackground = none ∨
    row.claudeBackground = some (hasBackgroundLine reader.toLineReader sized)

theorem Holds.readOnce {sized more : Bytes} {index : IndexedTranscript} {row : FileState}
    (h : Holds crates reader file (sized ++ more) (hasBackgroundLine reader.toLineReader sized)
      index row) (hsound : Sound reader sized) (hsize : row.size = sized.length)
    (hclassified : row.claudeBackground = none ∨
      row.claudeBackground = some (hasBackgroundLine reader.toLineReader sized)) :
    ReadOnce crates reader file sized index row := by
  have hoffset : row.offset ≤ sized.length := hsize ▸ h.offset_le
  have hlength : (sized.take row.offset).length = row.offset := by
    rw [List.length_take, Nat.min_eq_left hoffset]
  have hcomplete : newline ∉ sized.drop row.offset := by
    have hsized := h.complete
    rwa [hsize, List.take_left] at hsized
  have hstops : Resumable (Consumed reader) sized row.offset := by
    have hresumable := h.stops.take hoffset
    rwa [List.take_left] at hresumable
  constructor
  · exact h.row_eq
  · exact hsize
  · exact h.offset_le
  · exact hcomplete
  · obtain ⟨legacyTurnId, -, hfed⟩ := h.fed
    rw [List.take_append_of_le_length hoffset] at hfed
    have hbatch := records_parse_all crates reader file (sized.take row.offset)
      (some (hasBackgroundLine reader.toLineReader sized))
    rw [hlength] at hbatch
    rw [hbatch]
    exact congrArg Prod.snd hfed
  · have htail : hasBackgroundLine reader.toLineReader (sized.drop row.offset) =
        (reader.read (sized.drop row.offset)).any isBackgroundMarker := by
      rw [hasBackgroundLine, List.splitOn_eq_singleton hcomplete, List.any_cons, List.any_nil,
        Bool.or_false]
    rw [← htail]
    exact hasBackgroundLine_split hsound hstops
  · exact hclassified

/-- A marker that appears behind records of an interactive session makes the refresh
read the transcript from its start, in place of those records. -/
theorem transcriptTask_replays {bytes sized scanned mapped : Bytes} {index : IndexedTranscript}
    {inv : Inventory} {metadata : Metadata} {old : FileState}
    (htracked : Tracked crates reader file bytes index) (hgrown : bytes <+: sized)
    (hobserves : Observes reader file inv metadata sized scanned mapped)
    (hsound : Sound reader sized) (hold : index.row = some old)
    (hunmarked : old.claudeBackground ≠ some true)
    (hmarker : hasBackgroundLine reader.toLineReader sized = true) :
    let prepared := transcriptTask inv file metadata index
    prepared.1.offset = 0 ∧
      (0 < old.offset → prepared.1.deleteFirst = true ∧ prepared.2 = false) := by
  have hcases := transcriptTask_cases inv file metadata index
  generalize transcriptTask inv file metadata index = prepared at hcases
  obtain ⟨task, skip⟩ := prepared
  dsimp only at hcases ⊢
  cases hcases with
  | full hfull hreplaced hknown =>
      refine ⟨hfull.offset, fun _ => ⟨?_, rfl⟩⟩
      obtain hnone | hdelete := hreplaced
      · rw [hold] at hnone
        cases hnone
      · exact hdelete
  | resumed hprevious hresumed hknown hskip =>
      obtain rfl | ⟨held, background, hholds, hclassified⟩ := htracked
      · cases hprevious
      · obtain rfl := Option.some.inj (hprevious.symm.trans hold)
        obtain rfl := Option.some.inj (hholds.row_eq.symm.trans hold)
        have hbackground := (hknown.getD_eq hobserves hsound hgrown hholds hclassified).2
        have hzero : held.offset = 0 := by
          refine hbackground.resolve_right fun hmarked => ?_
          rw [hmarker] at hmarked
          subst hmarked
          obtain ⟨-, hfalse⟩ | ⟨hsome, -⟩ := hclassified
          · cases hfalse
          · exact hunmarked hsome
        refine ⟨hresumed.offset.trans hzero, fun hpos => ?_⟩
        omega

/-! ## Two histories -/

/-- The answers of discovery to a transcript that holds the bytes. -/
def seenInventory (reader : TranscriptReader) (bytes : Bytes) : Inventory where
  hasBackgroundSessionKindSince _ offset byteBoundary :=
    some (hasBackgroundSessionKindSince reader.toLineReader bytes offset byteBoundary)

theorem observes_seen {sized mapped : Bytes} (h : sized <+: mapped) :
    Observes reader file (seenInventory reader sized) { len := sized.length } sized sized mapped :=
  ⟨rfl, fun _ _ => rfl, List.prefix_rfl, h⟩

def interactiveEntry : Json :=
  .object [("type", .string "user"), ("message", .object [("content", .string "hi")])]

def backgroundMarker : Json :=
  .object [("sessionKind", .string "bg")]

/-- A reader that knows the entry and the marker. -/
def entryReader : TranscriptReader :=
  listedTranscripts [interactiveEntry, backgroundMarker]

def entryFile : TranscriptFile :=
  ⟨"/c/s.jsonl", "p", false⟩

def entryText : Bytes :=
  asciiBytes interactiveEntry.compact

def entryLine : Bytes :=
  entryText ++ [newline]

def markerText : Bytes :=
  asciiBytes backgroundMarker.compact

/-- What a refresh leaves when discovery saw the first bytes and the parser maps the
second. -/
def indexAfter (sized mapped : Bytes) (index : IndexedTranscript) : IndexedTranscript :=
  (refreshTranscript plainCrates entryReader entryFile (seenInventory entryReader sized)
    { len := sized.length } mapped index).getD {}

theorem sound_entries : Sound entryReader (entryLine ++ markerText ++ [newline]) := by
  apply sound_of_lines
  simp only [entryReader, listedTranscripts, listedReader, entryLine, entryText, markerText,
    asciiBytes, toList_compact]
  decide +kernel

/-- A refresh leaves every whole line that discovery saw indexed once, under one
classification, and a later marker makes it read the transcript again. -/
theorem claude_transcript_read_once {bytes sized scanned mapped : Bytes}
    {index refreshed : IndexedTranscript} {inv : Inventory} {metadata : Metadata}
    (hreaches : Reaches crates reader file bytes index) (hgrown : bytes <+: sized)
    (hobserves : Observes reader file inv metadata sized scanned mapped)
    (hsound : Sound reader mapped)
    (hrefresh : refreshTranscript crates reader file inv metadata mapped index =
      some refreshed) :
    (∃ row, ReadOnce crates reader file sized refreshed row) ∧
      ∀ old, index.row = some old → old.claudeBackground ≠ some true →
        hasBackgroundLine reader.toLineReader sized = true →
          (transcriptTask inv file metadata index).1.offset = 0 ∧
            (0 < old.offset → (transcriptTask inv file metadata index).1.deleteFirst = true ∧
              (transcriptTask inv file metadata index).2 = false) := by
  obtain ⟨more, hmapped⟩ := hobserves.sized_prefix.trans hobserves.scanned_prefix
  have hsoundSized : Sound reader sized := (hmapped ▸ hsound).of_append
  have htracked : Tracked crates reader file bytes index := by
    obtain ⟨grown, hgrown⟩ := hgrown
    exact hreaches.tracked (hgrown ▸ hsoundSized).of_append
  constructor
  · obtain ⟨row, hholds, hsize, hclassified⟩ :=
      refresh_holds htracked hgrown hobserves hsound hrefresh
    rw [← hmapped] at hholds
    exact ⟨row, hholds.readOnce hsoundSized hsize (hclassified.symm.imp And.right id)⟩
  · intro old hold hunmarked hmarker
    exact transcriptTask_replays htracked hgrown hobserves hsoundSized hold hunmarked hmarker

/-- The transcript of an indexed entry gets a marker. -/
theorem claude_transcript_read_once_marker :
    (∃ row, ReadOnce plainCrates entryReader entryFile (entryLine ++ markerText)
        (indexAfter (entryLine ++ markerText) (entryLine ++ markerText)
          (indexAfter entryLine entryLine {})) row) ∧
      ∀ old, (indexAfter entryLine entryLine {}).row = some old →
        old.claudeBackground ≠ some true →
        hasBackgroundLine entryReader.toLineReader (entryLine ++ markerText) = true →
          (transcriptTask (seenInventory entryReader (entryLine ++ markerText)) entryFile
              { len := (entryLine ++ markerText).length }
              (indexAfter entryLine entryLine {})).1.offset = 0 ∧
            (0 < old.offset →
              (transcriptTask (seenInventory entryReader (entryLine ++ markerText)) entryFile
                { len := (entryLine ++ markerText).length }
                (indexAfter entryLine entryLine {})).1.deleteFirst = true ∧
              (transcriptTask (seenInventory entryReader (entryLine ++ markerText)) entryFile
                { len := (entryLine ++ markerText).length }
                (indexAfter entryLine entryLine {})).2 = false) :=
  claude_transcript_read_once
    (Reaches.refresh Reaches.unknown (List.nil_prefix) (observes_seen List.prefix_rfl)
      (by decide +kernel))
    (List.prefix_append _ _) (observes_seen List.prefix_rfl) sound_entries.of_append
    (by decide +kernel)

/-- A marker that stands unterminated when discovery looks marks the records of the bytes
before it, although a run over these bytes alone takes them for interactive. And an entry
that was read before another one followed on its line is none of a batch parse. -/
theorem claude_prefix_classification_diverges :
    (∃ mapped index, Reaches plainCrates entryReader entryFile mapped index ∧
        Sound entryReader mapped ∧ (index.row.any fun row => index.records ≠
          (parseIndexRecordsWithBackground plainCrates entryReader entryFile
            (mapped.take row.offset) 0 {} none row.offset).records) = true) ∧
      ∃ mapped index, Reaches plainCrates entryReader entryFile mapped index ∧
        hasBackgroundLine entryReader.toLineReader mapped = false ∧
        (index.row.any fun row => index.records ≠
          (parseIndexRecordsWithBackground plainCrates entryReader entryFile
            (mapped.take row.offset) 0 {} none row.offset).records) = true := by
  constructor
  · refine ⟨entryLine ++ markerText ++ [newline],
      indexAfter (entryLine ++ markerText) (entryLine ++ markerText ++ [newline]) {},
      Reaches.refresh Reaches.unknown List.nil_prefix (observes_seen (List.prefix_append _ _))
        (by decide +kernel), sound_entries, by decide +kernel⟩
  · have hfirst : Reaches plainCrates entryReader entryFile entryText
        (indexAfter entryText entryText {}) :=
      Reaches.refresh Reaches.unknown List.nil_prefix (observes_seen List.prefix_rfl)
        (by decide +kernel)
    refine ⟨entryText ++ entryLine,
      indexAfter (entryText ++ entryLine) (entryText ++ entryLine)
        (indexAfter entryText entryText {}),
      Reaches.refresh hfirst (List.prefix_append _ _) (observes_seen List.prefix_rfl)
        (by decide +kernel), by decide +kernel, by decide +kernel⟩

end Memex.Ingest
