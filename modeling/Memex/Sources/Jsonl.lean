import Memex.Lib.HeaderMachine
import Memex.Sources.Json

/-! # Resumed JSONL parsing

`sources/jsonl.rs` and the loop the JSONL parsers share: the file is mapped, the
loop starts at the resume offset of the returned state, and an unterminated
line that does not read is left for the next run. -/

namespace Memex.Sources

open Overlay State LineStream

/-- Where the last line of the bytes starts: behind the last newline. -/
def lineStart (bytes : Bytes) : Nat :=
  bytes.length - (bytes.reverse.takeWhile (· != newline)).length

/-- A run resumes at the saved offset, or at the start of its line when what
stands before the offset on that line is no JSON value. -/
def resumeOffset (bytes : Bytes) (offset : Nat) (validJson : Bytes → Bool) : Nat :=
  let offset := min offset bytes.length
  if offset = 0 || bytes[offset - 1]? = some newline then offset
  else
    let lineStart := lineStart (bytes.take offset)
    if validJson ((bytes.take offset).drop lineStart) then offset else lineStart

/-- Where the loop stopped, with what it carries and what it emitted. -/
structure Scanned (σ ρ : Type*) where
  offset : Nat
  state : σ
  emitted : List ρ

/-- The loop over the lines of the mapped bytes behind `start`. Empty lines and lines
that do not read are skipped; an unterminated line may be left for the next run. -/
def scan {V σ ρ : Type*} (reader : LineReader V) (leave : Bytes → Bool)
    (step : σ → Nat × V → σ × List ρ) : Nat → Nat → Bytes → σ → Scanned σ ρ
  | 0, start, _, state => ⟨start, state, []⟩
  | fuel + 1, start, slice, state =>
      if slice = [] then ⟨start, state, []⟩
      else
        let line := slice.takeWhile (· != newline)
        let terminated : Bool := line.length < slice.length
        let next := start + line.length + (if terminated then 1 else 0)
        let rest := slice.drop (line.length + 1)
        if !terminated && leave line then ⟨start, state, []⟩
        else if line = [] then scan reader leave step fuel next rest state
        else match reader.read line with
          | none => scan reader leave step fuel next rest state
          | some value =>
              let taken := step state (start, value)
              let later := scan reader leave step fuel next rest taken.1
              ⟨later.offset, later.state, taken.2 ++ later.emitted⟩

theorem lineStart_append {head tail : Bytes} (hhead : Aligned head) (htail : newline ∉ tail) :
    lineStart (head ++ tail) = head.length := by
  have htake : (head ++ tail).reverse.takeWhile (· != newline) = tail.reverse := by
    have hall : ∀ byte ∈ tail.reverse, (byte != newline) = true := by
      intro byte hbyte
      have hne : byte ≠ newline := fun h => htail (h ▸ List.mem_reverse.mp hbyte)
      simpa using hne
    rw [List.reverse_append, List.takeWhile_append_of_pos hall]
    obtain rfl | ⟨lines, rfl⟩ := hhead
    · simp
    · simp
  rw [lineStart, htake, List.length_append, List.length_reverse]
  omega

/-- A resumable offset is where the next run goes on. -/
theorem resumeOffset_eq {V : Type*} {reader : LineReader V} {bytes : Bytes} {offset : Nat}
    (h : Resumable reader.Reads bytes offset) :
    resumeOffset bytes offset (fun line => (reader.read line).isSome) = offset := by
  have hle : offset ≤ bytes.length := h.le_length
  obtain ⟨head, line, rest, rfl, rfl, hhead, hline, hread⟩ := h
  have htake : (head ++ line ++ rest).take (head.length + line.length) = head ++ line := by
    rw [← List.length_append, List.take_left']
    rfl
  simp only [resumeOffset, Nat.min_eq_left hle, htake, lineStart_append hhead hline]
  split
  · rfl
  · rename_i hmiddle
    obtain rfl | hsome := hread
    · -- behind whole lines the byte before the offset is a newline
      obtain rfl | ⟨lines, rfl⟩ := hhead
      · simp at hmiddle
      · simp at hmiddle
    · rw [List.drop_left' rfl]
      exact if_pos hsome

variable {V σ ρ : Type*} {reader : LineReader V} {leave : Bytes → Bool}
  {step : σ → Nat × V → σ × List ρ}

/-- One turn of the loop over a line that a newline ends. -/
theorem scan_line (fuel start : Nat) {line : Bytes} (hline : newline ∉ line) (more : Bytes)
    (state : σ) :
    scan reader leave step (fuel + 1) start (line ++ newline :: more) state =
      let taken := HeaderMachine.run step state (reader.rowsFrom start line)
      let later := scan reader leave step fuel (start + line.length + 1) more taken.1
      ⟨later.offset, later.state, taken.2 ++ later.emitted⟩ := by
  have htake := takeWhile_line hline (Or.inr ⟨more, rfl⟩)
  have hdrop : (line ++ newline :: more).drop (line.length + 1) = more := by simp
  have hterminated : decide (line.length < (line ++ newline :: more).length) = true := by simp
  have hne : line ++ newline :: more ≠ [] := by simp
  rw [scan, if_neg hne]
  simp only [htake, hdrop, hterminated, if_true, Bool.not_true, Bool.false_and,
    Bool.false_eq_true, if_false, reader.rowsFrom_line start hline]
  split
  · subst line
    simp
  · cases hread : reader.read line with
    | none => simp
    | some value => simp [HeaderMachine.run_cons]

theorem scan_nil (fuel start : Nat) (state : σ) :
    scan reader leave step fuel start [] state = ⟨start, state, []⟩ := by
  cases fuel with
  | zero => rfl
  | succ fuel => rw [scan, if_pos rfl]

/-- The last turn of the loop, over a line without a newline. -/
theorem scan_tail (fuel start : Nat) {tail : Bytes} (htail : newline ∉ tail) (hne : tail ≠ [])
    (state : σ) :
    scan reader leave step (fuel + 1) start tail state =
      if leave tail then ⟨start, state, []⟩
      else
        let taken := HeaderMachine.run step state (reader.rowsFrom start tail)
        ⟨start + tail.length, taken.1, taken.2⟩ := by
  have htake : tail.takeWhile (· != newline) = tail := by
    simpa using takeWhile_line htail (Or.inl rfl)
  have hdrop : tail.drop (tail.length + 1) = [] := by simp
  rw [scan, if_neg hne]
  simp only [htake, hdrop, lt_irrefl, decide_false, if_neg hne, scan_nil, Bool.not_false,
    Bool.true_and, reader.rowsFrom_line start htail]
  split
  · rfl
  · cases hread : reader.read tail with
    | none => simp
    | some value => simp [HeaderMachine.run_cons]

variable (reader leave step) in
/-- The loop feeds every row to the step, up to the end or to an unterminated line that
it leaves. -/
theorem scan_spec (fuel start : Nat) (slice : Bytes) (state : σ) (hfuel : slice.length ≤ fuel) :
    let result := scan reader leave step fuel start slice state
    ∃ whole tail, slice = whole ++ tail ∧ Aligned whole ∧ newline ∉ tail ∧
      ((result.offset = start + slice.length ∧ (tail = [] ∨ leave tail = false) ∧
          (result.state, result.emitted) =
            HeaderMachine.run step state (reader.rowsFrom start slice)) ∨
        (result.offset = start + whole.length ∧ leave tail = true ∧
          (result.state, result.emitted) =
            HeaderMachine.run step state (reader.rowsFrom start whole))) := by
  induction fuel generalizing start slice state with
  | zero =>
      have hslice : slice = [] := List.length_eq_zero_iff.mp (Nat.le_zero.mp hfuel)
      subst hslice
      exact ⟨[], [], rfl, aligned_nil, List.not_mem_nil, Or.inl ⟨rfl, Or.inl rfl, by simp [scan]⟩⟩
  | succ fuel ih =>
      obtain ⟨line, rest, rfl, hline, hrest⟩ := exists_line_append slice
      obtain rfl | ⟨more, rfl⟩ := hrest
      · rw [List.append_nil]
        by_cases hne : line = []
        · subst hne
          exact ⟨[], [], rfl, aligned_nil, List.not_mem_nil,
            Or.inl ⟨by simp [scan], Or.inl rfl, by simp [scan]⟩⟩
        · rw [scan_tail fuel start hline hne]
          refine ⟨[], line, rfl, aligned_nil, hline, ?_⟩
          cases hleave : leave line with
          | true => exact Or.inr ⟨by simp, rfl, by simp⟩
          | false => exact Or.inl ⟨by simp, Or.inr rfl, by simp⟩
      · rw [scan_line fuel start hline]
        have hlater := ih (start + line.length + 1) more
          (HeaderMachine.run step state (reader.rowsFrom start line)).1 (by
            simp only [List.length_append, List.length_cons] at hfuel
            omega)
        dsimp only at hlater ⊢
        obtain ⟨whole, tail, hmore, hwhole, htail, houtcome⟩ := hlater
        have haligned : Aligned (line ++ newline :: whole) := by
          simpa using (aligned_append_newline line).append hwhole
        refine ⟨line ++ newline :: whole, tail, by simp [hmore], haligned, htail, ?_⟩
        simp only [List.length_append, List.length_cons]
        obtain ⟨hend, hconsumed, hrun⟩ | ⟨hstop, hleft, hrun⟩ := houtcome
        · refine Or.inl ⟨by omega, hconsumed, ?_⟩
          rw [LineReader.rowsFrom_append_newline, HeaderMachine.run_append, ← hrun]
        · refine Or.inr ⟨by omega, hleft, ?_⟩
          rw [LineReader.rowsFrom_append_newline, HeaderMachine.run_append, ← hrun]

variable (reader leave) in
/-- The rows that the loop feeds do not depend on what a row does, and stand on different lines. -/
theorem exists_scan_rows (fuel start : Nat) (slice : Bytes) :
    ∃ rows : List (Nat × V), rows.Pairwise (fun row later => row.1 < later.1) ∧
      (∀ row ∈ rows, start ≤ row.1) ∧
      ∀ (σ ρ : Type) (step : σ → Nat × V → σ × List ρ) (state : σ),
        ((scan reader leave step fuel start slice state).state,
            (scan reader leave step fuel start slice state).emitted) =
          HeaderMachine.run step state rows := by
  induction fuel generalizing start slice with
  | zero => exact ⟨[], List.Pairwise.nil, fun _ h => absurd h List.not_mem_nil, fun _ _ _ _ => rfl⟩
  | succ fuel ih =>
      by_cases hslice : slice = []
      · refine ⟨[], List.Pairwise.nil, fun _ h => absurd h List.not_mem_nil, ?_⟩
        intro σ ρ step state
        rw [scan, if_pos hslice]
        rfl
      · generalize hline : slice.takeWhile (· != newline) = line
        generalize hterminated : decide (line.length < slice.length) = terminated
        by_cases hleave : (!terminated && leave line) = true
        · refine ⟨[], List.Pairwise.nil, fun _ h => absurd h List.not_mem_nil, ?_⟩
          intro σ ρ step state
          rw [scan, if_neg hslice]
          simp only [hline, hterminated, if_pos hleave, HeaderMachine.run_nil]
        · obtain ⟨rows, hrows, hstart, hrun⟩ :=
            ih (start + line.length + if terminated then 1 else 0) (slice.drop (line.length + 1))
          by_cases hempty : line = []
          · refine ⟨rows, hrows, fun row hrow => ?_, ?_⟩
            · have hle := hstart row hrow
              omega
            · intro σ ρ step state
              rw [scan, if_neg hslice]
              simp only [hline, hterminated, if_neg hleave, if_pos hempty]
              exact hrun σ ρ step state
          · have hpos : 0 < line.length := List.length_pos_of_ne_nil hempty
            cases hread : reader.read line with
            | none =>
                refine ⟨rows, hrows, fun row hrow => ?_, ?_⟩
                · have hle := hstart row hrow
                  omega
                · intro σ ρ step state
                  rw [scan, if_neg hslice]
                  simp only [hline, hterminated, if_neg hleave, if_neg hempty, hread]
                  exact hrun σ ρ step state
            | some value =>
                refine ⟨(start, value) :: rows, List.pairwise_cons.mpr ⟨fun row hrow => ?_, hrows⟩,
                  fun row hrow => ?_, ?_⟩
                · have hle := hstart row hrow
                  dsimp only
                  omega
                · rcases List.mem_cons.mp hrow with rfl | hrow
                  · exact le_refl _
                  · have hle := hstart row hrow
                    omega
                · intro σ ρ step state
                  rw [scan, if_neg hslice]
                  simp only [hline, hterminated, if_neg hleave, if_neg hempty, hread]
                  rw [HeaderMachine.run_cons, ← hrun σ ρ step (step state (start, value)).1]

/-- `IndexParseState`: what a run hands to the next one. Parsers that number their
records with a legacy ordinal carry it as well. -/
structure IndexParseState (C : Type*) where
  carried : C
  offset : Nat := 0

/-- `IndexParseOutput`, with the records the run emitted. -/
structure IndexParseOutput (C : Type*) extends IndexParseState C where
  sessionId : Option String
  records : List Record

/-- The records of a transcript that grows chunk by chunk, when every chunk is
parsed from the state the run before it returned. -/
def appendRecords {C : Type*} (parse : Bytes → IndexParseState C → IndexParseOutput C) :
    Bytes → IndexParseState C → List Bytes → List Record
  | _, _, [] => []
  | bytes, state, chunk :: rest =>
      let output := parse (bytes ++ chunk) state
      output.records ++ appendRecords parse (bytes ++ chunk) output.toIndexParseState rest

/-- A JSONL parser: how it reads a line, what a row does, and the header a run
rebuilds before it starts at an offset. The rebuilt header is a function of the
rows before the offset. -/
structure ResumedParser (V H C : Type*) where
  reader : LineReader V
  machine : HeaderMachine (Nat × V) H C Record
  sessionId : H → String
  recover : Bytes → Nat → H
  resume : List (Nat × V) → H
  recover_eq : ∀ bytes offset, reader.Clean bytes → Resumable reader.Reads bytes offset →
    recover bytes offset = resume (reader.rowsFrom 0 (bytes.take offset))

namespace ResumedParser

variable {V H C : Type*} (parser : ResumedParser V H C)

/-- One run of the parser over the mapped file. A torn tail is left until it reads. -/
def parse (bytes : Bytes) (state : IndexParseState C) : IndexParseOutput C :=
  let start := resumeOffset bytes state.offset fun line => (parser.reader.read line).isSome
  let scanned := scan parser.reader (fun tail => (parser.reader.read tail).isNone)
    parser.machine.step bytes.length start (bytes.drop start)
    (parser.recover bytes start, state.carried)
  { carried := scanned.state.2
    offset := scanned.offset
    sessionId := some (parser.sessionId scanned.state.1)
    records := scanned.emitted }

/-- An offset behind every row of the file. -/
def Settled (bytes : Bytes) (offset : Nat) : Prop :=
  Resumable parser.reader.Reads bytes offset ∧
    parser.reader.rows (bytes.take offset) = parser.reader.rows bytes

theorem settled_nil : parser.Settled [] 0 :=
  ⟨resumable_zero [], rfl⟩

/-- A run over a grown file reads the new rows from the rebuilt header, and settles. -/
theorem parse_spec (bytes chunk : Bytes) (state : IndexParseState C)
    (hclean : parser.reader.Clean (bytes ++ chunk)) (h : parser.Settled bytes state.offset) :
    let output := parser.parse (bytes ++ chunk) state
    let fed := HeaderMachine.run parser.machine.step
      (parser.resume (parser.reader.rows bytes), state.carried)
      (parser.reader.freshRows bytes chunk)
    parser.reader.rows (bytes ++ chunk) =
        parser.reader.rows bytes ++ parser.reader.freshRows bytes chunk ∧
      parser.Settled (bytes ++ chunk) output.offset ∧
      output.carried = fed.1.2 ∧ output.records = fed.2 := by
  obtain ⟨hresumable, hrows⟩ := h
  have hsettles := hclean.settles
  have hgrown := hresumable.append chunk
  have htake : (bytes ++ chunk).take state.offset = bytes.take state.offset := by
    rw [List.take_append_of_le_length hresumable.le_length]
  have hheader : parser.recover (bytes ++ chunk) state.offset =
      parser.resume (parser.reader.rows bytes) := by
    rw [parser.recover_eq _ _ hclean hgrown, htake]
    exact congrArg parser.resume hrows
  have hsplit : parser.reader.rows (bytes ++ chunk) = parser.reader.rows bytes ++
      parser.reader.rowsFrom state.offset ((bytes ++ chunk).drop state.offset) := by
    have hapart := hsettles.rowsFrom_eq hgrown 0
    rw [htake, Nat.zero_add] at hapart
    rw [← hrows]
    exact hapart
  have hfresh : parser.reader.freshRows bytes chunk =
      parser.reader.rowsFrom state.offset ((bytes ++ chunk).drop state.offset) := by
    rw [LineReader.freshRows, hsplit, List.drop_left' rfl]
  have hscan := scan_spec parser.reader (fun tail => (parser.reader.read tail).isNone)
    parser.machine.step (bytes ++ chunk).length state.offset ((bytes ++ chunk).drop state.offset)
    (parser.resume (parser.reader.rows bytes), state.carried) (by simp)
  simp only [parse, resumeOffset_eq hgrown, hheader]
  rw [hfresh]
  generalize scan _ _ _ _ _ _ _ = scanned at hscan
  obtain ⟨whole, tail, hdrop, hwhole, htail, houtcome⟩ := hscan
  have hlength : state.offset + ((bytes ++ chunk).drop state.offset).length =
      (bytes ++ chunk).length := by
    have hle := hgrown.le_length
    rw [List.length_drop]
    omega
  obtain ⟨hend, hread, hrun⟩ | ⟨hstop, hleft, hrun⟩ := houtcome
  · refine ⟨hsplit, ?_, congrArg (·.1.2) hrun, congrArg Prod.snd hrun⟩
    have hpiece : tail = [] ∨ parser.reader.Reads tail := by
      refine hread.imp_right fun hsome => ?_
      simpa [LineReader.Reads] using hsome
    rw [hend, hlength]
    exact ⟨hsettles.resumable_end hgrown hdrop hwhole htail hpiece, by rw [List.take_length]⟩
  · have hnone : parser.reader.read tail = none := Option.isNone_iff_eq_none.mp hleft
    have htailRows : ∀ start, parser.reader.rowsFrom start tail = [] := by
      intro start
      rw [LineReader.rowsFrom_line _ _ htail, hnone]
      rfl
    rw [hdrop, LineReader.rowsFrom_aligned _ hwhole, htailRows, List.append_nil]
    refine ⟨?_, ?_, congrArg (·.1.2) hrun, congrArg Prod.snd hrun⟩
    · rw [hsplit, hdrop, LineReader.rowsFrom_aligned _ hwhole, htailRows, List.append_nil]
    · rw [hstop]
      have hmoved := hgrown.lines hdrop hwhole
      refine ⟨hmoved, ?_⟩
      have hrest : (bytes ++ chunk).drop (state.offset + whole.length) = tail := by
        rw [← List.drop_drop, hdrop, List.drop_left' rfl]
      have hapart := hsettles.rowsFrom_eq hmoved 0
      rw [hrest, htailRows, List.append_nil] at hapart
      exact hapart.symm

/-- The segments of an interrupted run: one for each chunk. -/
def segments : Bytes → List Bytes → List (H × List (Nat × V))
  | _, [] => []
  | bytes, chunk :: rest =>
      (parser.resume (parser.reader.rows bytes), parser.reader.freshRows bytes chunk) ::
        segments (bytes ++ chunk) rest

theorem appendRecords_eq (bytes : Bytes) (state : IndexParseState C) {chunks : List Bytes}
    (hclean : parser.reader.Clean (bytes ++ chunks.flatten))
    (h : parser.Settled bytes state.offset) :
    appendRecords parser.parse bytes state chunks =
        parser.machine.replay state.carried (parser.segments bytes chunks) ∧
      parser.reader.rows (bytes ++ chunks.flatten) =
        parser.reader.rows bytes ++ HeaderMachine.joined (parser.segments bytes chunks) := by
  induction chunks generalizing bytes state with
  | nil => simp [appendRecords, segments, HeaderMachine.replay, HeaderMachine.joined]
  | cons chunk rest ih =>
      have hflatten : bytes ++ (chunk :: rest).flatten = bytes ++ chunk ++ rest.flatten := by simp
      rw [hflatten] at hclean
      obtain ⟨hrows, hsettled, hcarried, hrecords⟩ := parser.parse_spec _ _ _ hclean.of_append h
      obtain ⟨hlater, hjoined⟩ := ih _ _ hclean hsettled
      constructor
      · simp only [appendRecords, segments, HeaderMachine.replay]
        rw [hlater, hcarried, hrecords]
      · rw [hflatten, hjoined, hrows, List.append_assoc]
        rfl

theorem segments_append (bytes : Bytes) (before rest : List Bytes) :
    parser.segments bytes (before ++ rest) =
      parser.segments bytes before ++ parser.segments (bytes ++ before.flatten) rest := by
  induction before generalizing bytes with
  | nil => simp [segments]
  | cons chunk before ih => simp [segments, ih]

theorem segments_split {bytes : Bytes} {chunks : List Bytes}
    {before after : List (H × List (Nat × V))} {segment : H × List (Nat × V)}
    (h : parser.segments bytes chunks = before ++ segment :: after) :
    ∃ earlier chunk later, chunks = earlier ++ chunk :: later ∧
      before = parser.segments bytes earlier ∧
      segment = (parser.resume (parser.reader.rows (bytes ++ earlier.flatten)),
        parser.reader.freshRows (bytes ++ earlier.flatten) chunk) := by
  induction chunks generalizing bytes before with
  | nil => simp [segments] at h
  | cons chunk rest ih =>
      cases before with
      | nil =>
          obtain ⟨hsegment, -⟩ := List.cons.inj h
          exact ⟨[], chunk, rest, rfl, rfl, by simpa using hsegment.symm⟩
      | cons first before =>
          obtain ⟨hfirst, htail⟩ := List.cons.inj h
          obtain ⟨earlier, next, later, rfl, hbefore, hsegment⟩ := ih htail
          refine ⟨chunk :: earlier, next, later, rfl, ?_, ?_⟩
          · rw [segments, hfirst, ← hbefore]
          · simpa using hsegment

/-- Every row a chunk adds sees the rebuilt header as it sees the true one. -/
def HeaderHolds (chunks : List Bytes) : Prop :=
  ∀ (before : List Bytes) chunk after, chunks = before ++ chunk :: after →
    parser.machine.Agrees (parser.resume (parser.reader.rows before.flatten))
      (parser.machine.advanceAll (parser.resume []) (parser.reader.rows before.flatten))
      (parser.reader.freshRows before.flatten chunk)

/-- Parsing append by append emits the records of one parse exactly when the
rebuilt headers hold. -/
theorem appendRecords_eq_parse_iff (carried : C) {chunks : List Bytes}
    (hclean : parser.reader.Clean chunks.flatten) :
    appendRecords parser.parse [] { carried } chunks =
        (parser.parse chunks.flatten { carried }).records ↔
      parser.HeaderHolds chunks := by
  have hnil : parser.reader.rows [] = [] := LineReader.rowsFrom_nil _ 0
  obtain ⟨hincremental, hjoined⟩ := parser.appendRecords_eq [] { carried }
    hclean parser.settled_nil
  obtain ⟨hrows, -, -, hbatch⟩ := parser.parse_spec [] _ { carried }
    hclean parser.settled_nil
  simp only [List.nil_append, hnil] at hjoined hrows hbatch
  rw [hincremental, hbatch, ← hrows, hjoined,
    parser.machine.replay_eq_iff _ (parser.machine.same_refl _)]
  have hstart : ∀ earlier later : List Bytes, chunks = earlier ++ later →
      HeaderMachine.joined (parser.segments [] earlier) = parser.reader.rows earlier.flatten := by
    intro earlier later hchunks
    have hsub : parser.reader.Clean ([] ++ earlier.flatten) := by
      rw [hchunks, List.flatten_append] at hclean
      exact hclean.of_append
    have hpart := (parser.appendRecords_eq [] { carried } hsub parser.settled_nil).2
    simp only [List.nil_append, hnil] at hpart
    exact hpart.symm
  constructor
  · intro hall before chunk after hchunks
    have hsegments : parser.segments [] chunks = parser.segments [] before ++
        (parser.resume (parser.reader.rows before.flatten),
          parser.reader.freshRows before.flatten chunk) ::
          parser.segments (before.flatten ++ chunk) after := by
      rw [hchunks, segments_append]
      simp [segments]
    have hagrees := hall _ _ _ hsegments
    rwa [hstart before _ hchunks] at hagrees
  · intro hholds before segment after hsplit
    obtain ⟨earlier, chunk, later, hchunks, rfl, rfl⟩ := parser.segments_split hsplit
    rw [hstart earlier _ hchunks]
    simpa using hholds earlier chunk later hchunks

end ResumedParser

end Memex.Sources
