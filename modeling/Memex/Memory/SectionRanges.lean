import Memex.Memory.Sections
import Mathlib.Algebra.Order.Group.Nat
import Mathlib.Data.Nat.Digits.Defs

/-! # The sections are the document

The parts of a document are its text, one after the other, and every part knows the lines it comes
from. -/

namespace Memex.Memory

open Boundaries Sources Text

/-- The number of the line that goes on behind a text. -/
def lineAt (done : List Char) : Nat := min (done.count '\n' + 1) maxLine

variable {done part rest line : List Char} {number : Nat}

/-- Within a line the number stays. -/
theorem lineAt_append_of_not_mem (h : '\n' ∉ part) : lineAt (done ++ part) = lineAt done := by
  rw [lineAt, List.count_append, List.count_eq_zero_of_not_mem h, Nat.add_zero, lineAt]

theorem lineAt_mono (done part : List Char) : lineAt done ≤ lineAt (done ++ part) := by
  rw [lineAt, lineAt, List.count_append]
  omega

/-! ## Lines -/

/-- A line, with or without its end. -/
structure IsLine (line : List Char) : Prop where
  ne_nil : line ≠ []
  inside : '\n' ∉ line.dropLast

theorem IsLine.drop (h : IsLine line) {count : Nat} (hlt : count < line.length) :
    IsLine (line.drop count) where
  ne_nil hnil := by
    rw [List.drop_eq_nil_iff] at hnil
    omega
  inside hmem := by
    apply h.inside
    rw [List.dropLast_eq_take, List.length_drop, List.take_drop] at hmem
    have hend : line.length - count - 1 + count = line.length - 1 := by omega
    rw [Nat.add_comm, hend, ← List.dropLast_eq_take] at hmem
    exact List.mem_of_mem_drop hmem

theorem IsLine.not_mem_take (h : IsLine line) {count : Nat} (hlt : count < line.length) :
    '\n' ∉ line.take count := by
  intro hmem
  apply h.inside
  rw [List.dropLast_eq_take]
  exact List.take_subset_take_left line (Nat.le_sub_one_of_lt hlt) hmem

/-- Lines of a text: only the last may be without its end. -/
def Lines : List (List Char) → Prop
  | [] => True
  | line :: rest => IsLine line ∧ (rest ≠ [] → line.count '\n' = 1) ∧ Lines rest

theorem flatten_splitInclusive (content : List Char) :
    (splitInclusive content).flatten = content := by
  induction content with
  | nil => rfl
  | cons symbol rest ih =>
      rw [splitInclusive]
      split
      next => rw [List.flatten_cons, ih, List.singleton_append]
      next =>
        split
        next hnil =>
          rw [hnil, List.flatten_nil] at ih
          rw [← ih]
          rfl
        next line lines hcons =>
          rw [hcons, List.flatten_cons] at ih
          rw [List.flatten_cons, List.cons_append, ih]

theorem lines_splitInclusive (content : List Char) : Lines (splitInclusive content) := by
  induction content with
  | nil => trivial
  | cons symbol rest ih =>
      rw [splitInclusive]
      split
      next hend =>
        refine ⟨⟨List.cons_ne_nil _ _, List.not_mem_nil⟩, fun _ => ?_, ih⟩
        rw [hend]
        rfl
      next hinside =>
        split
        next => exact ⟨⟨List.cons_ne_nil _ _, List.not_mem_nil⟩, fun h => absurd rfl h, trivial⟩
        next line lines hcons =>
          rw [hcons] at ih
          obtain ⟨hline, hcount, hlines⟩ := ih
          refine ⟨⟨List.cons_ne_nil _ _, ?_⟩, fun hne => ?_, hlines⟩
          · rw [List.dropLast_cons_of_ne_nil hline.ne_nil, List.mem_cons, not_or]
            exact ⟨fun hsame => hinside hsame.symm, hline.inside⟩
          · rw [List.count_cons_of_ne hinside, hcount hne]

/-- The numbers are those of the lines behind a text. -/
def Numbered : List Char → List NumberedLine → Prop
  | _, [] => True
  | done, (number, line) :: rest =>
      number = lineAt done ∧ IsLine line ∧ Numbered (done ++ line) rest

/-- The text of numbered lines. -/
def lineText (lines : List NumberedLine) : List Char := lines.flatMap Prod.snd

theorem numbered_append {front back : List NumberedLine} :
    Numbered done (front ++ back) ↔
      Numbered done front ∧ Numbered (done ++ lineText front) back := by
  induction front generalizing done with
  | nil =>
      rw [lineText, List.flatMap_nil, List.append_nil, List.nil_append]
      exact ⟨fun h => ⟨trivial, h⟩, fun h => h.2⟩
  | cons entry rest ih =>
      obtain ⟨number, line⟩ := entry
      rw [List.cons_append, Numbered, Numbered, ih, lineText, lineText, List.flatMap_cons,
        List.append_assoc]
      tauto

theorem numbered_zipIdx {lines : List (List Char)} (h : Lines lines) {index : Nat}
    (hindex : done.count '\n' = index) :
    Numbered done ((lines.zipIdx index).map fun (line, index) =>
      (min (index + 1) maxLine, line)) := by
  induction lines generalizing done index with
  | nil => trivial
  | cons line rest ih =>
      obtain ⟨hline, hcount, hrest⟩ := h
      rw [List.zipIdx_cons, List.map_cons]
      refine ⟨?_, hline, ?_⟩
      · rw [lineAt, hindex]
      · cases rest with
        | nil => trivial
        | cons next rest =>
            apply ih hrest
            rw [List.count_append, hcount (List.cons_ne_nil _ _), hindex]

theorem numbered_numberedLines (content : List Char) : Numbered [] (numberedLines content) :=
  numbered_zipIdx (lines_splitInclusive content) rfl

theorem lineText_numberedLines (content : List Char) :
    lineText (numberedLines content) = content := by
  have hlines : (numberedLines content).map Prod.snd = splitInclusive content := by
    rw [numberedLines, List.map_map]
    exact List.zipIdx_map_fst 0 _
  rw [lineText, List.flatMap_def, hlines, flatten_splitInclusive]

/-! ## Parts -/

/-- A part is of the text behind another one. -/
structure OfText (done : List Char) (chunk : Chunk) : Prop where
  ne_nil : chunk.2.2 ≠ []
  size : chunk.2.2.length ≤ maxMemorySectionChars
  start : chunk.1 = lineAt done
  stop : chunk.2.1 = lineAt (done ++ chunk.2.2.dropLast)

/-- Parts one after the other. -/
def Covers : List Char → List Chunk → Prop
  | _, [] => True
  | done, chunk :: rest => OfText done chunk ∧ Covers (done ++ chunk.2.2) rest

/-- The text of parts. -/
def chunkText (chunks : List Chunk) : List Char := chunks.flatMap fun chunk => chunk.2.2

theorem chunkText_append (front back : List Chunk) :
    chunkText (front ++ back) = chunkText front ++ chunkText back :=
  List.flatMap_append

theorem chunkText_singleton (chunk : Chunk) : chunkText [chunk] = chunk.2.2 :=
  List.flatMap_singleton _ _

theorem covers_append {front back : List Chunk} :
    Covers done (front ++ back) ↔ Covers done front ∧ Covers (done ++ chunkText front) back := by
  induction front generalizing done with
  | nil =>
      rw [chunkText, List.flatMap_nil, List.append_nil, List.nil_append]
      exact ⟨fun h => ⟨trivial, h⟩, fun h => h.2⟩
  | cons chunk rest ih =>
      rw [List.cons_append, Covers, Covers, ih, chunkText, chunkText, List.flatMap_cons,
        List.append_assoc]
      tauto

def Chunker.text (state : Chunker) : List Char := chunkText state.chunks ++ state.chunk

/-- What is complete covers its text, and the growing part knows where it began. -/
structure Chunker.Tracks (done : List Char) (state : Chunker) : Prop where
  chunks : Covers done state.chunks
  size : state.chunk.length ≤ maxMemorySectionChars
  start : state.chunkStart = lineAt (done ++ chunkText state.chunks)
  stop : state.chunk ≠ [] →
    state.chunkEnd = lineAt (done ++ chunkText state.chunks ++ state.chunk.dropLast)

/-- The growing part becomes one of the complete ones. -/
theorem Chunker.Tracks.covers {state : Chunker} (h : state.Tracks done)
    (hne : state.chunk ≠ []) :
    Covers done (state.chunks ++ [(state.chunkStart, state.chunkEnd, state.chunk)]) :=
  covers_append.mpr ⟨h.chunks, ⟨hne, h.size, h.start, h.stop hne⟩, trivial⟩

/-- Room is left in the growing part, and some of the line goes there. -/
theorem Chunker.Tracks.grow {state : Chunker} (h : state.Tracks done)
    (hnumber : number = lineAt (done ++ state.text)) (hne : part ≠ [])
    (hinside : '\n' ∉ part.dropLast)
    (hfits : part.length ≤ maxMemorySectionChars - state.chunk.length) :
    Chunker.Tracks done { state with chunk := state.chunk ++ part, chunkEnd := number } where
  chunks := h.chunks
  size := by
    have hsize := h.size
    rw [List.length_append]
    omega
  start := h.start
  stop _ := by
    rw [List.dropLast_append_of_ne_nil hne, ← List.append_assoc,
      lineAt_append_of_not_mem hinside, hnumber, Chunker.text, List.append_assoc]

/-- After a complete part a new one begins, in the same line. -/
theorem Chunker.Tracks.flush {state : Chunker} (h : state.Tracks done)
    (hne : state.chunk ≠ []) (hnumber : number = lineAt (done ++ state.text)) :
    Chunker.Tracks done
      { chunks := state.chunks ++ [(state.chunkStart, state.chunkEnd, state.chunk)]
        chunk := [], chunkStart := number, chunkEnd := number } where
  chunks := h.covers hne
  size := Nat.zero_le _
  start := by rw [chunkText_append, chunkText_singleton, hnumber, Chunker.text]
  stop hnil := absurd rfl hnil

theorem Chunker.text_flush (state : Chunker) (number : Nat) :
    Chunker.text
      { chunks := state.chunks ++ [(state.chunkStart, state.chunkEnd, state.chunk)]
        chunk := [], chunkStart := number, chunkEnd := number } = state.text := by
  rw [Chunker.text, chunkText_append, chunkText_singleton, List.append_nil, Chunker.text]

/-- A line goes into the parts, and the last of it into the growing one. -/
theorem Chunker.Tracks.push {state : Chunker} (h : state.Tracks done)
    (hnumber : number = lineAt (done ++ state.text)) (hline : IsLine line) :
    (state.push number line).Tracks done ∧
      (state.push number line).text = state.text ++ line ∧
      (state.push number line).chunk ≠ [] := by
  induction state, line using Chunker.push.induct number with
  | case1 state => exact absurd rfl hline.ne_nil
  | case2 state line hne remaining hfull ih =>
      have hchunk : state.chunk ≠ [] := by
        intro hnil
        have hmax : 0 < maxMemorySectionChars := by decide
        simp only [remaining, hnil, List.length_nil] at hfull
        omega
      have hnext := ih (h.flush hchunk hnumber) (by rwa [Chunker.text_flush]) hline
      rw [Chunker.push, if_neg hne, if_pos hfull]
      rwa [Chunker.text_flush] at hnext
  | case3 state line hne remaining hroom hfits =>
      rw [Chunker.push, if_neg hne, if_neg hroom, if_pos hfits]
      refine ⟨h.grow hnumber hne hline.inside hfits, ?_, ?_⟩
      · exact (List.append_assoc _ _ _).symm
      · exact List.append_ne_nil_of_right_ne_nil _ hne
  | case4 state line hne remaining hroom hlong parts ih =>
      have hparts : parts = (line.take remaining, line.drop remaining) :=
        cut_byteIndexAfterChars line remaining
      have hlt : remaining < line.length := Nat.lt_of_not_le hlong
      have hfront : line.take remaining ≠ [] := by
        intro hnil
        have hlength := congrArg List.length hnil
        rw [List.length_take, List.length_nil] at hlength
        omega
      have hinside : '\n' ∉ (line.take remaining).dropLast := fun hmem =>
        hline.not_mem_take hlt (List.mem_of_mem_dropLast hmem)
      have hgrown := h.grow hnumber hfront hinside (by rw [List.length_take]; omega)
      have hnumber' : number =
          lineAt (done ++ Chunker.text { state with
            chunk := state.chunk ++ line.take remaining, chunkEnd := number }) := by
        rw [Chunker.text, ← List.append_assoc (chunkText _), ← List.append_assoc done,
          lineAt_append_of_not_mem (hline.not_mem_take hlt), hnumber, Chunker.text]
      have hflushed := hgrown.flush (List.append_ne_nil_of_right_ne_nil _ hfront) hnumber'
      have htext := Chunker.text_flush { state with
            chunk := state.chunk ++ line.take remaining, chunkEnd := number } number
      rw [Chunker.push, if_neg hne, if_neg hroom, if_neg hlong]
      rw [hparts] at ih
      obtain ⟨htracks, hall, hgrows⟩ := ih hflushed (by rwa [htext]) (hline.drop hlt)
      rw [show cut line (byteIndexAfterChars line remaining) = _ from hparts]
      refine ⟨htracks, hall.trans ?_, hgrows⟩
      rw [htext, Chunker.text, Chunker.text, List.append_assoc, List.append_assoc,
        List.take_append_drop, List.append_assoc]

/-- The lines of a section, one after the other. -/
theorem Chunker.Tracks.run {state : Chunker} {lines : List NumberedLine} (h : state.Tracks done)
    (hlines : Numbered (done ++ state.text) lines) :
    let last := lines.foldl (fun state line => state.push line.1 line.2) state
    last.Tracks done ∧ last.text = state.text ++ lineText lines ∧
      (lines ≠ [] → last.chunk ≠ []) := by
  induction lines generalizing state with
  | nil => exact ⟨h, (List.append_nil _).symm, fun hne => absurd rfl hne⟩
  | cons entry rest ih =>
      obtain ⟨number, line⟩ := entry
      obtain ⟨hnumber, hline, hrest⟩ := hlines
      obtain ⟨htracks, htext, hgrows⟩ := h.push hnumber hline
      rw [List.append_assoc, ← htext] at hrest
      obtain ⟨hlast, hall, hgrows'⟩ := ih htracks hrest
      refine ⟨hlast, ?_, fun _ => ?_⟩
      · rw [List.foldl_cons, hall, htext, lineText, lineText, List.flatMap_cons,
          List.append_assoc]
      · cases rest with
        | nil => exact hgrows
        | cons next rest => exact hgrows' (List.cons_ne_nil _ _)

/-- The parts of the lines of a section are its text. -/
theorem covers_boundedChunks {lines : List NumberedLine} (hlines : Numbered done lines)
    (hne : lines ≠ []) :
    Covers done (boundedChunks lines) ∧ chunkText (boundedChunks lines) = lineText lines := by
  cases lines with
  | nil => exact absurd rfl hne
  | cons entry rest =>
      have hstart : Chunker.Tracks done
          { chunks := [], chunk := [], chunkStart := entry.1, chunkEnd := entry.1 } := by
        refine ⟨trivial, Nat.zero_le _, ?_, fun hnil => absurd rfl hnil⟩
        rw [chunkText, List.flatMap_nil, List.append_nil]
        exact hlines.1
      have hlines' : Numbered (done ++ Chunker.text
          { chunks := [], chunk := [], chunkStart := entry.1, chunkEnd := entry.1 })
          (entry :: rest) := by
        rwa [Chunker.text, chunkText, List.flatMap_nil, List.append_nil, List.append_nil]
      obtain ⟨htracks, htext, hgrows⟩ := hstart.run hlines'
      generalize hlast : (entry :: rest).foldl (fun (state : Chunker) line =>
        state.push line.1 line.2)
        { chunks := [], chunk := [], chunkStart := entry.1, chunkEnd := entry.1 } = last at *
      have hgrown : (decide (last.chunk ≠ []) || decide (last.chunks = [])) = true := by
        simp [hgrows hne]
      have hchunks : boundedChunks (entry :: rest) =
          last.chunks ++ [(last.chunkStart, last.chunkEnd, last.chunk)] := by
        rw [← hlast] at hgrown ⊢
        exact if_pos hgrown
      rw [hchunks, chunkText_append, chunkText_singleton]
      exact ⟨htracks.covers (hgrows hne), htext⟩

/-! ## Sections -/

def MemorySection.chunk (part : MemorySection) : Chunk :=
  (part.startLine, part.endLine, part.content.toList)

theorem map_chunk_appendBoundedSections (lines : List NumberedLine) (boundary : SectionBoundary)
    (baseId : String) :
    (appendBoundedSections lines boundary baseId).map MemorySection.chunk =
      boundedChunks lines := by
  rw [appendBoundedSections, List.map_map]
  have hchunk : ∀ entry ∈ (boundedChunks lines).zipIdx,
      MemorySection.chunk
        { id := if (boundedChunks lines).length = 1 then baseId
            else s!"{baseId}-part-{entry.2 + 1}"
          heading := boundary.heading, level := boundary.level, startLine := entry.1.1
          endLine := entry.1.2.1, content := String.ofList entry.1.2.2 } = entry.1 := by
    intro entry _
    rw [MemorySection.chunk, String.toList_ofList]
  calc _ = (boundedChunks lines).zipIdx.map Prod.fst := List.map_congr_left hchunk
    _ = boundedChunks lines := List.zipIdx_map_fst 0 _

/-- The boundaries ascend and are lines of the document. -/
structure Ascend (boundaries : List SectionBoundary) (length : Nat) : Prop where
  sorted : (boundaries.map (·.startIndex)).Pairwise (· < ·)
  lt : ∀ boundary ∈ boundaries, boundary.startIndex < length

theorem Ascend.tail {boundary : SectionBoundary} {boundaries : List SectionBoundary}
    {length : Nat} (h : Ascend (boundary :: boundaries) length) : Ascend boundaries length where
  sorted := h.sorted.of_cons
  lt other hmem := h.lt other (List.mem_cons_of_mem _ hmem)

variable {tables : CharTables} {lines : List NumberedLine}

/-- The sections from a boundary on are the text from its line on. -/
theorem covers_boundedSections (hlines : Numbered [] lines) (usedIds : List String)
    {boundary : SectionBoundary} {boundaries : List SectionBoundary}
    (h : Ascend (boundary :: boundaries) lines.length) :
    let parts := (boundedSections tables lines usedIds (boundary :: boundaries)).map
      MemorySection.chunk
    Covers (lineText (lines.take boundary.startIndex)) parts ∧
      chunkText parts = lineText (lines.drop boundary.startIndex) := by
  induction boundaries generalizing boundary usedIds with
  | nil =>
      have hlt := h.lt boundary List.mem_cons_self
      have hslice : Numbered (lineText (lines.take boundary.startIndex))
          (lines.drop boundary.startIndex) := by
        rw [← List.take_append_drop boundary.startIndex lines, numbered_append] at hlines
        exact hlines.2
      have hne : lines.drop boundary.startIndex ≠ [] := by
        rw [Ne, List.drop_eq_nil_iff]
        omega
      have hchunks := covers_boundedChunks hslice hne
      rw [boundedSections, boundedSections, List.append_nil, map_chunk_appendBoundedSections]
      simp only [List.head?_nil, Option.map_none, Option.getD_none, List.take_length]
      exact hchunks
  | cons next rest ih =>
      have hsorted : boundary.startIndex < next.startIndex :=
        List.rel_of_pairwise_cons h.sorted List.mem_cons_self
      have hlt := h.lt next (List.mem_cons_of_mem _ List.mem_cons_self)
      have hinside : boundary.startIndex ≤ (lines.take next.startIndex).length := by
        rw [List.length_take]
        omega
      have htake := List.take_append_drop boundary.startIndex (lines.take next.startIndex)
      rw [List.take_take, Nat.min_eq_left hsorted.le] at htake
      generalize hslice : (lines.take next.startIndex).drop boundary.startIndex = slice at htake
      have hdrop : lines.drop boundary.startIndex = slice ++ lines.drop next.startIndex := by
        rw [← hslice, ← List.drop_append_of_le_length hinside, List.take_append_drop]
      have hnumbered : Numbered (lineText (lines.take boundary.startIndex)) slice := by
        rw [← List.take_append_drop next.startIndex lines, ← htake, numbered_append,
          numbered_append] at hlines
        exact hlines.1.2
      have hne : slice ≠ [] := by
        intro hnil
        rw [hnil, List.drop_eq_nil_iff, List.length_take] at hslice
        omega
      obtain ⟨hcovers, htext⟩ := covers_boundedChunks hnumbered hne
      obtain ⟨hrest, hrestText⟩ := ih (baseOf tables boundary :: usedIds) h.tail
      rw [boundedSections, List.map_append, map_chunk_appendBoundedSections]
      simp only [List.head?_cons, Option.map_some, Option.getD_some, hslice]
      constructor
      · apply covers_append.mpr ⟨hcovers, _⟩
        rwa [htext, lineText, lineText, ← List.flatMap_append, htake]
      · rw [chunkText_append, htext, hrestText, hdrop, lineText, lineText, lineText,
          List.flatMap_append]

/-! ## Headings -/

/-- The boundaries so far: the first is the document's, and they are lines that were read. -/
structure HeadingPass.Tracks (count : Nat) (pass : HeadingPass) : Prop where
  first : pass.boundaries.head?.map (·.startIndex) = some 0
  ascend : Ascend pass.boundaries (max 1 count)
  fresh : count = 0 → pass.boundaries = [⟨0, none, 0⟩]

theorem HeadingPass.tracks_empty : HeadingPass.Tracks 0 {} where
  first := rfl
  ascend := ⟨List.pairwise_singleton _ _, by simp⟩
  fresh _ := rfl

theorem HeadingPass.Tracks.later {count : Nat} {pass : HeadingPass} (h : pass.Tracks count)
    (fence : Option MarkdownFence) : HeadingPass.Tracks (count + 1) { pass with fence } where
  first := h.first
  ascend := ⟨h.ascend.sorted, fun boundary hmem =>
    lt_of_lt_of_le (h.ascend.lt boundary hmem) (by omega)⟩
  fresh hzero := absurd hzero (Nat.succ_ne_zero _)

theorem HeadingPass.Tracks.offer {count : Nat} {pass : HeadingPass} (h : pass.Tracks count)
    (line : NumberedLine) : (pass.offer (line, count)).Tracks (count + 1) := by
  rw [HeadingPass.offer]
  dsimp only
  split
  next => exact h.later _
  next =>
    split
    next => exact h.later _
    next level heading _ =>
      cases count with
      | zero =>
          have hfresh := h.fresh rfl
          simp only [hfresh, List.head?_cons, Option.all_some, Option.isNone_none, Bool.and_true,
            decide_true, if_true, List.tail_cons]
          refine ⟨rfl, ⟨List.pairwise_singleton _ _, ?_⟩, fun hzero =>
            absurd hzero (Nat.succ_ne_zero _)⟩
          intro boundary hmem
          rw [List.mem_singleton.mp hmem]
          exact Nat.lt_of_lt_of_le Nat.zero_lt_one (Nat.le_max_left _ _)
      | succ count =>
          simp only [Nat.succ_ne_zero, decide_false, Bool.false_and, if_false, Bool.false_eq_true]
          refine ⟨?_, ⟨?_, ?_⟩, fun hzero => absurd hzero (Nat.succ_ne_zero _)⟩
          · have hfirst := h.first
            cases hall : pass.boundaries with
            | nil =>
                rw [hall] at hfirst
                cases hfirst
            | cons first rest =>
                rw [hall] at hfirst
                exact hfirst
          · rw [List.map_append, List.pairwise_append]
            refine ⟨h.ascend.sorted, List.pairwise_singleton _ _, ?_⟩
            intro index hindex other hother
            obtain ⟨boundary, hmem, rfl⟩ := List.mem_map.mp hindex
            have hlt := h.ascend.lt boundary hmem
            rw [List.mem_singleton.mp hother]
            dsimp only
            omega
          · intro boundary hmem
            rw [List.mem_append, List.mem_singleton] at hmem
            cases hmem with
            | inl hmem =>
                have hlt := h.ascend.lt boundary hmem
                omega
            | inr hsame =>
                rw [hsame]
                dsimp only
                omega

theorem HeadingPass.Tracks.run {count : Nat} {pass : HeadingPass} (h : pass.Tracks count)
    (lines : List NumberedLine) :
    ((lines.zipIdx count).foldl HeadingPass.offer pass).Tracks (count + lines.length) := by
  induction lines generalizing count pass with
  | nil => exact h
  | cons line rest ih =>
      have hrest := ih (h.offer line)
      rwa [Nat.add_assoc, Nat.add_comm 1] at hrest

/-! ## Ids -/

theorem candidateId_injective (base : String) : (candidateId base).Injective := by
  intro left right heq
  have hsuffix : ∀ attempt, candidateId base (attempt + 1) =
      base ++ ("-" ++ Nat.repr (attempt + 2)) := by
    intro attempt
    rw [← String.append_assoc]
    rfl
  have hbase : ∀ attempt, base ≠ candidateId base (attempt + 1) := by
    intro attempt hsame
    have hlength := congrArg String.length hsame
    rw [hsuffix, String.length_append, String.length_append] at hlength
    have hdash : "-".length = 1 := rfl
    omega
  cases left with
  | zero =>
      cases right with
      | zero => rfl
      | succ right => exact absurd heq (hbase right)
  | succ left =>
      cases right with
      | zero => exact absurd heq.symm (hbase left)
      | succ right =>
          rw [hsuffix, hsuffix] at heq
          have hrepr := (String.append_right_inj "-").mp ((String.append_right_inj base).mp heq)
          have hnumber := congrArg (fun text : String => Nat.ofDigitChars 10 text.toList 0) hrepr
          simpa using hnumber

theorem map_zipWith_withId {α : Type} (f : MemorySection → α)
    (hf : ∀ part id, f (MemorySection.withId part id) = f part) {sections : List MemorySection}
    {ids : List String} (h : ids.length = sections.length) :
    (sections.zipWith MemorySection.withId ids).map f = sections.map f := by
  induction sections generalizing ids with
  | nil => rfl
  | cons part rest ih =>
      cases ids with
      | nil => cases h
      | cons id ids =>
          rw [List.zipWith_cons_cons, List.map_cons, List.map_cons, hf, ih (Nat.succ.inj h)]

theorem map_id_zipWith_withId {sections : List MemorySection} {ids : List String}
    (h : ids.length = sections.length) :
    (sections.zipWith MemorySection.withId ids).map (·.id) = ids := by
  induction sections generalizing ids with
  | nil => exact (List.length_eq_zero_iff.mp h).symm
  | cons part rest ih =>
      cases ids with
      | nil => cases h
      | cons id ids =>
          rw [List.zipWith_cons_cons, List.map_cons, ih (Nat.succ.inj h)]
          rfl

/-- Every section gets an id of its own. -/
theorem exists_reserveIds (sections : List MemorySection) :
    ∃ reserved, reserveIds sections = some reserved ∧ (reserved.map (·.id)).Nodup ∧
      reserved.map MemorySection.chunk = sections.map MemorySection.chunk := by
  obtain ⟨ids, hids, hlength, hnodup, -⟩ :=
    FreshNames.exists_assign candidateId_injective (sections.map (·.id)) []
  rw [List.length_map] at hlength
  refine ⟨sections.zipWith MemorySection.withId ids, ?_, ?_, ?_⟩
  · rw [reserveIds, hids, Option.map_some]
  · rwa [map_id_zipWith_withId hlength]
  · exact map_zipWith_withId MemorySection.chunk (fun _ _ => rfl) hlength

/-! ## The whole document -/

/-- The text of sections. -/
def sectionText (sections : List MemorySection) : List Char :=
  sections.flatMap fun part => part.content.toList

theorem sectionText_eq (sections : List MemorySection) :
    sectionText sections = chunkText (sections.map MemorySection.chunk) := by
  rw [chunkText, List.flatMap_map]
  rfl

theorem splitInclusive_ne_nil {content : List Char} (h : content ≠ []) :
    splitInclusive content ≠ [] := by
  intro hnil
  apply h
  rw [← flatten_splitInclusive content, hnil, List.flatten_nil]

/-- A document that is not empty is the text of sections whose lines are known and whose ids
differ. -/
theorem exists_parseSections (tables : CharTables) {content : String}
    (h : content.toList ≠ []) :
    ∃ sections title, parseSections tables content = some (sections, title) ∧
      Covers [] (sections.map MemorySection.chunk) ∧
      sectionText sections = content.toList ∧ (sections.map (·.id)).Nodup := by
  have hlines : numberedLines content.toList ≠ [] := by
    rw [numberedLines, Ne, List.map_eq_nil_iff, List.zipIdx_eq_nil_iff]
    exact splitInclusive_ne_nil h
  have hpass := HeadingPass.tracks_empty.run (numberedLines content.toList)
  generalize hall : (numberedLines content.toList).zipIdx.foldl HeadingPass.offer {} = pass
    at hpass
  have hlength : max 1 (0 + (numberedLines content.toList).length) =
      (numberedLines content.toList).length := by
    have hpos := List.length_pos_iff.mpr hlines
    omega
  obtain ⟨hfirst, hascend, -⟩ := hpass
  rw [hlength] at hascend
  obtain ⟨reserved, hreserved, hids, hchunks⟩ :=
    exists_reserveIds (boundedSections tables (numberedLines content.toList) [] pass.boundaries)
  refine ⟨reserved, pass.title, ?_, ?_⟩
  · rw [parseSections]
    dsimp only
    rw [if_neg hlines, hall, hreserved, Option.map_some]
  · cases hboundaries : pass.boundaries with
    | nil =>
        rw [hboundaries] at hfirst
        cases hfirst
    | cons boundary boundaries =>
        rw [hboundaries] at hfirst hascend hchunks
        have hstart : boundary.startIndex = 0 := Option.some.inj hfirst
        obtain ⟨hcovers, htext⟩ := @covers_boundedSections tables _
          (numbered_numberedLines content.toList) [] boundary boundaries hascend
        rw [← hchunks, hstart] at hcovers htext
        refine ⟨hcovers, ?_, hids⟩
        rw [sectionText_eq, htext, List.drop_zero, lineText_numberedLines]

theorem parseSections_empty (tables : CharTables) :
    parseSections tables "" = some ([⟨"document", none, 0, 1, 1, ""⟩], none) := rfl

/-- Sections with the first and the last line of their texts, as lines are numbered. -/
def Ranges (lineNumber : Nat → Nat) : List Char → List MemorySection → Prop
  | _, [] => True
  | done, part :: rest =>
      part.startLine = lineNumber (done.count '\n' + 1) ∧
      part.endLine = lineNumber ((done ++ part.content.toList.dropLast).count '\n' + 1) ∧
      Ranges lineNumber (done ++ part.content.toList) rest

theorem ranges_of_covers {sections : List MemorySection}
    (h : Covers done (sections.map MemorySection.chunk)) :
    Ranges (min · maxLine) done sections := by
  induction sections generalizing done with
  | nil => trivial
  | cons part rest ih => exact ⟨h.1.start, h.1.stop, ih h.2⟩

/-- The parts behind a text begin in its line or later, each where the one before has ended. -/
theorem pairwise_of_covers {chunks : List Chunk} (h : Covers done chunks) :
    (∀ chunk ∈ chunks, lineAt done ≤ chunk.1) ∧
      chunks.Pairwise fun left right => left.2.1 ≤ right.1 := by
  induction chunks generalizing done with
  | nil => exact ⟨fun _ hmem => absurd hmem List.not_mem_nil, List.Pairwise.nil⟩
  | cons chunk rest ih =>
      obtain ⟨hchunk, hrest⟩ := h
      obtain ⟨hbegin, hsorted⟩ := ih hrest
      have hstop : chunk.2.1 ≤ lineAt (done ++ chunk.2.2) := by
        rw [hchunk.stop, ← List.dropLast_append_getLast hchunk.ne_nil, List.dropLast_concat,
          ← List.append_assoc]
        exact lineAt_mono _ _
      constructor
      · intro other hmem
        cases hmem with
        | head => exact hchunk.start.ge
        | tail _ hmem => exact (lineAt_mono _ _).trans (hbegin other hmem)
      · exact List.pairwise_cons.mpr
          ⟨fun other hmem => hstop.trans (hbegin other hmem), hsorted⟩

theorem start_le_stop_of_covers {chunks : List Chunk} (h : Covers done chunks) :
    ∀ chunk ∈ chunks, chunk.1 ≤ chunk.2.1 ∧ chunk.2.2.length ≤ maxMemorySectionChars := by
  induction chunks generalizing done with
  | nil => exact fun _ hmem => nomatch hmem
  | cons first rest ih =>
      obtain ⟨hfirst, hrest⟩ := h
      intro chunk hmem
      cases hmem with
      | head =>
          rw [hfirst.start, hfirst.stop]
          exact ⟨lineAt_mono _ _, hfirst.size⟩
      | tail _ hmem => exact ih hrest chunk hmem

/-- The sections of a document are its text, none is too long, no two have one id, and their
ranges are the lines of their texts, up to the largest line number. -/
theorem parse_sections_partition (tables : CharTables) (content : String) :
    ∃ sections title, parseSections tables content = some (sections, title) ∧
      sectionText sections = content.toList ∧
      (∀ part ∈ sections, part.content.length ≤ maxMemorySectionChars) ∧
      (sections.map (·.id)).Nodup ∧
      (∀ part ∈ sections, part.startLine ≤ part.endLine) ∧
      sections.Pairwise (fun left right => left.endLine ≤ right.startLine) ∧
      Ranges (min · maxLine) [] sections := by
  by_cases hempty : content = ""
  · rw [hempty]
    refine ⟨_, _, parseSections_empty tables, rfl, ?_, List.nodup_singleton _, ?_,
      List.pairwise_singleton _ _, ⟨rfl, rfl, trivial⟩⟩
    · intro part hmem
      rw [List.mem_singleton.mp hmem]
      exact Nat.zero_le _
    · intro part hmem
      rw [List.mem_singleton.mp hmem]
  · have hne : content.toList ≠ [] := fun hnil => hempty (String.toList_inj.mp hnil)
    obtain ⟨sections, title, hparse, hcovers, htext, hids⟩ := exists_parseSections tables hne
    have hbounds := start_le_stop_of_covers hcovers
    have hsorted := (pairwise_of_covers hcovers).2
    refine ⟨sections, title, hparse, htext, ?_, hids, ?_, ?_, ranges_of_covers hcovers⟩
    · exact fun part hmem => (hbounds _ (List.mem_map_of_mem hmem)).2
    · exact fun part hmem => (hbounds _ (List.mem_map_of_mem hmem)).1
    · exact List.pairwise_map.mp hsorted

/-! ## More lines than there are numbers -/

/-- Ranges that hold the first and the last line of their texts. -/
def CoversLines : List Char → List MemorySection → Prop
  | _, [] => True
  | done, part :: rest =>
      part.startLine ≤ done.count '\n' + 1 ∧
      (done ++ part.content.toList.dropLast).count '\n' + 1 ≤ part.endLine ∧
      CoversLines (done ++ part.content.toList) rest

/-- Tables of the letters and digits of ASCII. -/
def asciiTables : CharTables where
  isAlphanumeric := Char.isAlphanum
  toLowercase symbol := [symbol.toLower]

/-- If the ranges hold their lines, no text has more lines than there are numbers. -/
theorem count_le_of_coversLines {sections : List MemorySection} (hne : sections ≠ [])
    (hcovers : Covers done (sections.map MemorySection.chunk)) (h : CoversLines done sections) :
    (done ++ sectionText sections).dropLast.count '\n' + 1 ≤ maxLine := by
  induction sections generalizing done with
  | nil => exact absurd rfl hne
  | cons part rest ih =>
      rw [sectionText, List.flatMap_cons, ← List.append_assoc]
      by_cases hlast : rest = []
      · have hcontent : part.content.toList ≠ [] := hcovers.1.ne_nil
        rw [hlast, List.flatMap_nil, List.append_nil,
          List.dropLast_append_of_ne_nil hcontent]
        apply h.2.1.trans
        rw [show part.endLine = _ from hcovers.1.stop]
        exact Nat.min_le_right _ _
      · exact ih hlast hcovers.2 h.2.2

/-- Of so many empty lines the last has no number. -/
theorem not_coversLines {lines : Nat} (h : maxLine < lines) :
    ¬ ∀ (content : String) sections title,
      parseSections asciiTables content = some (sections, title) → CoversLines [] sections := by
  intro hall
  obtain ⟨count, rfl⟩ := Nat.exists_eq_succ_of_ne_zero (Nat.ne_zero_of_lt h)
  have hne : (String.ofList (List.replicate (count + 1) '\n')).toList ≠ [] := by
    rw [String.toList_ofList]
    exact List.cons_ne_nil _ _
  obtain ⟨sections, title, hparse, hcovers, htext, -⟩ := exists_parseSections asciiTables hne
  have hsections : sections ≠ [] := by
    rintro rfl
    exact hne htext.symm
  have hcount := count_le_of_coversLines hsections hcovers (hall _ sections title hparse)
  rw [htext, String.toList_ofList, List.nil_append, List.dropLast_replicate,
    List.count_replicate_self] at hcount
  omega

/-- A text of one line more than there are numbers has a section whose range does not hold it. -/
theorem last_line_without_number :
    ¬ ∀ (content : String) sections title,
      parseSections asciiTables content = some (sections, title) → CoversLines [] sections :=
  not_coversLines (Nat.lt_succ_self maxLine)

end Memex.Memory
