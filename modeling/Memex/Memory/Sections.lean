import Memex.Lib.Boundaries
import Memex.Lib.FreshNames
import Memex.Sources.Json

/-! # Sections of memory documents

`memory.rs`: a Markdown document is cut at its headings, and what is longer than a section may be
is cut again. -/

namespace Memex.Memory

open Boundaries Sources Text

def maxMemorySectionChars : Nat := 8000

structure MemorySection where
  id : String
  heading : Option String
  level : Nat
  startLine : Nat
  endLine : Nat
  content : String
  deriving DecidableEq, Repr

structure SectionBoundary where
  startIndex : Nat
  heading : Option String
  level : Nat

/-- What `char::is_alphanumeric` and `char::to_lowercase` say. -/
structure CharTables where
  isAlphanumeric : Char → Bool
  toLowercase : Char → List Char

/-- A line with its number. -/
abbrev NumberedLine := Nat × List Char

/-- The largest line number there is. -/
def maxLine : Nat := 2 ^ 32 - 1

/-- `split_inclusive` at the ends of lines. -/
def splitInclusive : List Char → List (List Char)
  | [] => []
  | symbol :: rest =>
      if symbol = '\n' then [symbol] :: splitInclusive rest
      else
        match splitInclusive rest with
        | [] => [[symbol]]
        | line :: lines => (symbol :: line) :: lines

def numberedLines (content : List Char) : List NumberedLine :=
  (splitInclusive content).zipIdx.map fun (line, index) => (min (index + 1) maxLine, line)

/-- `trim_end_matches` of the symbols that end a line. -/
def trimLineEnd (line : List Char) : List Char :=
  line.rdropWhile fun symbol => symbol = '\r' || symbol = '\n'

/-! ## Fences and headings -/

def backtick : Char := Char.ofNat 0x60

structure MarkdownFence where
  character : Char
  runLength : Nat

/-- Whether the line opens or closes a fence, and the fence after it. -/
def updateMarkdownFence (line : List Char) (active : Option MarkdownFence) :
    Bool × Option MarkdownFence :=
  let line := trimLineEnd line
  let indentation := (line.takeWhile (· = ' ')).length
  if 3 < indentation then (false, active)
  else
    let line := line.drop indentation
    match line with
    | [] => (false, active)
    | character :: _ =>
        if character ≠ backtick && character ≠ '~' then (false, active)
        else
          let runLength := (line.takeWhile (· = character)).length
          if runLength < 3 then (false, active)
          else
            let remainder := line.drop runLength
            match active with
            | some fence =>
                if fence.character = character && fence.runLength ≤ runLength &&
                    remainder.all isWhitespace then
                  (true, none)
                else (false, active)
            | none =>
                if character = backtick && backtick ∈ remainder then (false, active)
                else (true, some { character, runLength })

/-- `\s*#*\s*$` -/
def isClosing (text : List Char) : Bool :=
  ((text.dropWhile isWhitespace).dropWhile (· = '#')).dropWhile isWhitespace = []

/-- `(.+?)\s*#*\s*$`: the shortest part behind which the heading closes. -/
def headingPart (body : List Char) : List Char :=
  (body.inits.find? fun part => part ≠ [] && isClosing (body.drop part.length)).getD body

/-- The regular expression `^\s{0,3}(#{1,6})[ \t]+(.+?)\s*#*\s*$`. Nothing but blanks behind the
marks is a heading if one of them can be its text. -/
def atxHeading (line : List Char) : Option (Nat × String) :=
  let line := trimLineEnd line
  let indentation := line.takeWhile isWhitespace
  let marks := (line.drop indentation.length).takeWhile (· = '#')
  let rest := line.drop (indentation.length + marks.length)
  let blanks := rest.takeWhile fun symbol => symbol = ' ' || symbol = '\t'
  let body := rest.drop blanks.length
  if indentation.length ≤ 3 && marks ≠ [] && marks.length ≤ 6 && blanks ≠ [] then
    if body ≠ [] then some (marks.length, trim (String.ofList (headingPart body)))
    else if 2 ≤ blanks.length then some (marks.length, "")
    else none
  else none

/-- The loop over the lines that looks for headings. -/
structure HeadingPass where
  boundaries : List SectionBoundary := [⟨0, none, 0⟩]
  fence : Option MarkdownFence := none
  title : Option String := none

def HeadingPass.offer (pass : HeadingPass) (entry : NumberedLine × Nat) : HeadingPass :=
  let ((_, line), index) := entry
  let (toggled, fence) := updateMarkdownFence line pass.fence
  if toggled || fence.isSome then { pass with fence }
  else
    match atxHeading line with
    | none => { pass with fence }
    | some (level, heading) =>
        let boundary : SectionBoundary := ⟨index, some heading, level⟩
        let boundaries :=
          if index = 0 && pass.boundaries.head?.all (·.heading.isNone) then
            boundary :: pass.boundaries.tail
          else pass.boundaries ++ [boundary]
        { boundaries, fence, title := pass.title.or (some heading) }

/-! ## Sections -/

/-- The text so far and whether a separator is due. -/
structure Slug where
  text : List Char := []
  pendingSeparator : Bool := false

def Slug.offer (tables : CharTables) (slug : Slug) (character : Char) : Slug :=
  if tables.isAlphanumeric character then
    let separator := if slug.pendingSeparator && slug.text ≠ [] then ['-'] else []
    { text := slug.text ++ separator ++ tables.toLowercase character }
  else { slug with pendingSeparator := true }

def slugify (tables : CharTables) (value : String) : String :=
  String.ofList (value.toList.foldl (Slug.offer tables) {}).text

def byteIndexAfterChars (value : List Char) (count : Nat) : Nat :=
  byteLength (value.take count)

theorem cut_byteIndexAfterChars (value : List Char) (count : Nat) :
    cut value (byteIndexAfterChars value count) = (value.take count, value.drop count) := by
  have hparts := cut_byteLength (value.take count) (value.drop count)
  rwa [List.take_append_drop] at hparts

/-- The first line, the last line and the text of a part of a section. -/
abbrev Chunk := Nat × Nat × List Char

/-- The parts that are complete and the one that grows. -/
structure Chunker where
  chunks : List Chunk
  chunk : List Char
  chunkStart : Nat
  chunkEnd : Nat

/-- What is left of a line goes into the parts. -/
def Chunker.push (state : Chunker) (lineNumber : Nat) (line : List Char) : Chunker :=
  if line = [] then state
  else
    let remaining := maxMemorySectionChars - state.chunk.length
    if remaining = 0 then
      push
        { chunks := state.chunks ++ [(state.chunkStart, state.chunkEnd, state.chunk)]
          chunk := [], chunkStart := lineNumber, chunkEnd := lineNumber }
        lineNumber line
    else if line.length ≤ remaining then
      { state with chunk := state.chunk ++ line, chunkEnd := lineNumber }
    else
      let parts := cut line (byteIndexAfterChars line remaining)
      push
        { chunks := state.chunks ++ [(state.chunkStart, lineNumber, state.chunk ++ parts.1)]
          chunk := [], chunkStart := lineNumber, chunkEnd := lineNumber }
        lineNumber parts.2
termination_by (line.length, state.chunk.length)
decreasing_by
  · have hmax : 0 < maxMemorySectionChars := by decide
    apply Prod.Lex.right
    rw [List.length_nil]
    omega
  · apply Prod.Lex.left
    rw [cut_byteIndexAfterChars, List.length_drop]
    omega

def boundedChunks (lines : List NumberedLine) : List Chunk :=
  let start := (lines.head?.map Prod.fst).getD 1
  let state : Chunker := lines.foldl (fun state line => state.push line.1 line.2)
    { chunks := [], chunk := [], chunkStart := start, chunkEnd := start }
  if state.chunk ≠ [] || state.chunks = [] then
    state.chunks ++ [(state.chunkStart, state.chunkEnd, state.chunk)]
  else state.chunks

def appendBoundedSections (lines : List NumberedLine) (boundary : SectionBoundary)
    (baseId : String) : List MemorySection :=
  let chunks := boundedChunks lines
  chunks.zipIdx.map fun ((startLine, endLine, content), index) =>
    { id := if chunks.length = 1 then baseId else s!"{baseId}-part-{index + 1}"
      heading := boundary.heading
      level := boundary.level
      startLine, endLine
      content := String.ofList content }

/-- The id a section asks for before it is known which are used. -/
def baseOf (tables : CharTables) (boundary : SectionBoundary) : String :=
  ((boundary.heading.map (slugify tables)).filter (· ≠ "")).getD "document"

/-- The sections of the boundaries; the bases of those before them are known. -/
def boundedSections (tables : CharTables) (lines : List NumberedLine) :
    List String → List SectionBoundary → List MemorySection
  | _, [] => []
  | usedIds, boundary :: rest =>
      let endIndex := (rest.head?.map (·.startIndex)).getD lines.length
      let base := baseOf tables boundary
      let occurrence := usedIds.count base + 1
      let baseId := if occurrence = 1 then base else s!"{base}-{occurrence}"
      appendBoundedSections ((lines.take endIndex).drop boundary.startIndex) boundary baseId ++
        boundedSections tables lines (base :: usedIds) rest

/-- The ids a section is offered, one after the other. In the source the number has 32 bits and
wraps to candidates `id--n`, which no other id is spelled like. -/
def candidateId (base : String) (attempt : Nat) : String :=
  if attempt = 0 then base else s!"{base}-{attempt + 1}"

/-- `section.id = id` -/
def MemorySection.withId (part : MemorySection) (id : String) : MemorySection :=
  { part with id }

/-- No id is used twice. -/
def reserveIds (sections : List MemorySection) : Option (List MemorySection) :=
  (FreshNames.assign candidateId [] (sections.map (·.id))).map fun ids =>
    sections.zipWith MemorySection.withId ids

/-- The sections and the title; nothing if the search for an id did not end. -/
def parseSections (tables : CharTables) (content : String) :
    Option (List MemorySection × Option String) :=
  let lines := numberedLines content.toList
  if lines = [] then
    some ([{ id := "document", heading := none, level := 0, startLine := 1, endLine := 1
             content := "" }], none)
  else
    let pass := lines.zipIdx.foldl HeadingPass.offer {}
    (reserveIds (boundedSections tables lines [] pass.boundaries)).map fun sections =>
      (sections, pass.title)

end Memex.Memory
