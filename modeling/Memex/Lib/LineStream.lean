import Mathlib.Algebra.Order.Ring.Int
import Mathlib.Data.Int.ConditionallyCompleteOrder
import Mathlib.Data.List.Induction
import Mathlib.Data.String.Basic
import Mathlib.Order.Lattice.Nat

/-! # Newline-delimited streams

Bytes are cut into lines at newlines and every line is offered to a reader.
A stream grows at its end, so a line may be cut anywhere; what was read up to
a settled offset never changes when bytes are appended. -/

namespace LineStream

/-- A byte string. -/
abbrev Bytes := List UInt8

/-- The byte that ends a line. -/
def newline : UInt8 := 10

/-- Space, tab and carriage return: the blanks a line may hold. -/
def isBlank (byte : UInt8) : Bool :=
  byte == 32 || byte == 9 || byte == 13

/-- A reader of single lines. Blank lines hold no value, and blanks behind a
value do not change it. -/
structure LineReader (V : Type*) where
  read : Bytes → Option V
  read_blank : ∀ line : Bytes, line.all isBlank → read line = none
  read_trailing : ∀ (line blanks : Bytes) (value : V), read line = some value →
    blanks.all isBlank → read (line ++ blanks) = some value

/-- The lines of a stream, each with the offset of its first byte. -/
def locate : Nat → List Bytes → List (Nat × Bytes)
  | _, [] => []
  | start, line :: rest => (start, line) :: locate (start + line.length + 1) rest

/-- The lines of the bytes that stand at an offset. -/
def linesFrom (start : Nat) (bytes : Bytes) : List (Nat × Bytes) :=
  locate start (bytes.splitOn newline)

theorem locate_append (start : Nat) (left right : List Bytes) :
    locate start (left ++ right) =
      locate start left ++ locate (start + (left.map (·.length + 1)).sum) right := by
  induction left generalizing start with
  | nil => simp [locate]
  | cons line rest ih =>
      simp only [List.cons_append, locate, List.map_cons, List.sum_cons, ih, List.cons.injEq,
        true_and]
      congr 2
      omega

theorem width_splitOn (bytes : Bytes) :
    ((bytes.splitOn newline).map (·.length + 1)).sum = bytes.length + 1 := by
  induction bytes with
  | nil => simp
  | cons byte rest ih =>
      rw [List.splitOn_cons_eq_if_modifyHead]
      obtain ⟨line, lines, hlines⟩ :=
        List.exists_cons_of_ne_nil (List.splitOn_ne_nil newline rest)
      rw [hlines] at ih ⊢
      split
      · simp only [List.map_cons, List.length_nil, List.sum_cons, List.length_cons] at ih ⊢
        omega
      · simp only [List.modifyHead_cons, List.map_cons, List.length_cons, List.sum_cons] at ih ⊢
        omega

theorem linesFrom_append_newline (start : Nat) (left right : Bytes) :
    linesFrom start (left ++ newline :: right) =
      linesFrom start left ++ linesFrom (start + left.length + 1) right := by
  rw [linesFrom, List.splitOn_append_cons_self, locate_append, width_splitOn, ← Nat.add_assoc]
  rfl

theorem linesFrom_of_not_mem (start : Nat) {line : Bytes} (h : newline ∉ line) :
    linesFrom start line = [(start, line)] := by
  rw [linesFrom, List.splitOn_eq_singleton h]
  rfl

/-- The bytes end where a line ends. -/
def Aligned (bytes : Bytes) : Prop :=
  bytes = [] ∨ ∃ lines : Bytes, bytes = lines ++ [newline]

theorem aligned_nil : Aligned [] := Or.inl rfl

theorem Aligned.append {left right : Bytes} (hleft : Aligned left) (hright : Aligned right) :
    Aligned (left ++ right) := by
  obtain rfl | ⟨lines, rfl⟩ := hright
  · simpa using hleft
  · exact Or.inr ⟨left ++ lines, by simp⟩

theorem aligned_append_newline (line : Bytes) : Aligned (line ++ [newline]) :=
  Or.inr ⟨line, rfl⟩

/-- Every byte string is a series of whole lines and one unterminated line. -/
theorem exists_aligned_append (bytes : Bytes) :
    ∃ head tail, bytes = head ++ tail ∧ Aligned head ∧ newline ∉ tail := by
  induction bytes using List.reverseRecOn with
  | nil => exact ⟨[], [], rfl, aligned_nil, List.not_mem_nil⟩
  | append_singleton bytes byte ih =>
      obtain ⟨head, tail, rfl, hhead, htail⟩ := ih
      by_cases hbyte : byte = newline
      · subst hbyte
        exact ⟨head ++ tail ++ [newline], [], by simp, aligned_append_newline _, List.not_mem_nil⟩
      · refine ⟨head, tail ++ [byte], by simp, hhead, ?_⟩
        simp only [List.mem_append, List.mem_singleton, not_or]
        exact ⟨htail, fun h => hbyte h.symm⟩

/-- Every byte string starts with a line, ended by a newline or by the end. -/
theorem exists_line_append (bytes : Bytes) :
    ∃ line rest, bytes = line ++ rest ∧ newline ∉ line ∧
      (rest = [] ∨ ∃ more, rest = newline :: more) := by
  induction bytes with
  | nil => exact ⟨[], [], rfl, List.not_mem_nil, Or.inl rfl⟩
  | cons byte bytes ih =>
      obtain ⟨line, rest, rfl, hline, hrest⟩ := ih
      by_cases hbyte : byte = newline
      · subst hbyte
        exact ⟨[], newline :: (line ++ rest), rfl, List.not_mem_nil, Or.inr ⟨_, rfl⟩⟩
      · refine ⟨byte :: line, rest, rfl, ?_, hrest⟩
        simp only [List.mem_cons, not_or]
        exact ⟨fun h => hbyte h.symm, hline⟩

theorem takeWhile_line {line rest : Bytes} (hline : newline ∉ line)
    (hrest : rest = [] ∨ ∃ more, rest = newline :: more) :
    (line ++ rest).takeWhile (· != newline) = line := by
  have hall : ∀ byte ∈ line, (byte != newline) = true := by
    intro byte hbyte
    have hne : byte ≠ newline := fun h => hline (h ▸ hbyte)
    simpa using hne
  rw [List.takeWhile_append_of_pos hall]
  obtain rfl | ⟨more, rfl⟩ := hrest
  · simp
  · simp

theorem splitOn_aligned {head : Bytes} (h : Aligned head) (rest : Bytes) :
    ∃ lines, (head ++ rest).splitOn newline = lines ++ rest.splitOn newline := by
  obtain rfl | ⟨lines, rfl⟩ := h
  · exact ⟨[], rfl⟩
  · exact ⟨lines.splitOn newline, by
      rw [List.append_assoc, List.singleton_append, List.splitOn_append_cons_self]⟩

/-- A piece that begins at a line start begins a line. -/
theorem exists_mem_splitOn {bytes head piece more : Bytes} (hbytes : bytes = head ++ piece ++ more)
    (hhead : Aligned head) (hpiece : newline ∉ piece) :
    ∃ line, piece ++ line ∈ bytes.splitOn newline := by
  obtain ⟨line, behind, rfl, hline, hbehind⟩ := exists_line_append more
  have hwhole : newline ∉ piece ++ line := by
    simp only [List.mem_append, not_or]
    exact ⟨hpiece, hline⟩
  obtain ⟨lines, hlines⟩ := splitOn_aligned hhead (piece ++ line ++ behind)
  have hsplit : bytes.splitOn newline = lines ++ (piece ++ line ++ behind).splitOn newline := by
    rw [← hlines, hbytes]
    simp
  refine ⟨line, ?_⟩
  rw [hsplit, List.mem_append]
  right
  obtain rfl | ⟨next, rfl⟩ := hbehind
  · rw [List.append_nil, List.splitOn_eq_singleton hwhole]
    exact List.mem_singleton_self _
  · rw [List.splitOn_append_cons_self_of_not_mem hwhole]
    exact List.mem_cons_self

namespace LineReader

variable {V : Type*} (reader : LineReader V)

@[simp] theorem read_nil : reader.read [] = none := reader.read_blank [] rfl

/-- The values of the lines that read, each with its line's offset. -/
def rowsFrom (start : Nat) (bytes : Bytes) : List (Nat × V) :=
  (linesFrom start bytes).filterMap fun line => (reader.read line.2).map (line.1, ·)

@[simp] theorem rowsFrom_nil (start : Nat) : reader.rowsFrom start [] = [] := by
  simp [rowsFrom, linesFrom, locate]

theorem rowsFrom_append_newline (start : Nat) (left right : Bytes) :
    reader.rowsFrom start (left ++ newline :: right) =
      reader.rowsFrom start left ++ reader.rowsFrom (start + left.length + 1) right := by
  simp [rowsFrom, linesFrom_append_newline, List.filterMap_append]

theorem rowsFrom_aligned {head : Bytes} (h : Aligned head) (start : Nat) (rest : Bytes) :
    reader.rowsFrom start (head ++ rest) =
      reader.rowsFrom start head ++ reader.rowsFrom (start + head.length) rest := by
  obtain rfl | ⟨lines, rfl⟩ := h
  · simp
  · rw [List.append_assoc, List.singleton_append, rowsFrom_append_newline,
      rowsFrom_append_newline]
    simp [Nat.add_assoc]

/-- A test of the values of lines is a test of the rows. -/
theorem any_splitOn_eq_any_rowsFrom (test : V → Bool) (start : Nat) (bytes : Bytes) :
    (bytes.splitOn newline).any (fun line => (reader.read line).any test) =
      (reader.rowsFrom start bytes).any fun row => test row.2 := by
  rw [rowsFrom, linesFrom]
  induction bytes.splitOn newline generalizing start with
  | nil => rfl
  | cons line rest ih =>
      rw [List.any_cons, ih (start + line.length + 1), locate, List.filterMap_cons]
      cases reader.read line with
      | none => simp
      | some value => simp

theorem rowsFrom_line (start : Nat) {line : Bytes} (h : newline ∉ line) :
    reader.rowsFrom start line = ((reader.read line).map (start, ·)).toList := by
  rw [rowsFrom, linesFrom_of_not_mem start h]
  cases hread : reader.read line <;> simp [hread]

theorem le_of_mem_rowsFrom {start : Nat} {bytes : Bytes} {row : Nat × V}
    (h : row ∈ reader.rowsFrom start bytes) : start ≤ row.1 := by
  have hlocate : ∀ (lines : List Bytes) (start : Nat) (line : Nat × Bytes),
      line ∈ locate start lines → start ≤ line.1 := by
    intro lines
    induction lines with
    | nil => intro start line hline; simp [locate] at hline
    | cons first rest ih =>
        intro start line hline
        rw [locate, List.mem_cons] at hline
        obtain rfl | hrest := hline
        · exact Nat.le_refl _
        · have hle := ih _ _ hrest
          omega
  rw [rowsFrom, List.mem_filterMap] at h
  obtain ⟨line, hline, hread⟩ := h
  rw [Option.map_eq_some_iff] at hread
  obtain ⟨value, -, rfl⟩ := hread
  exact hlocate _ _ _ hline

/-- The rows of a whole stream. -/
def rows (bytes : Bytes) : List (Nat × V) :=
  reader.rowsFrom 0 bytes

/-- The rows that further bytes add to a stream. -/
def freshRows (bytes more : Bytes) : List (Nat × V) :=
  (reader.rows (bytes ++ more)).drop (reader.rows bytes).length

/-- No line holds a value followed by further bytes that are not blank. -/
def Clean (bytes : Bytes) : Prop :=
  ∀ head value rest more : Bytes, bytes = head ++ value ++ rest ++ more → Aligned head →
    newline ∉ value → newline ∉ rest → (reader.read value).isSome → rest.all isBlank

variable {reader}

theorem Clean.of_append {bytes more : Bytes} (h : reader.Clean (bytes ++ more)) :
    reader.Clean bytes := by
  intro head value rest behind hbytes
  refine h head value rest (behind ++ more) ?_
  rw [hbytes]
  simp

/-- Cleanness is checked line by line. -/
theorem clean_of_lines {bytes : Bytes}
    (h : ∀ line ∈ bytes.splitOn newline, ∀ length ≤ line.length,
      (reader.read (line.take length)).isSome → (line.drop length).all isBlank) :
    reader.Clean bytes := by
  intro head value rest more hbytes hhead hvalue hrest hread
  have hpiece : newline ∉ value ++ rest := by
    simp only [List.mem_append, not_or]
    exact ⟨hvalue, hrest⟩
  obtain ⟨line, hmem⟩ := exists_mem_splitOn (by simpa using hbytes) hhead hpiece
  have hblank := h _ hmem value.length (by simp) (by simpa [List.append_assoc] using hread)
  have hdrop : (value ++ rest ++ line).drop value.length = rest ++ line := by
    simp [List.append_assoc]
  rw [hdrop, List.all_append, Bool.and_eq_true] at hblank
  exact hblank.1

/-- The line reads as it stands. -/
def Reads (reader : LineReader V) (line : Bytes) : Prop :=
  (reader.read line).isSome

/-- Pieces of a line that settle it: the rest of their line reads as nothing, adds
nothing to what the piece reads as, and leaves a piece of the same kind. -/
structure Settles (reader : LineReader V) (piece : Bytes → Prop) (bytes : Bytes) : Prop where
  read_append : ∀ head line rest more : Bytes, bytes = head ++ line ++ rest ++ more →
    Aligned head → newline ∉ line → newline ∉ rest → piece line →
      reader.read (line ++ rest) = reader.read line
  read_rest : ∀ head line rest more : Bytes, bytes = head ++ line ++ rest ++ more →
    Aligned head → newline ∉ line → newline ∉ rest → piece line → reader.read rest = none
  extend : ∀ head line rest more : Bytes, bytes = head ++ line ++ rest ++ more →
    Aligned head → newline ∉ line → newline ∉ rest → piece line → piece (line ++ rest)

/-- On a clean stream a piece that reads settles its line. -/
theorem Clean.settles {bytes : Bytes} (h : reader.Clean bytes) :
    Settles reader reader.Reads bytes := by
  have hread : ∀ head line rest more : Bytes, bytes = head ++ line ++ rest ++ more →
      Aligned head → newline ∉ line → newline ∉ rest → reader.Reads line →
        reader.read (line ++ rest) = reader.read line ∧ reader.read rest = none := by
    intro head line rest more hbytes hhead hline hrest hreads
    obtain ⟨value, hvalue⟩ := Option.isSome_iff_exists.mp hreads
    have hblank := h head line rest more hbytes hhead hline hrest hreads
    exact ⟨(reader.read_trailing line rest value hvalue hblank).trans hvalue.symm,
      reader.read_blank rest hblank⟩
  constructor
  · intro head line rest more hbytes hhead hline hrest hreads
    exact (hread head line rest more hbytes hhead hline hrest hreads).1
  · intro head line rest more hbytes hhead hline hrest hreads
    exact (hread head line rest more hbytes hhead hline hrest hreads).2
  · intro head line rest more hbytes hhead hline hrest hreads
    have hsame := (hread head line rest more hbytes hhead hline hrest hreads).1
    rw [Reads, hsame]
    exact hreads

end LineReader

/-- An offset from which reading may go on: it stands behind whole lines and at most
one piece that settles its line. -/
def Resumable (piece : Bytes → Prop) (bytes : Bytes) (offset : Nat) : Prop :=
  ∃ head line rest, bytes = head ++ line ++ rest ∧ offset = head.length + line.length ∧
    Aligned head ∧ newline ∉ line ∧ (line = [] ∨ piece line)

variable {piece : Bytes → Prop}

theorem resumable_zero (bytes : Bytes) : Resumable piece bytes 0 :=
  ⟨[], [], bytes, rfl, rfl, aligned_nil, List.not_mem_nil, Or.inl rfl⟩

theorem Resumable.append {bytes : Bytes} {offset : Nat} (h : Resumable piece bytes offset)
    (more : Bytes) : Resumable piece (bytes ++ more) offset := by
  obtain ⟨head, line, rest, rfl, hoffset, hhead, hline, hpiece⟩ := h
  exact ⟨head, line, rest ++ more, by simp, hoffset, hhead, hline, hpiece⟩

theorem Resumable.le_length {bytes : Bytes} {offset : Nat} (h : Resumable piece bytes offset) :
    offset ≤ bytes.length := by
  obtain ⟨head, line, rest, rfl, rfl, -⟩ := h
  simp only [List.length_append]
  omega

theorem Resumable.take {bytes : Bytes} {offset length : Nat} (h : Resumable piece bytes offset)
    (hle : offset ≤ length) : Resumable piece (bytes.take length) offset := by
  obtain ⟨head, line, rest, rfl, rfl, hhead, hline, hpiece⟩ := h
  refine ⟨head, line, rest.take (length - (head.length + line.length)), ?_, rfl, hhead, hline,
    hpiece⟩
  rw [List.take_append, List.take_of_length_le (by simpa using hle), List.length_append]

/-- Whole lines behind a resumable offset move it. -/
theorem Resumable.lines {bytes whole tail : Bytes} {offset : Nat}
    (h : Resumable piece bytes offset) (hdrop : bytes.drop offset = whole ++ tail)
    (hwhole : Aligned whole) : Resumable piece bytes (offset + whole.length) := by
  obtain ⟨head, line, rest, rfl, rfl, hhead, hline, hpiece⟩ := h
  have hrest : rest = whole ++ tail := by
    rw [← hdrop, ← List.length_append, List.drop_left']
    rfl
  subst hrest
  obtain rfl | ⟨lines, rfl⟩ := hwhole
  · exact ⟨head, line, tail, by simp, by simp, hhead, hline, hpiece⟩
  · refine ⟨head ++ line ++ (lines ++ [newline]), [], tail, by simp, by simp [Nat.add_assoc], ?_,
      List.not_mem_nil, Or.inl rfl⟩
    rw [← List.append_assoc]
    exact aligned_append_newline _

namespace LineReader

variable {V : Type*} {reader : LineReader V} {piece : Bytes → Prop}

/-- What a settled line reads as does not change when the stream goes on behind it. -/
theorem Settles.rowsFrom_append {bytes head line rest : Bytes}
    (hsettles : Settles reader piece bytes) (hbytes : bytes = head ++ line ++ rest)
    (hhead : Aligned head) (hline : newline ∉ line) (hpiece : piece line) (start : Nat) :
    reader.rowsFrom start (line ++ rest) =
      reader.rowsFrom start line ++ reader.rowsFrom (start + line.length) rest := by
  obtain ⟨more, behind, rfl, hmore, hbehind⟩ := exists_line_append rest
  have hsplit : bytes = head ++ line ++ more ++ behind := by simpa using hbytes
  have hwhole : newline ∉ line ++ more := by
    simp only [List.mem_append, not_or]
    exact ⟨hline, hmore⟩
  have hextended := hsettles.read_append head line more behind hsplit hhead hline hmore hpiece
  have hrest := hsettles.read_rest head line more behind hsplit hhead hline hmore hpiece
  obtain rfl | ⟨next, rfl⟩ := hbehind
  · simp [rowsFrom_line _ _ hwhole, rowsFrom_line _ _ hline, rowsFrom_line _ _ hmore,
      hextended, hrest]
  · rw [← List.append_assoc, rowsFrom_append_newline, rowsFrom_append_newline,
      rowsFrom_line _ _ hwhole, rowsFrom_line _ _ hline, rowsFrom_line _ _ hmore,
      hextended, hrest]
    simp [Nat.add_assoc]

/-- What stands before a resumable offset and what stands behind it are read apart. -/
theorem Settles.rowsFrom_eq {bytes : Bytes} {offset : Nat}
    (hsettles : Settles reader piece bytes) (h : Resumable piece bytes offset) (start : Nat) :
    reader.rowsFrom start bytes =
      reader.rowsFrom start (bytes.take offset) ++
        reader.rowsFrom (start + offset) (bytes.drop offset) := by
  obtain ⟨head, line, rest, hbytes, rfl, hhead, hline, hpiece⟩ := h
  have htake : bytes.take (head.length + line.length) = head ++ line := by
    rw [hbytes, ← List.length_append, List.take_left']
    rfl
  have hdrop : bytes.drop (head.length + line.length) = rest := by
    rw [hbytes, ← List.length_append, List.drop_left']
    rfl
  have hsplit : reader.rowsFrom (start + head.length) (line ++ rest) =
      reader.rowsFrom (start + head.length) line ++
        reader.rowsFrom (start + head.length + line.length) rest := by
    obtain rfl | hsettled := hpiece
    · simp
    · exact hsettles.rowsFrom_append hbytes hhead hline hsettled _
  rw [htake, hdrop, rowsFrom_aligned _ hhead]
  conv_lhs => rw [hbytes, List.append_assoc, rowsFrom_aligned _ hhead, hsplit]
  simp [Nat.add_assoc]

/-- Whole lines and a last piece that settles its line move a resumable offset to the
end. -/
theorem Settles.resumable_end {bytes whole tail : Bytes} {offset : Nat}
    (hsettles : Settles reader piece bytes) (h : Resumable piece bytes offset)
    (hdrop : bytes.drop offset = whole ++ tail) (hwhole : Aligned whole)
    (htail : newline ∉ tail) (hpiece : tail = [] ∨ piece tail) :
    Resumable piece bytes bytes.length := by
  have hmoved := h.lines hdrop hwhole
  obtain rfl | hsettled := hpiece
  · have hlength : bytes.length = offset + whole.length := by
      have hlen := congrArg List.length hdrop
      have hle := h.le_length
      simp only [List.length_drop, List.append_nil] at hlen
      omega
    rwa [hlength]
  · obtain ⟨head, line, rest, rfl, rfl, hhead, hline, hlinePiece⟩ := h
    have hrest : rest = whole ++ tail := by
      rw [← hdrop, ← List.length_append, List.drop_left']
      rfl
    subst hrest
    obtain rfl | ⟨lines, rfl⟩ := hwhole
    · have hwhole : newline ∉ line ++ tail := by
        simp only [List.mem_append, not_or]
        exact ⟨hline, htail⟩
      refine ⟨head, line ++ tail, [], by simp, by simp, hhead, hwhole, Or.inr ?_⟩
      obtain rfl | hold := hlinePiece
      · exact hsettled
      · exact hsettles.extend head line tail [] (by simp) hhead hline htail hold
    · refine ⟨head ++ line ++ (lines ++ [newline]), tail, [], by simp, by simp; omega, ?_, htail,
        Or.inr hsettled⟩
      rw [← List.append_assoc]
      exact aligned_append_newline _

private theorem filter_rowsFrom_pos {start : Nat} (h : 0 < start) (bytes : Bytes) :
    (reader.rowsFrom start bytes).filter (·.1 = 0) = [] := by
  rw [List.filter_eq_nil_iff]
  intro row hrow
  have hle := reader.le_of_mem_rowsFrom hrow
  simp only [decide_eq_true_eq]
  omega

private theorem filter_rowsFrom_line {line : Bytes} (h : newline ∉ line) :
    (reader.rowsFrom 0 line).filter (·.1 = 0) = ((reader.read line).map (0, ·)).toList := by
  rw [rowsFrom_line _ _ h]
  cases reader.read line <;> simp

/-- The row of the first line before a resumable offset is what the first line of
the whole stream reads as. -/
theorem Settles.first_row {bytes : Bytes} {offset : Nat}
    (hsettles : Settles reader piece bytes) (h : Resumable piece bytes offset)
    (hpos : 0 < offset) :
    (reader.rows (bytes.take offset)).filter (·.1 = 0) =
      ((reader.read (bytes.takeWhile (· != newline))).map (0, ·)).toList := by
  obtain ⟨head, line, rest, hbytes, rfl, hhead, hline, hpiece⟩ := h
  have htake : bytes.take (head.length + line.length) = head ++ line := by
    rw [hbytes, ← List.length_append, List.take_left']
    rfl
  obtain ⟨first, behind, hfirst, hnot, hbehind⟩ := exists_line_append head
  rw [htake, rows]
  obtain rfl | ⟨more, rfl⟩ := hbehind
  · -- no newline before the offset: the settled piece begins the first line
    obtain rfl : head = [] := by
      obtain rfl | ⟨lines, rfl⟩ := hhead
      · rfl
      · simp only [List.append_nil] at hfirst
        exact absurd (hfirst ▸ List.mem_append_right lines (List.mem_singleton_self newline)) hnot
    have hsettled : piece line := by
      obtain rfl | hsettled := hpiece
      · simp at hpos
      · exact hsettled
    obtain ⟨more, later, rfl, hmore, hlater⟩ := exists_line_append rest
    have hextended := hsettles.read_append [] line more later (by simpa using hbytes) aligned_nil
      hline hmore hsettled
    have hwhole : newline ∉ line ++ more := by
      simp only [List.mem_append, not_or]
      exact ⟨hline, hmore⟩
    have hwhile : bytes.takeWhile (· != newline) = line ++ more := by
      rw [hbytes, List.nil_append, ← List.append_assoc]
      exact takeWhile_line hwhole hlater
    rw [hwhile, hextended, List.nil_append, filter_rowsFrom_line hline]
  · have hwhile : bytes.takeWhile (· != newline) = first := by
      rw [hbytes, hfirst, List.append_assoc, List.append_assoc, List.cons_append]
      exact takeWhile_line hnot (Or.inr ⟨_, rfl⟩)
    rw [hwhile, hfirst, List.append_assoc, List.cons_append, rowsFrom_append_newline,
      List.filter_append, filter_rowsFrom_line hnot, filter_rowsFrom_pos (by omega),
      List.append_nil]

end LineReader

end LineStream
