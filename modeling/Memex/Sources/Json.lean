import Mathlib.Data.List.Basic
import Mathlib.Data.List.DropRight
import Memex.Lib.LineStream
import Memex.Types
import Memex.State.Types

/-! # JSON values and shared source helpers

The values the transcript parsers read, what they ask of them, and the helpers
of `sources/common.rs`. Text is valid UTF-8; a path is its text. -/

namespace Memex.Sources

open State

/-- A parsed JSON value. An object lists its members in iteration order; a
floating-point number keeps its text. -/
inductive Json where
  | null
  | bool (value : Bool)
  | int (value : Int)
  | float (text : String)
  | string (text : String)
  | array (items : List Json)
  | object (members : List (String × Json))
  deriving Repr, Inhabited

/-- A number as it is written. -/
inductive JsonNumber where
  | int (value : Int)
  | float (text : String)
  deriving DecidableEq, Repr

namespace Json

/-- `as_f64`, without the rounding. -/
def asNumber : Json → Option JsonNumber
  | .int value => some (.int value)
  | .float text => some (.float text)
  | _ => none

def get (value : Json) (key : String) : Option Json :=
  match value with
  | .object members => members.lookup key
  | _ => none

def asStr : Json → Option String
  | .string text => some text
  | _ => none

def asBool : Json → Option Bool
  | .bool value => some value
  | _ => none

def asArray : Json → Option (List Json)
  | .array items => some items
  | _ => none

def isObject : Json → Bool
  | .object _ => true
  | _ => false

def asU64 : Json → Option Nat
  | .int value => if 0 ≤ value ∧ value < 2 ^ 64 then some value.toNat else none
  | _ => none

def asI64 : Json → Option Int
  | .int value => if -2 ^ 63 ≤ value ∧ value < 2 ^ 63 then some value else none
  | _ => none

/-- A string member. -/
def getStr (value : Json) (key : String) : Option String :=
  (value.get key).bind asStr

/-- Descend through object members; no key used here is an array index. -/
def pointer (value : Json) : List String → Option Json
  | [] => some value
  | key :: rest => (value.get key).bind fun child => child.pointer rest

/-- A string member that is not empty. -/
def getNonEmpty (value : Json) (key : String) : Option String :=
  (value.getStr key).filter (· ≠ "")

def containsKey (value : Json) (key : String) : Bool :=
  (value.get key).isSome

end Json

/-- Functions of third-party crates that the parsers call: JSON rendering,
RFC 3339 dates in milliseconds and a digest in hexadecimal. -/
structure Crates where
  render : Json → String
  rfc3339Millis : String → Option Int
  sha256 : String → String

/-- `char::is_whitespace`, the Unicode property White_Space. -/
def isWhitespace (c : Char) : Bool :=
  let code := c.toNat
  (9 ≤ code && code ≤ 13) || code = 0x20 || code = 0x85 || code = 0xA0 || code = 0x1680 ||
    (0x2000 ≤ code && code ≤ 0x200A) || code = 0x2028 || code = 0x2029 || code = 0x202F ||
    code = 0x205F || code = 0x3000

/-- `str::trim`. -/
def trim (text : String) : String :=
  String.ofList ((text.toList.dropWhile isWhitespace).rdropWhile isWhitespace)

/-- The text has nothing but white space. -/
def isBlankText (text : String) : Bool :=
  trim text = ""

/-- `saturating_mul` on 64 bits. -/
def saturatingMul (left right : Nat) : Nat :=
  min (left * right) (2 ^ 64 - 1)

/-- A 32-bit counter moves on. -/
def succU32 (count : Nat) : Nat :=
  (count + 1) % 2 ^ 32

/-- The names of a path, without roots and current-directory marks. -/
def pathComponents (path : String) : List String :=
  ((path.toList.splitOn '/').map String.ofList).filter fun name => name ≠ "" && name ≠ "."

/-- `Path::file_name`. -/
def fileName (components : List String) : Option String :=
  components.getLast?.filter (· ≠ "..")

/-- `Path::file_stem` of a file name. -/
def fileStem (name : String) : String :=
  let stem := (name.toList.rdropWhile (· ≠ '.')).dropLast
  if stem = [] then name else String.ofList stem

/-- The first UUID in lower case that a text holds. -/
def firstUuid (text : List Char) : Option String :=
  text.tails.findSome? fun tail =>
    let candidate := tail.take 36
    let wellFormed := candidate.length = 36 && candidate.zipIdx.all fun (c, index) =>
      if index ∈ [8, 13, 18, 23] then c = '-' else c.isDigit || ('a' ≤ c && c ≤ 'f')
    if wellFormed then some (String.ofList candidate) else none

/-- `session_id_from_path` of `sources/codex.rs`: the UUID in the file's stem. -/
def codexSessionIdFromPath (path : String) : Option String :=
  (fileName (pathComponents path)).bind fun name => firstUuid (fileStem name).toList

def projectFromPath (path : String) : String :=
  (fileName (pathComponents path)).getD path

def parseIsoMillis (crates : Crates) (input : String) : Option Nat :=
  (crates.rfc3339Millis input).map fun millis => (max millis 0).toNat

/-- What is remembered of a tool call until its result is read. The document id
is the one the shared counter gives its record. -/
def pendingToolCall (crates : Crates) (toolName eventId : Option String) (timestamp : Nat)
    (arguments : Option String) (links : RecordLinks) (sessionId : String) : PendingToolCall where
  toolName := toolName
  toolUseEventId := eventId
  timestamp := timestamp
  argumentSha256 := arguments.map crates.sha256
  argumentBytes := arguments.map String.utf8ByteSize
  parentEventId := links.parentEventId
  sessionId := some sessionId
  sourceToolUseId := links.sourceToolUseId
  sourceToolAssistantUuid := links.sourceToolAssistantUuid

@[simp] theorem pendingToolCall_toolName (crates : Crates) (toolName eventId : Option String)
    (timestamp : Nat) (arguments : Option String) (links : RecordLinks) (sessionId : String) :
    (pendingToolCall crates toolName eventId timestamp arguments links sessionId).toolName =
      toolName := rfl

/-- The bytes of an ASCII text. -/
def asciiBytes (text : String) : LineStream.Bytes :=
  text.toList.map fun c => UInt8.ofNat c.toNat

/-- A text in quotes, with quotes and backslashes escaped. -/
def quoted (text : String) : String :=
  "\"" ++ String.ofList (text.toList.flatMap fun c =>
    if c = '"' || c = '\\' then ['\\', c] else [c]) ++ "\""

mutual

/-- The compact text of a value, for texts without control characters. -/
def Json.compact : Json → String
  | .null => "null"
  | .bool value => if value then "true" else "false"
  | .int value => toString value
  | .float text => text
  | .string text => quoted text
  | .array items => "[" ++ compactItems items ++ "]"
  | .object members => "\x7b" ++ compactMembers members ++ "\x7d"

def compactItems : List Json → String
  | [] => ""
  | [item] => item.compact
  | item :: rest => item.compact ++ "," ++ compactItems rest

def compactMembers : List (String × Json) → String
  | [] => ""
  | [(key, value)] => quoted key ++ ":" ++ value.compact
  | (key, value) :: rest => quoted key ++ ":" ++ value.compact ++ "," ++ compactMembers rest

end

/-- Crates that render compactly and read no date. -/
def plainCrates : Crates where
  render := Json.compact
  rfc3339Millis _ := none
  sha256 := id

/-- The lines of a file that holds the values, one to a line. -/
def valueLines (values : List Json) : List LineStream.Bytes :=
  values.map fun value => asciiBytes value.compact ++ [LineStream.newline]

/-- A reader that knows the listed values by their texts, up to blanks behind them. -/
def listedReader (values : List Json) : LineStream.LineReader Json where
  read line :=
    let core := line.rdropWhile LineStream.isBlank
    if core = [] then none
    else (values.map fun value => (asciiBytes value.compact, value)).lookup core
  read_blank line h := by
    have hcore : line.rdropWhile LineStream.isBlank = [] :=
      List.rdropWhile_eq_nil_iff.mpr (List.all_eq_true.mp h)
    simp [hcore]
  read_trailing line blanks value hvalue h := by
    have hcore : (line ++ blanks).rdropWhile LineStream.isBlank =
        line.rdropWhile LineStream.isBlank := by
      have hblanks : ∀ byte ∈ blanks.reverse, LineStream.isBlank byte = true := fun byte hbyte =>
        List.all_eq_true.mp h byte (List.mem_reverse.mp hbyte)
      rw [List.rdropWhile, List.reverse_append, List.dropWhile_append_of_pos hblanks,
        List.rdropWhile]
    rw [hcore]
    exact hvalue

/-! ## The texts as lists of symbols

The compact text of a value, symbol by symbol: with it a reader of listed values is evaluated
without the bytes of strings. -/

def quotedSymbols (text : String) : List Char :=
  '"' :: text.toList.flatMap (fun c => if c = '"' || c = '\\' then ['\\', c] else [c]) ++ ['"']

mutual

def Json.symbols : Json → List Char
  | .null => "null".toList
  | .bool value => (if value then "true" else "false").toList
  | .int value => (toString value).toList
  | .float text => text.toList
  | .string text => quotedSymbols text
  | .array items => '[' :: itemSymbols items ++ [']']
  | .object members => '\x7b' :: memberSymbols members ++ ['\x7d']

def itemSymbols : List Json → List Char
  | [] => []
  | [item] => item.symbols
  | item :: rest => item.symbols ++ ',' :: itemSymbols rest

def memberSymbols : List (String × Json) → List Char
  | [] => []
  | [(key, value)] => quotedSymbols key ++ ':' :: value.symbols
  | (key, value) :: rest => quotedSymbols key ++ ':' :: value.symbols ++ ',' :: memberSymbols rest

end

theorem toList_quoted (text : String) : (quoted text).toList = quotedSymbols text := by
  simp [quoted, quotedSymbols]

mutual

theorem toList_compact : ∀ value : Json, value.compact.toList = value.symbols
  | .null | .bool _ | .int _ | .float _ => by simp [Json.compact, Json.symbols]
  | .string text => by rw [Json.compact, Json.symbols, toList_quoted]
  | .array items => by simp [Json.compact, Json.symbols, toList_compactItems items]
  | .object members => by simp [Json.compact, Json.symbols, toList_compactMembers members]

theorem toList_compactItems : ∀ items : List Json, (compactItems items).toList = itemSymbols items
  | [] => by simp [compactItems, itemSymbols]
  | [item] => by simp [compactItems, itemSymbols, toList_compact item]
  | item :: next :: rest => by
      simp [compactItems, itemSymbols, toList_compact item, toList_compactItems (next :: rest)]

theorem toList_compactMembers : ∀ members : List (String × Json),
    (compactMembers members).toList = memberSymbols members
  | [] => by simp [compactMembers, memberSymbols]
  | [(key, value)] => by
      simp [compactMembers, memberSymbols, toList_quoted, toList_compact value]
  | (key, value) :: next :: rest => by
      simp [compactMembers, memberSymbols, toList_quoted, toList_compact value,
        toList_compactMembers (next :: rest)]

end

theorem splitOn_valueLines {values : List Json}
    (h : ∀ value ∈ values, LineStream.newline ∉ asciiBytes value.compact) :
    (valueLines values).flatten.splitOn LineStream.newline =
      values.map (fun value => asciiBytes value.compact) ++ [[]] := by
  induction values with
  | nil => rfl
  | cons value rest ih =>
      have hrest := ih fun other hother => h other (List.mem_cons_of_mem _ hother)
      rw [valueLines, List.map_cons, List.flatten_cons, List.append_assoc, List.singleton_append,
        List.splitOn_append_cons_self_of_not_mem (h value List.mem_cons_self)]
      exact congrArg _ hrest

theorem listedReader_eq_some {values : List Json} {line : LineStream.Bytes} {found : Json}
    (h : (listedReader values).read line = some found) :
    line.rdropWhile LineStream.isBlank ≠ [] ∧
      ∃ value ∈ values, asciiBytes value.compact = line.rdropWhile LineStream.isBlank := by
  simp only [listedReader] at h
  split at h
  · cases h
  case isFalse hcore =>
    obtain ⟨before, after, hvalues, -⟩ := List.lookup_eq_some_iff.mp h
    have hmem : (line.rdropWhile LineStream.isBlank, found) ∈
        values.map fun value => (asciiBytes value.compact, value) := by
      rw [hvalues]
      simp
    obtain ⟨value, hvalue, heq⟩ := List.mem_map.mp hmem
    exact ⟨hcore, value, hvalue, congrArg Prod.fst heq⟩

/-- Lines of which none begins another line are clean for the reader that knows them. -/
theorem clean_valueLines {values : List Json}
    (hline : ∀ value ∈ values, LineStream.newline ∉ asciiBytes value.compact)
    (hbegin : ∀ left ∈ values, ∀ right ∈ values,
      asciiBytes left.compact <+: asciiBytes right.compact →
        asciiBytes left.compact = asciiBytes right.compact) :
    (listedReader values).Clean (valueLines values).flatten := by
  apply LineStream.LineReader.clean_of_lines
  rw [splitOn_valueLines hline]
  intro line hmem length hlength hread
  obtain ⟨found, hfound⟩ := Option.isSome_iff_exists.mp hread
  obtain ⟨hcore, left, hleft, htext⟩ := listedReader_eq_some hfound
  have hbegins : (line.take length).rdropWhile LineStream.isBlank <+: line.take length :=
    List.rdropWhile_prefix _ _
  have hwhole : line = asciiBytes left.compact := by
    obtain hvalue | hlast := List.mem_append.mp hmem
    · obtain ⟨right, hright, rfl⟩ := List.mem_map.mp hvalue
      refine (hbegin left hleft right hright ?_).symm
      rw [htext]
      exact hbegins.trans (List.take_prefix _ _)
    · obtain rfl := List.mem_singleton.mp hlast
      exact absurd (by simp) hcore
  have hlong : line.length ≤ length := by
    have hle := hbegins.length_le
    rw [← htext, ← hwhole, List.length_take] at hle
    omega
  rw [List.drop_eq_nil_of_le hlong]
  rfl

end Memex.Sources
