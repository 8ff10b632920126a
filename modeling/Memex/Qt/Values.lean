import Mathlib.Data.List.Sort
import Mathlib.Logic.Function.Basic
import Memex.Lib.Text
import Memex.Sources.Json

/-! # Replies of the command line as the Qt store reads them

The helper functions at the end of `store.rs`: members of JSON rows, the identity of a
conversation, pages of a transcript and the text of a record that a find searches. -/

namespace Memex.Qt

open Sources

/-- The members of a JSON object; one that it lacks reads as null. -/
abbrev Row := String → Json

def members (value : Json) : Row := fun key => (value.get key).getD .null

/-- `Value::is_null`. -/
def isNull : Json → Bool
  | .null => true
  | _ => false

def string (row : Row) (key : String) : String := (row key).asStr.getD ""

def number (row : Row) (key : String) : Nat := (row key).asU64.getD 0

def array (value : Json) : List Json := value.asArray.getD []

/-- A setting that is left out of a request where it is blank. -/
def nonempty (text : String) : Option String := if isBlankText text then none else some text

/-- `value["machine"].as_str().unwrap_or("local")`. -/
def machineOf (row : Row) : String := (row "machine").asStr.getD "local"

/-- What tells conversations apart: four texts joined by the unit separator. -/
def identity (row : Row) : String :=
  "\x1f".intercalate
    [machineOf row, string row "source", string row "session_id", string row "source_path"]

/-- The object that counts the records, among the rows of a page. -/
def isPageInfo (row : Row) : Bool := (row "type").asStr == some "page"

/-- The records of a page and the number of records of the whole session. -/
def decodePage (value : Json) : List Row × Nat :=
  let rows := (array value).map members
  let total := match rows.find? isPageInfo with
    | some page => number page "total"
    | none => rows.length
  (rows.filter fun row => !isPageInfo row, total)

/-- `==` on a member that the transport has checked to be a string in the reply. -/
def sameText (reply selected : Row) (key : String) : Bool :=
  match (reply key).asStr, (selected key).asStr with
  | some left, some right => left == right
  | _, _ => false

/-- The texts of a tool record, each once. -/
def bodyParts (record : Row) : List String :=
  ["tool_input", "tool_output", "text"].foldl (fun parts key =>
    match (record key).asStr with
    | some value => if isBlankText value || parts.contains value then parts else parts ++ [value]
    | none => parts) []

/-- The text of a record that is shown and searched. -/
def findBody (row : Row) : String :=
  let record := members (row "record")
  if ["tool_use", "tool_result", "tool", "reasoning", "system", "developer"].contains
      (string record "role") then
    "\n\n".intercalate (bodyParts record)
  else string record "text"

/-- Functions on texts the store calls: `str::to_lowercase` and `opening_title`, whose result
is shown as a label and read by nothing else. -/
structure Texts where
  lowercase : String → String
  openingTitle : List Row → Option String

/-- The texts by which apps tell one transcript from another when they ask for a page; the
transport refuses a member that is no string. -/
structure PageKey where
  machine : String
  sessionId : Option String
  sourcePath : Option String
deriving DecidableEq

def pageKey (row : Row) : PageKey where
  machine := machineOf row
  sessionId := (row "session_id").asStr
  sourcePath := (row "source_path").asStr

/-- What tells conversations apart and what pages are asked for by depend on four members. -/
theorem identity_congr {left right : Row}
    (h : ∀ key ∈ ["machine", "source", "session_id", "source_path"],
      (left key).asStr = (right key).asStr) :
    identity left = identity right ∧ pageKey left = pageKey right := by
  have hmachine := h "machine" (by simp)
  have hsource := h "source" (by simp)
  have hsession := h "session_id" (by simp)
  have hpath := h "source_path" (by simp)
  simp only [identity, pageKey, machineOf, string, hmachine, hsource, hsession, hpath, and_self]

end Memex.Qt
