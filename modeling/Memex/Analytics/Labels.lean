import Memex.Lib.Text
import Memex.Sources.Json

/-! # Labels and kinds of sessions

What the catalogue shows of a session: a label made of a title or of the first user
text, and the kind of conversation. -/

namespace Memex.Analytics

open Sources Text

def maxLabelChars : Nat := 150

/-- `strip_ansi`: escape sequences go, each up to the end of its control or string. -/
def stripAnsi : Nat → List Char → List Char
  | 0, _ => []
  | _, [] => []
  | fuel + 1, char :: rest =>
      if char ≠ '\x1b' then char :: stripAnsi fuel rest
      else match rest with
        | '[' :: control =>
            stripAnsi fuel ((control.dropWhile fun char => !char.isAlpha).drop 1)
        | ']' :: text => stripAnsi fuel (afterOsc text)
        | _ => stripAnsi fuel rest
where
  afterOsc : List Char → List Char
    | [] => []
    | '\x07' :: rest => rest
    | '\x1b' :: '\\' :: rest => rest
    | _ :: rest => afterOsc rest

def dropTags : List String :=
  ["system-reminder", "command-message", "command-name", "local-command-stdout",
    "local-command-caveat", "local-command-output", "instructions", "environment_context", "cwd",
    "approval_policy", "shell", "user_instructions", "recommended_plugins", "skill",
    "user_action", "context", "task-notification", "task-id", "tool-use-id",
    "subagent_notification", "turn_aborted", "current_date", "timezone", "epoch",
    "collaboration_mode", "apps_instructions", "permissions", "total_tokens"]

/-- `strip_drop_tags`: every block of a listed tag goes; one without its closing tag
truncates the text. -/
def stripDropTags : Nat → List Char → List Char
  | 0, rest => rest
  | fuel + 1, rest =>
      let before := rest.takeWhile (· ≠ '<')
      match rest.dropWhile (· ≠ '<') with
      | [] => rest
      | _ :: after =>
          match dropTags.find? (startsIgnoreCase after) with
          | none => before ++ '<' :: stripDropTags fuel after
          | some tag =>
              match after.dropWhile (· ≠ '>') with
              | [] => before
              | _ :: body =>
                  let close := "</" ++ tag ++ ">"
                  match findIgnoreCase body close with
                  | none => before
                  | some closeAt =>
                      before ++ ' ' :: stripDropTags fuel (body.drop (closeAt + close.length))

/-- The generic unwrapping of `sanitize_label`: other tags become a blank. -/
def unwrapTags : Nat → List Char → List Char → List Char
  | 0, done, rest => done ++ rest
  | fuel + 1, done, rest =>
      let before := rest.takeWhile (· ≠ '<')
      match rest.dropWhile (· ≠ '<') with
      | [] => done ++ rest
      | _ :: inner =>
          match inner.dropWhile (· ≠ '>') with
          | [] => done ++ rest
          | _ :: after =>
              let afterLt := inner.headD ' '
              let (done, rest) :=
                if afterLt.isAlpha || afterLt = '/' || afterLt = '!' then
                  (done ++ before, ' ' :: after)
                else (done ++ before ++ '<' :: inner.takeWhile (· ≠ '>') ++ ['>'], after)
              if 10000 < byteLength (done ++ rest) then done ++ rest
              else unwrapTags fuel done rest

/-- `char::is_control`. -/
def isControl (char : Char) : Bool :=
  char.toNat < 0x20 || (0x7f ≤ char.toNat && char.toNat < 0xa0)

/-- Collapse white space and drop control characters. -/
def collapse (text : List Char) : List Char :=
  (text.foldl (fun (collapsed, pendingSpace) char =>
    if isWhitespace char then (collapsed, true)
    else if isControl char then (collapsed, pendingSpace)
    else if pendingSpace && collapsed ≠ [] then (collapsed ++ [' ', char], false)
    else (collapsed ++ [char], false)) (([], false) : List Char × Bool)).1

def trimChars (text : List Char) : List Char :=
  (text.dropWhile isWhitespace).rdropWhile isWhitespace

/-- Shorten the tail until it fits beside a head of the given length. -/
def shortenTail (headLength : Nat) : Nat → List Char → List Char
  | 0, tail => tail
  | fuel + 1, tail =>
      if headLength + 1 + tail.length ≤ maxLabelChars then tail
      else match tail.dropWhile (· ≠ ' ') with
        | _ :: after => shortenTail headLength fuel (trimChars after)
        | [] => if 10 < tail.length then shortenTail headLength fuel (tail.drop (tail.length - 10))
            else tail

/-- The suffix-preserving truncation of `finish_label`. -/
def truncateLabel (printable : List Char) : List Char :=
  let tailLength := 40
  let headRaw := printable.take (maxLabelChars - (tailLength + 1))
  let beforeSpace := (headRaw.rdropWhile (· ≠ ' ')).dropLast
  let head := if ' ' ∈ headRaw && 80 < byteLength beforeSpace then beforeSpace else headRaw
  let tailRaw := printable.drop (printable.length - tailLength)
  let tail := match tailRaw.dropWhile (· ≠ ' ') with
    | _ :: after => trimChars after
    | [] => trimChars tailRaw
  if tail = [] then head ++ ['…']
  else head ++ '…' :: shortenTail head.length (tail.length + 1) tail

def finishLabel (text : List Char) : List Char :=
  let noAnsi := if '\x1b' ∈ text then stripAnsi text.length text else text
  let collapsed := collapse noAnsi
  if startsIgnoreCase collapsed "# agents.md" ||
      startsIgnoreCase collapsed "## referenced chatgpt conversation:" ||
      (findIgnoreCase collapsed "global agent preferences").isSome ||
      startsIgnoreCase collapsed "you are a reminder observer" then []
  else if collapsed.length ≤ maxLabelChars then collapsed
  else truncateLabel collapsed

/-- The explicit request after a preview of referenced conversations. -/
def afterRequestLine (text : List Char) : List Char :=
  let later := (text.splitOn '\n').dropWhile fun line =>
    !eqIgnoreAsciiCase (trimChars line) "## My request:".toList
  ['\n'].intercalate later.tail

def sanitizeLabel (raw : String) : String :=
  let trimmed := raw.toList.dropWhile isWhitespace
  let request :=
    if startsIgnoreCase trimmed "## Referenced ChatGPT conversation:" ||
      startsIgnoreCase trimmed "## Referenced chats with Codex:" then afterRequestLine trimmed
    else raw.toList
  if '<' ∈ request then
    let current := stripDropTags (request.length + 1) request
    String.ofList (finishLabel (unwrapTags (current.length + 1) [] current))
  else String.ofList (finishLabel request)

/-- `SessionKey`. -/
structure SessionKey where
  source : SourceKind
  sessionId : String
  sourcePath : String
  deriving DecidableEq, Repr

/-- `SessionMetadata`. -/
structure SessionMetadata where
  cwd : Option String := none
  gitRoot : Option String := none
  gitCommonDir : Option String := none
  repoProject : Option String := none
  resolutionStatus : String := ""
  deriving DecidableEq, Repr

/-- What the writer looks up besides the records: directories and repositories, titles the
providers keep, OpenCode's parent column, and Unicode's lower case. -/
structure SessionLookups where
  metadata : SessionKey → SessionMetadata
  title : SessionKey → Option String
  hasParent : SessionKey → Bool
  lowercase : String → String

def extractSessionLabel (lookups : SessionLookups) (key : SessionKey)
    (firstUserText : Option String) : Option String :=
  let raw := match key.source with
    | .opencode | .grok =>
        match lookups.title key with
        | some title => if isBlankText title then firstUserText else some title
        | none => firstUserText
    | .jcode | .bob => (lookups.title key).or firstUserText
    | _ => firstUserText
  raw.bind fun raw =>
    let label := sanitizeLabel raw
    if label = "" then none else some label

def jcodeSubagentMarkers : List String :=
  ["you are a low-effort fact-checker", "you are a low effort", "you are a subagent",
    "you are downstream", "you are the downstream", "investigation subagent", "deep validation:",
    "bossmode task", "role: manager:"]

def jcodeWorkerSandboxTokens : List String :=
  ["worker", "agent", "swarm", "sandbox", "spawn", "subagent"]

def jcodeTmpCwdIsWorkerSandbox (lookups : SessionLookups) (cwd : String) : Bool :=
  let underTmp := cwd = "/tmp" || cwd = "/private/tmp" || startsWith cwd "/tmp/" ||
    startsWith cwd "/private/tmp/"
  let leaf := lookups.lowercase (String.ofList (cwd.toList.rtakeWhile (· ≠ '/')))
  underTmp && jcodeWorkerSandboxTokens.any (contains leaf)

def jcodeTextIsSubagentDirective (lower : String) : Bool :=
  jcodeSubagentMarkers.any (contains lower) ||
    (contains lower "implementation worker" &&
      (contains lower "implementation worker for" || contains lower "you are")) ||
    match lower.toList.tails.find? fun rest => "0 repo writes".toList.isPrefixOf rest with
    | some found =>
        let rest := String.ofList ((found.drop "0 repo writes".length).dropWhile isWhitespace)
        startsWith rest "outside" || startsWith rest "."
    | none => false

/-- The kind that the place of a session gives away. -/
def placeKind (lookups : SessionLookups) (key : SessionKey) : Option String :=
  match key.source with
  | .jcode =>
      if (lookups.metadata key).cwd.any (jcodeTmpCwdIsWorkerSandbox lookups) then some "subagent"
      else none
  | .opencode => if lookups.hasParent key then some "fork" else none
  | .muse | .claude | .cursor =>
      let components := (key.sourcePath.toList.map fun char =>
        if char = '\\' then '/' else char).splitOn '/'
      let name := String.ofList (components.getLastD [])
      if components.any fun part => part = "subagents".toList || part = "subagent".toList then
        some "subagent"
      else if key.source = .claude && startsWith name "agent-" && endsWith name ".jsonl" then
        some "subagent"
      else none
  | _ => none

/-- The first user text tells a Jcode session apart from an interactive one. -/
def isDirective (lookups : SessionLookups) (key : SessionKey) (firstUserText : Option String) :
    Bool :=
  key.source = .jcode && firstUserText.any fun text =>
    jcodeTextIsSubagentDirective (lookups.lowercase text)

def inferSessionKind (lookups : SessionLookups) (key : SessionKey)
    (initialKind firstUserText : Option String) : Option String :=
  match initialKind.filter fun kind => kind ≠ "main" && kind ≠ "" with
  | some kind => some kind
  | none =>
      match placeKind lookups key with
      | some kind => some kind
      | none => if isDirective lookups key firstUserText then some "subagent" else some "main"

end Memex.Analytics
